import Zdeex.Cc.SellsConserve

namespace Zdeex.Cc

open Zdeex.Framework
open Zdeex.Script
open Zdeex.Coins
open Zdeex.Block
open Zdeex.Crosschain

namespace World

variable {W : World} {wal : Wallet}

section Fill

variable {txfee : Int} {assetid bidtxid : Uint256} {fillamount : Int} {vin : List CTxIn}
  {bid : CTransaction} {b : Uint256} {tx : CTransaction}

/-- The first output of a bid stands at the address of the assets contract. -/
def PaysAssets (W : World) (bid : CTransaction) : Prop :=
  W.getScriptAddress (W.voutAt bid 0).scriptPubKey=
    some (W.getCCaddress EVAL_ASSETS (W.unspendablePk EVAL_ASSETS))

/-- The record with the address of the assets contract added. -/
def assetsContract (W : World) (assetid : Uint256) : CCcontract :=
  ⟨EVAL_TOKENS,(W.getNonfungibleData assetid).headD 0,EVAL_ASSETS,W.unspendablePk EVAL_ASSETS,
    W.getCCaddress EVAL_ASSETS (W.unspendablePk EVAL_ASSETS)⟩

/-- The inputs that `FillBuyOffer` starts with. -/
def fillVins (vin : List CTxIn) (bidtxid : Uint256) : List CTxIn := vin++[⟨⟨bidtxid,0⟩,[]⟩]

/-- What is paid for a bid. -/
def fillOf (W : World) (wal : Wallet) (bid : CTransaction) (fillamount : Int) :
    BidFill.Fillamounts :=
  bidFillamounts (W.voutAt bid 0).nValue fillamount (W.setAssetOrigpubkey wal bid).2

/-- The key that placed a bid. -/
def origPk (W : World) (wal : Wallet) (bid : CTransaction) : CPubKey :=
  pubkey2pk (W.setAssetOrigpubkey wal bid).1

/-- The outputs of a fill before its change. -/
def fillVouts (W : World) (wal : Wallet) (bid : CTransaction) (txfee : Int) (e2 : UInt8)
    (fill : BidFill.Fillamounts) : List CTxOut :=
  [W.makeCC1vout EVAL_ASSETS (toCAmount ((W.voutAt bid 0).nValue-fill.received_nValue))
      (W.unspendablePk EVAL_ASSETS),
    ⟨fill.received_nValue,pushData wal.mypk++[0xac]⟩,
    W.makeTokensCC1vout (if e2=0 then EVAL_TOKENS else e2) 0 fill.paidunits (W.origPk wal bid),
    W.makeCC1vout EVAL_ASSETS (feeOf txfee) (W.origPk wal bid)]

theorem bidFillamounts_paidunits (orig_nValue paidunits totalunits : Int) (h : 0≤paidunits) :
    (bidFillamounts orig_nValue paidunits totalunits).paidunits≤paidunits := by
  unfold bidFillamounts
  split_ifs <;> dsimp only <;> omega

/-- The bid is signed for the assets contract. -/
theorem Signed.idle_of_bid (hwal : wal.Fits W) {pk : CPubKey}
    (hsep : W.Separated (W.CallKey wal pk)) (hget : W.getTransaction bidtxid=some (bid,b))
    (hbid : W.PaysAssets bid) {s : CTxIn}
    (h : W.Signed wal (W.assetsContract assetid) ⟨⟨bidtxid,0⟩,[]⟩ s) :
    W.ismyvin EVAL_TOKENS s.scriptSig=false := by
  obtain ⟨-,out,hout,⟨-,hnone⟩ | ⟨-,destaddr,cond,cond',hknown,hcond,hread,hcodes,-⟩⟩ := h
  · rw [ismyvin,hnone]
  have hvout : W.voutAt bid 0=out := by
    unfold spentOut at hout
    dsimp only at hout
    rw [hget] at hout
    have hfirst : bid.vout[0]?=some out := hout
    rw [voutAt,List.getD_eq_getElem?_getD,hfirst,Option.getD_some]
  unfold PaysAssets at hbid
  rw [hvout] at hbid
  obtain rfl := hknown _ hbid
  have hassets : W.getCCaddress EVAL_ASSETS (W.unspendablePk EVAL_ASSETS)=
      W.condAddress (makeCCcond1 EVAL_ASSETS (W.unspendablePk EVAL_ASSETS)) := by
    rw [getCCaddress,orUnspendable,if_neg hwal.assetsOwn.1]
  have hglobal : ∀e,W.CallKey wal pk (W.unspendablePk e) := fun e => .inr (.inr (.inr ⟨e,rfl⟩))
  have hor : ∀{k : CPubKey},W.CallKey wal pk k →
      W.CallKey wal pk (W.orUnspendable EVAL_TOKENS k) := by
    intro k hk
    unfold orUnspendable
    split_ifs
    · exact hglobal EVAL_TOKENS
    · exact hk
  have hother : ∀c,TokenCond (W.CallKey wal pk) c → [EVAL_TOKENS]∈c.codes →
      ¬(W.condAddress c==W.getCCaddress EVAL_ASSETS (W.unspendablePk EVAL_ASSETS))=true := by
    intro c hc heval heq
    have haddr := (beq_iff_eq.mp heq).trans hassets
    have hperm := (hsep.address c _ hc (tokenCond_plain (hglobal EVAL_ASSETS)) haddr).1
    have hsame := List.mem_singleton.mp (hperm.subset heval)
    exact absurd hsame (by decide)
  have hplain : ∀{k : CPubKey},W.CallKey wal pk k →
      ¬(W.getCCaddress EVAL_TOKENS k==
        W.getCCaddress EVAL_ASSETS (W.unspendablePk EVAL_ASSETS))=true := fun hk =>
    hother _ (tokenCond_plain (hor hk)) (List.mem_singleton_self _)
  have htokens : ∀{k : CPubKey} (e : UInt8),W.CallKey wal pk k →
      ¬(W.getTokensCCaddress EVAL_TOKENS e k==
        W.getCCaddress EVAL_ASSETS (W.unspendablePk EVAL_ASSETS))=true := fun e hk => by
    refine hother _ (tokenCond_tokens (hor hk)) ?_
    rw [makeTokensCCcond1,codes_makeTokensCond]
    exact tokens_mem_tokenCodes _ _
  have hskip : ∀{addr a : String} {c : CC} {l : List (String × CC)},¬(a==addr)=true →
      ((a,c)::l).find? (fun p => p.1==addr)=l.find? (fun p => p.1==addr) := fun h =>
    List.find?_cons_of_neg h
  have hfound : ∀{a : String} {c : CC} {l : List (String × CC)},
      ((a,c)::l).find? (fun p => p.1==a)=some (a,c) := fun {a _ _} =>
    List.find?_cons_of_pos (beq_self_eq_true a)
  unfold condFor condTable at hcond
  dsimp only [assetsContract] at hcond
  rw [hskip (hplain (.inl rfl)),hskip (htokens _ (.inl rfl)),hskip (hplain (.inl rfl)),
    hskip (hplain (hglobal EVAL_TOKENS)),hskip (htokens _ (hglobal EVAL_TOKENS)),hfound] at hcond
  obtain rfl := Option.some.inj hcond
  rw [ismyvin_of_codes hread,decide_eq_false_iff_not]
  intro heval
  have hsame := List.mem_singleton.mp (hcodes.subset heval)
  exact absurd hsame (by decide)

/-- What `FillBuyOffer` builds. -/
theorem fillBuyOffer_built (hwal : wal.Fits W)
    (hnormal : wal.addNormalinputs (2*feeOf txfee) 3=some vin)
    (hget : W.getTransaction bidtxid=some (bid,b)) (hbid : W.PaysAssets bid)
    (hsep : W.Separated (W.CallKey wal (W.origPk wal bid)))
    (h : W.fillBuyOffer wal txfee assetid bidtxid fillamount=some tx) :
    0≤fillamount ∧
      fillamount≤
        (W.tokenInputsFor wal assetid (fillVins vin bidtxid) fillamount).totalinputs ∧
      0<(W.tokenInputsFor wal assetid (fillVins vin bidtxid) fillamount).totalinputs ∧
      assetid≠0 ∧
      W.Built wal assetid (W.origPk wal bid)
        [(OPRETID_ASSETSDATA,encodeAssetOpRet (chr 'B') 0
          (W.fillOf wal bid fillamount).remaining_units (W.setAssetOrigpubkey wal bid).1)]
        (W.fillVouts wal bid txfee ((W.getNonfungibleData assetid).headD 0)
            (W.fillOf wal bid fillamount)++
          (if (W.fillOf wal bid fillamount).paidunits<
              (W.tokenInputsFor wal assetid (fillVins vin bidtxid) fillamount).totalinputs then
            [W.makeCC1vout EVAL_TOKENS
              ((W.tokenInputsFor wal assetid (fillVins vin bidtxid) fillamount).totalinputs-
                (W.fillOf wal bid fillamount).paidunits) wal.mypk]
          else [])) tx
        (if fillamount≠0 then
          (W.tokenInputsFor wal assetid (fillVins vin bidtxid) fillamount).totalinputs else 0) := by
  obtain ⟨hcp,hdata⟩ := tokenInputsFor_cp W wal assetid (fillVins vin bidtxid) fillamount
  obtain ⟨sel,hsel,hvin,hinputs⟩ :=
    tokenInputsFor_selects W wal assetid (fillVins vin bidtxid) fillamount
  unfold fillBuyOffer at h
  rw [hnormal] at h
  by_cases hneg : fillamount<0
  · rw [if_pos hneg] at h
    cases h
  rw [if_neg hneg,Option.bind_some,hget,Option.bind_some] at h
  dsimp only at h
  have hvins : vin++[⟨⟨bidtxid,0⟩,[]⟩]=fillVins vin bidtxid := rfl
  rw [hvins] at h
  by_cases hnone : (W.tokenInputsFor wal assetid (fillVins vin bidtxid) fillamount).totalinputs≤0
  · rw [if_pos hnone] at h
    cases h
  rw [if_neg hnone] at h
  by_cases hfew :
      (W.tokenInputsFor wal assetid (fillVins vin bidtxid) fillamount).totalinputs<fillamount
  · rw [if_pos hfew] at h
    cases h
  rw [if_neg hfew,change_eq _ _ fun n => W.makeCC1vout EVAL_TOKENS n wal.mypk,hdata,hvin,hcp] at h
  have hidle : ∀v∈fillVins vin bidtxid,∀s,W.Signed wal (W.assetsContract assetid) v s →
      W.ismyvin EVAL_TOKENS s.scriptSig=false := by
    intro v hv s hs
    rcases List.mem_append.mp hv with hin | hlast
    · exact hs.idle_of_normal (hwal.normal _ _ _ hnormal v hin).2
    · obtain rfl := List.mem_singleton.mp hlast
      exact hs.idle_of_bid hwal hsep hget hbid
  have hdecode := @decode_orderData assetid (W.origPk wal bid) (chr 'B') 0
    (W.fillOf wal bid fillamount).remaining_units (W.setAssetOrigpubkey wal bid).1
    (isPubKey_pubkey2pk (W.setAssetOrigpubkey wal bid).1) (.inr (.inr (.inr rfl)))
    (hwal.small _ _ _ hget) W.strayPk
  have hbuilt := built_of_finalize hwal rfl rfl hidle hsel hdecode h
  rw [← hinputs] at hbuilt
  refine ⟨by omega,by omega,by omega,?_,hbuilt⟩
  exact tokenid_ne_zero (fun u hu => (hsel u hu).2) (by omega)

section Values

variable {rest : List UInt8} {vout : List CTxOut} {amount n : Int}

/-- The tokens for a bid count when its key does and the token's own code is not that of
tokens. -/
theorem Built.value_paid {pk : CPubKey} (h : W.Built wal assetid pk
      [(OPRETID_ASSETSDATA,EVAL_ASSETS::rest)] vout tx amount) (hwal : wal.Fits W)
    (hsep : W.Separated (W.CallKey wal pk)) :
    W.transferValue tx (transferOpRet assetid pk [(OPRETID_ASSETSDATA,EVAL_ASSETS::rest)]) assetid
      (W.makeTokensCC1vout (if (W.getNonfungibleData assetid).headD 0=0 then EVAL_TOKENS
        else (W.getNonfungibleData assetid).headD 0) 0 n pk)=
      if W.Counts pk ∧ (W.getNonfungibleData assetid).headD 0≠EVAL_TOKENS then n else 0 := by
  have hself : W.CallKey wal pk pk := .inr (.inl rfl)
  by_cases hcounts : W.Counts pk
  swap
  · have hnot : ¬(W.Counts pk ∧ (W.getNonfungibleData assetid).headD 0≠EVAL_TOKENS) := fun hc =>
      hcounts hc.1
    rw [if_neg hnot]
    apply h.value_unseen hwal hsep (tokenCond_tokens hself) (publicKeys_makeTokensCond _ _ _)
    rintro codes - - ⟨hvout | hvin,-⟩
    · exact hcounts (mem_voutPubkeys.mp hvout).2
    · have hmine := (h.inputs.vinPubkeys hwal rfl).1 _ hvin
      apply hcounts
      rw [hmine]
      exact ⟨hwal.key,hwal.own EVAL_TOKENS⟩
  by_cases htokens : (W.getNonfungibleData assetid).headD 0=EVAL_TOKENS
  · have hne : (W.getNonfungibleData assetid).headD 0≠0 := by
      rw [htokens]
      decide
    have hnot : ¬(W.Counts pk ∧ (W.getNonfungibleData assetid).headD 0≠EVAL_TOKENS) := fun hc =>
      hc.2 htokens
    rw [if_neg hnot,if_neg hne,htokens]
    exact h.value_single hwal hsep hself hne
  have hboth : W.Counts pk ∧ (W.getNonfungibleData assetid).headD 0≠EVAL_TOKENS :=
    ⟨hcounts,htokens⟩
  rw [if_pos hboth]
  apply Built.value_seen hsep (tokenCond_tokens hself)
  apply mem_testVouts_opret hcounts
  rw [tokenEvalCodes_assets]
  right
  by_cases hdata : (W.getNonfungibleData assetid).headD 0=0
  · rw [if_pos hdata,hdata]
    exact List.mem_append_left _ (List.mem_append_left _ (mem_voutIf.mpr ⟨rfl,rfl⟩))
  · rw [if_neg hdata]
    rcases assetCodes_nonfungible hdata with ⟨hcode,-⟩ | ⟨-,heq⟩
    · exact absurd hcode htokens
    · rw [heq]
      exact List.mem_append_left _ (List.mem_append_right _
        (mem_voutIf.mpr ⟨decide_eq_true hdata,rfl⟩))

/-- A fifth output with a condition is the change. -/
theorem Built.hasCondition_fill {fill : BidFill.Fillamounts} {selected : Int} {pk : CPubKey}
    {oprets : Oprets}
    (h : W.Built wal assetid pk oprets
      (W.fillVouts wal bid txfee ((W.getNonfungibleData assetid).headD 0) fill++
        (if fill.paidunits<selected then
          [W.makeCC1vout EVAL_TOKENS (selected-fill.paidunits) wal.mypk] else [])) tx amount)
    (hsep : W.Separated (W.CallKey wal (W.origPk wal bid))) :
    HasCondition tx 4 ↔ fill.paidunits<selected := by
  rw [h.hasCondition_iff]
  unfold fillVouts
  by_cases hlt : fill.paidunits<selected
  · rw [if_pos hlt]
    simp [hlt,hsep.payTo _ (tokenCond_plain (.inl rfl)),makeCC1vout]
  · rw [if_neg hlt]
    simp [hlt]

/-- The tokens that count in a fill: those for the bid and the change of fungible ones. -/
theorem Built.sum_fill {fill : BidFill.Fillamounts} {selected : Int}
    (h : W.Built wal assetid (W.origPk wal bid) [(OPRETID_ASSETSDATA,EVAL_ASSETS::rest)]
      (W.fillVouts wal bid txfee ((W.getNonfungibleData assetid).headD 0) fill++
        (if fill.paidunits<selected then
          [W.makeCC1vout EVAL_TOKENS (selected-fill.paidunits) wal.mypk] else [])) tx selected)
    (hwal : wal.Fits W) (hsep : W.Separated (W.CallKey wal (W.origPk wal bid)))
    (hpaid : fill.paidunits ≤ selected ∧ 0<selected) :
    (List.map (W.transferValue tx (transferOpRet assetid (W.origPk wal bid)
        [(OPRETID_ASSETSDATA,EVAL_ASSETS::rest)]) assetid)
        (W.fillVouts wal bid txfee ((W.getNonfungibleData assetid).headD 0) fill++
          (if fill.paidunits<selected then
            [W.makeCC1vout EVAL_TOKENS (selected-fill.paidunits) wal.mypk] else []))).sum=
      (if W.Counts (W.origPk wal bid) ∧ (W.getNonfungibleData assetid).headD 0≠EVAL_TOKENS then
          fill.paidunits else 0)+
        (if (W.getNonfungibleData assetid).headD 0=0 then selected-fill.paidunits else 0) := by
  obtain ⟨hle,hpos⟩ := hpaid
  unfold fillVouts
  rw [List.map_append,List.sum_append,List.map_cons,List.map_cons,List.map_cons,
    List.map_singleton,List.sum_cons,List.sum_cons,List.sum_cons,List.sum_singleton,
    h.value_assets hwal hsep (.inr (.inr (.inr ⟨_,rfl⟩))),value_normal,
    h.value_paid hwal hsep,h.value_assets hwal hsep (.inr (.inl rfl)),zero_add,zero_add,add_zero]
  congr 1
  by_cases hlt : fill.paidunits<selected
  · rw [if_pos hlt,List.map_singleton,List.sum_singleton]
    by_cases hdata : (W.getNonfungibleData assetid).headD 0=0
    · rw [if_pos hdata,h.value_change hwal hsep (by omega) hdata]
    · rw [if_neg hdata,h.value_single hwal hsep (.inl rfl) hdata]
  · rw [if_neg hlt,List.map_nil,List.sum_nil]
    split_ifs <;> omega

end Values

/-- A fill conserves tokens exactly when there is something to fill, the tokens go to a key
that counts and a token whose own code is not that of tokens, or there are none to pay, and
only fungible tokens leave change. -/
theorem fillBuyOffer_conserves_iff (hwal : wal.Fits W)
    (hnormal : wal.addNormalinputs (2*feeOf txfee) 3=some vin)
    (hget : W.getTransaction bidtxid=some (bid,b)) (hbid : W.PaysAssets bid)
    (hsep : W.Separated (W.CallKey wal (W.origPk wal bid))) (site : Site)
    (h : W.fillBuyOffer wal txfee assetid bidtxid fillamount=some tx) :
    W.Conserves site assetid tx
        (W.tokenInputsFor wal assetid (fillVins vin bidtxid) fillamount).totalinputs
        (W.fillOf wal bid fillamount).paidunits 4 ↔
      0<fillamount ∧
        ((W.fillOf wal bid fillamount).paidunits=0 ∨
          (W.Counts (W.origPk wal bid) ∧ (W.getNonfungibleData assetid).headD 0≠EVAL_TOKENS)) ∧
        ((W.fillOf wal bid fillamount).paidunits<
          (W.tokenInputsFor wal assetid (fillVins vin bidtxid) fillamount).totalinputs →
          (W.getNonfungibleData assetid).headD 0=0) ∧
        (site.AcceptsAll ∨ (W.getTransaction assetid).isSome) := by
  obtain ⟨hlow,hhigh,hpos,hnull,hbuilt⟩ := fillBuyOffer_built hwal hnormal hget hbid hsep h
  obtain ⟨rest,hrest⟩ : ∃rest,encodeAssetOpRet (chr 'B') 0
      (W.fillOf wal bid fillamount).remaining_units (W.setAssetOrigpubkey wal bid).1=
        EVAL_ASSETS::rest := by
    obtain ⟨rest,hrest⟩ := encodeAssetOpRet_head 0 (W.fillOf wal bid fillamount).remaining_units
      (W.setAssetOrigpubkey wal bid).1
      (.inr (.inl (.inr (.inr (.inr rfl)))) :
        HasNoData (chr 'B') ∨ IsOrder (chr 'B') ∨ IsExchange (chr 'B'))
    exact ⟨_,hrest⟩
  rw [hrest] at hbuilt
  have hpaid : (W.fillOf wal bid fillamount).paidunits≤fillamount :=
    bidFillamounts_paidunits _ _ _ hlow
  generalize (W.tokenInputsFor wal assetid (fillVins vin bidtxid) fillamount).totalinputs=
    selected at *
  unfold Conserves
  rw [hbuilt.balances_iff hwal site hnull (by omega),hbuilt.hasCondition_fill hsep]
  by_cases hfill : fillamount=0
  · rw [if_neg (by simp [hfill])]
    constructor
    · rintro ⟨⟨hzero,-⟩,-⟩
      omega
    · rintro ⟨hgt,-⟩
      omega
  rw [if_pos hfill] at hbuilt ⊢
  rw [hbuilt.sum_fill hwal hsep (by omega)]
  have hzero : (0 : UInt8)≠EVAL_TOKENS := by decide
  by_cases hcounts : W.Counts (W.origPk wal bid) ∧
      (W.getNonfungibleData assetid).headD 0≠EVAL_TOKENS
  · rw [if_pos hcounts]
    by_cases hdata : (W.getNonfungibleData assetid).headD 0=0
    · rw [if_pos hdata]
      constructor
      · rintro ⟨⟨-,-,hfound⟩,-⟩
        exact ⟨by omega,.inr hcounts,fun _ => hdata,hfound⟩
      · rintro ⟨-,-,-,hfound⟩
        exact ⟨⟨rfl,by omega,hfound⟩,Iff.rfl⟩
    · rw [if_neg hdata]
      constructor
      · rintro ⟨⟨-,hequal,hfound⟩,-⟩
        exact ⟨by omega,.inr hcounts,fun hlt => by omega,hfound⟩
      · rintro ⟨-,-,hnot,hfound⟩
        have hge : ¬(W.fillOf wal bid fillamount).paidunits<selected := fun hlt =>
          hdata (hnot hlt)
        exact ⟨⟨rfl,by omega,hfound⟩,Iff.rfl⟩
  · rw [if_neg hcounts]
    constructor
    · rintro ⟨⟨-,hequal,hfound⟩,-⟩
      split_ifs at hequal with hdata
      · exact ⟨by omega,.inl (by omega),fun _ => hdata,hfound⟩
      · omega
    · rintro ⟨-,hnone,hnot,hfound⟩
      have hpaid' : (W.fillOf wal bid fillamount).paidunits=0 := by
        rcases hnone with hnone | hcon
        · exact hnone
        · exact absurd hcon hcounts
      have hdata := hnot (by omega)
      rw [if_pos hdata]
      exact ⟨⟨rfl,by omega,hfound⟩,Iff.rfl⟩

end Fill

/-- The builders conserve tokens exactly when there is something to send, it goes to a key
that counts, no change has a form that is not recognised, and the change of an ask is not left
unset. -/
theorem builders_conserve_iff (W : World) (wal : Wallet) (hwal : wal.Fits W) (site : Site) :
    (∀(txfee : Int) (tokenid : Uint256) (destpubkey : List UInt8) (total : Int)
      (vin : List CTxIn) (tx : CTransaction),
      W.Separated (W.CallKey wal (pubkey2pk destpubkey)) →
      wal.addNormalinputs (feeOf txfee) 3=some vin →
      W.tokenTransfer wal txfee tokenid destpubkey total=some tx →
      (W.Conserves site tokenid tx (W.tokenInputsFor wal tokenid vin total).totalinputs total 1 ↔
        0<total ∧ W.Counts (pubkey2pk destpubkey) ∧
          (site.AcceptsAll ∨ (W.getTransaction tokenid).isSome))) ∧
      (∀(txfee askamount : Int) (assetid : Uint256) (pricetotal : Int) (vin : List CTxIn)
        (tx : CTransaction),
        W.Separated (W.CallKey wal (W.unspendablePk EVAL_ASSETS)) →
        wal.addNormalinputs (2*feeOf txfee) 3=some vin →
        W.createSell wal txfee askamount assetid pricetotal=some tx →
        (W.Conserves site assetid tx (W.tokenInputsFor wal assetid vin askamount).totalinputs
            askamount 2 ↔
          0<askamount ∧ (W.getNonfungibleData assetid).headD 0≠EVAL_TOKENS ∧
            (askamount<(W.tokenInputsFor wal assetid vin askamount).totalinputs →
              (W.getNonfungibleData assetid).headD 0=0) ∧
            (askamount=(W.tokenInputsFor wal assetid vin askamount).totalinputs →
              wal.strayChange=0) ∧
            (site.AcceptsAll ∨ (W.getTransaction assetid).isSome))) ∧
      ∀(txfee : Int) (assetid bidtxid : Uint256) (fillamount : Int) (vin : List CTxIn)
        (bid : CTransaction) (b : Uint256) (tx : CTransaction),
        wal.addNormalinputs (2*feeOf txfee) 3=some vin →
        W.getTransaction bidtxid=some (bid,b) → W.PaysAssets bid →
        W.Separated (W.CallKey wal (W.origPk wal bid)) →
        W.fillBuyOffer wal txfee assetid bidtxid fillamount=some tx →
        (W.Conserves site assetid tx
            (W.tokenInputsFor wal assetid (fillVins vin bidtxid) fillamount).totalinputs
            (W.fillOf wal bid fillamount).paidunits 4 ↔
          0<fillamount ∧
            ((W.fillOf wal bid fillamount).paidunits=0 ∨
              (W.Counts (W.origPk wal bid) ∧
                (W.getNonfungibleData assetid).headD 0≠EVAL_TOKENS)) ∧
            ((W.fillOf wal bid fillamount).paidunits<
              (W.tokenInputsFor wal assetid (fillVins vin bidtxid) fillamount).totalinputs →
              (W.getNonfungibleData assetid).headD 0=0) ∧
            (site.AcceptsAll ∨ (W.getTransaction assetid).isSome)) := by
  refine ⟨?_,?_,?_⟩
  · intro txfee tokenid destpubkey total vin tx hsep hnormal h
    exact tokenTransfer_conserves_iff hwal hsep site hnormal h
  · intro txfee askamount assetid pricetotal vin tx hsep hnormal h
    exact createSell_conserves_iff hwal hsep site hnormal h
  · intro txfee assetid bidtxid fillamount vin bid b tx hnormal hget hbid hsep h
    exact fillBuyOffer_conserves_iff hwal hnormal hget hbid hsep site h

section Example

/-- The first two bytes of each key. -/
def keyLabels (keys : List CPubKey) : List UInt8 := keys.flatMap fun k => k.take 2

/-- Codes and keys of a condition, with the number of codes in front. -/
def condBytes (cond : CC) : List UInt8 :=
  UInt8.ofNat cond.codes.length::(cond.codes.flatten++keyLabels cond.publicKeys)

/-- The condition that such bytes show. -/
def condOf : List UInt8 → Option CC
  | n::bytes => some (.threshold 2 ((bytes.take n.toNat).map (fun c => .eval [c])++
      [sigCond [bytes.drop n.toNat++List.replicate 31 0]]))
  | [] => none

/-- The script that shows a condition. -/
def condSigOf (cond : CC) : List UInt8 := pushData (condBytes cond++[1])

/-- The keys of the contracts start with 3, those of wallets with 2. -/
def contractKey (b : UInt8) : CPubKey := 3::b::List.replicate 31 0

def condScript (cond : CC) : List UInt8 := pushData (condBytes cond)++[0xcc]

/-- A bid of key 8 for 20 of the tokens 9. -/
def tradeBid : CTransaction :=
  plainTx 5 [⟨⟨1,0⟩,[]⟩]
    [⟨200,condScript (makeCCcond1 EVAL_ASSETS (contractKey EVAL_ASSETS))⟩,
      ⟨0,encodeTokenOpRet 9 [keyOf 8]
        [(OPRETID_ASSETSDATA,encodeAssetOpRet (chr 'b') 0 20 (keyOf 8))]⟩]

/-- Coins of key 7, its token 9 and the bid for it. -/
def tradeTxs : List CTransaction :=
  [plainTx 1 [⟨⟨0,0xFFFFFFFF⟩,[]⟩] [⟨50000,pushData (keyOf 7)++[0xac]⟩],
    plainTx 9 [⟨⟨1,0⟩,[]⟩]
      [⟨100,condScript (makeCCcond1 EVAL_TOKENS (keyOf 7))⟩,⟨0,createScriptBy (keyOf 7) 0x61⟩],
    tradeBid]

def tradeWorld : World where
  getTransaction := indexOf tradeTxs
  readFulfillment := condOf
  ccPubKey := condScript
  unspendablePk := contractKey
  unspendableCCaddr e := textOf (condScript (makeCCcond1 e (contractKey e)))
  getScriptAddress script := some (textOf script)
  solves script pk := script==pushData pk++[0xac]
  burnPk := keyOf 0xde
  strayPk := keyOf 0
  strayOut := ⟨0,[]⟩

/-- The wallet of key 7; it signs what can be shown. -/
def tradeWallet (strayChange : Int) : Wallet where
  mypubkey := keyOf 7
  addNormalinputs _ _ := some [⟨⟨1,0⟩,[]⟩]
  setCCunspents addr :=
    if addr=textOf (condScript (makeCCcond1 EVAL_TOKENS (keyOf 7))) then [⟨9,0,100⟩] else []
  spentInMempool _ _ := false
  signTx _ _ := []
  ccSig _ _ cond :=
    if ((tradeWorld.getCryptoCondition (condSigOf cond)).any fun c =>
      c.codes==cond.codes && c.publicKeys==cond.publicKeys) then some (condSigOf cond) else none
  template := plainTx 0 [] []
  getHash _ := 77
  strayAddr := ""
  strayChange := strayChange
  strayPrice := 0

/-- The keys of the example: two bytes and nothing else. -/
def Labelled (k : CPubKey) : Prop := ∃h b,k=h::b::List.replicate 31 0

theorem keyLabels_injective {ks ks' : List CPubKey} (hks : ∀k∈ks,Labelled k)
    (hks' : ∀k∈ks',Labelled k) (h : keyLabels ks=keyLabels ks') : ks=ks' := by
  induction ks generalizing ks' with
  | nil =>
    cases ks' with
    | nil => rfl
    | cons k' ks' =>
      obtain ⟨a,b,rfl⟩ := hks' k' (List.mem_cons_self ..)
      cases h
  | cons k ks ih =>
    obtain ⟨a,b,rfl⟩ := hks k (List.mem_cons_self ..)
    cases ks' with
    | nil => cases h
    | cons k' ks' =>
      obtain ⟨a',b',rfl⟩ := hks' k' (List.mem_cons_self ..)
      obtain ⟨rfl,htail⟩ := List.cons.inj h
      obtain ⟨rfl,hrest⟩ := List.cons.inj htail
      rw [ih (fun k hk => hks k (List.mem_cons_of_mem _ hk))
        (fun k hk => hks' k (List.mem_cons_of_mem _ hk)) hrest]

theorem length_keyLabels {ks : List CPubKey} (hks : ∀k∈ks,Labelled k) :
    (keyLabels ks).length=2*ks.length := by
  induction ks with
  | nil => rfl
  | cons k ks ih =>
    obtain ⟨a,b,rfl⟩ := hks k (List.mem_cons_self ..)
    have hcons : keyLabels ((a::b::List.replicate 31 0)::ks)=a::b::keyLabels ks := rfl
    rw [hcons,List.length_cons,List.length_cons,List.length_cons,
      ih fun k hk => hks k (List.mem_cons_of_mem _ hk)]
    omega

variable {keys : CPubKey → Prop}

/-- The codes of a token condition are single bytes. -/
theorem tokenCond_parts (hkeys : ∀k,keys k → Labelled k) {c : CC} (hc : TokenCond keys c) :
    ∃bs : List UInt8,bs.length≤3 ∧ c.codes=bs.map (fun b => [b]) ∧
      c.publicKeys.length≤2 ∧ ∀k∈c.publicKeys,Labelled k := by
  rcases hc with ⟨e,pk,hpk,rfl⟩ | ⟨e1,e2,pks,hlen,hpks,rfl⟩
  · refine ⟨[e],by simp,rfl,by rw [publicKeys_makeCCcond1]; simp,?_⟩
    rw [publicKeys_makeCCcond1]
    intro k hk
    rw [List.mem_singleton.mp hk]
    exact hkeys pk hpk
  · rw [publicKeys_makeTokensCond,codes_makeTokensCond]
    have hlabels : ∀k∈pks,Labelled k := fun k hk => hkeys k (hpks k hk)
    by_cases h1 : e1=EVAL_TOKENS
    · by_cases h2 : e2=0
      · exact ⟨[e1],by simp,by simp [tokenCodes,h1,h2],hlen,hlabels⟩
      · exact ⟨[e1,e2],by simp,by simp [tokenCodes,h1,h2],hlen,hlabels⟩
    · by_cases h2 : e2=0
      · exact ⟨[e1,EVAL_TOKENS],by simp,by simp [tokenCodes,h1,h2],hlen,hlabels⟩
      · exact ⟨[e1,EVAL_TOKENS,e2],by simp,by simp [tokenCodes,h1,h2],hlen,hlabels⟩

theorem flatten_singletons (bs : List UInt8) : (bs.map fun b => [b]).flatten=bs := by
  induction bs with
  | nil => rfl
  | cons b bs ih => rw [List.map_cons,List.flatten_cons,ih,List.singleton_append]

theorem condBytes_short (hkeys : ∀k,keys k → Labelled k) {c : CC} (hc : TokenCond keys c) :
    (condBytes c).length<OP_PUSHDATA1 := by
  obtain ⟨bs,hbs,hcodes,hfew,hlabels⟩ := tokenCond_parts hkeys hc
  rw [condBytes,hcodes,flatten_singletons,List.length_cons,List.length_append,
    length_keyLabels hlabels]
  unfold OP_PUSHDATA1
  omega

theorem condBytes_injective (hkeys : ∀k,keys k → Labelled k) {c c' : CC}
    (hc : TokenCond keys c) (hc' : TokenCond keys c') (h : condBytes c=condBytes c') :
    c.codes=c'.codes ∧ c.publicKeys=c'.publicKeys := by
  obtain ⟨bs,hbs,hcodes,-,hlabels⟩ := tokenCond_parts hkeys hc
  obtain ⟨bs',hbs',hcodes',-,hlabels'⟩ := tokenCond_parts hkeys hc'
  unfold condBytes at h
  rw [hcodes,hcodes',flatten_singletons,flatten_singletons,List.length_map,List.length_map] at h
  obtain ⟨hlen,hrest⟩ := List.cons.inj h
  have hsame : bs.length=bs'.length := by
    have hnat := congrArg UInt8.toNat hlen
    rw [UInt8.toNat_ofNat',UInt8.toNat_ofNat'] at hnat
    omega
  obtain ⟨rfl,hkeyLabels⟩ := List.append_inj hrest hsame
  exact ⟨hcodes.trans hcodes'.symm,keyLabels_injective hlabels hlabels' hkeyLabels⟩

/-- Scripts of the example tell conditions apart. -/
theorem tradeWorld_separated (hkeys : ∀k,keys k → Labelled k) : tradeWorld.Separated keys := by
  constructor
  · intro c hc
    have hlast : getOp [(0xcc : UInt8)]=some (0xcc,[],[]) := by decide
    have hpos : 0<(condBytes c).length := Nat.succ_pos _
    have hshort := condBytes_short hkeys hc
    change isPayToCryptoCondition (pushData (condBytes c)++[0xcc])=true
    unfold isPayToCryptoCondition
    rw [getOp_shortPush hshort]
    dsimp only
    rw [if_pos ⟨hpos,hshort⟩,hlast]
    rfl
  · intro c c' hc hc' haddr
    have hscript : condScript c=condScript c' := textOf_injective haddr
    have hpush := List.append_cancel_right hscript
    rw [pushData,pushData,if_pos (condBytes_short hkeys hc),
      if_pos (condBytes_short hkeys hc')] at hpush
    have hbytes := (List.append_inj hpush (by
      rw [length_lengthBytes,length_lengthBytes])).2
    obtain ⟨hcodes,hpublic⟩ := condBytes_injective hkeys hc hc' hbytes
    rw [hcodes,hpublic]
    exact ⟨List.Perm.refl _,List.Perm.refl _⟩

theorem tradeWallet_fits (strayChange : Int) : (tradeWallet strayChange).Fits tradeWorld where
  key := (by decide : keyOf 7≠[])
  own e h := absurd (List.cons.inj h).1 (by decide)
  assetsKey c hc := by
    obtain rfl := Option.some.inj hc
    rfl
  assetsOwn := by decide
  normal amount maxinputs vins hvins vin hvin := by
    obtain rfl := Option.some.inj hvins
    obtain rfl := List.mem_singleton.mp hvin
    decide +kernel
  indexed addr u hu := by
    change u∈(if addr=_ then _ else _) at hu
    split_ifs at hu with haddr
    · obtain rfl := List.mem_singleton.mp hu
      exact ⟨⟨100,condScript (makeCCcond1 EVAL_TOKENS (keyOf 7))⟩,rfl,by rw [haddr]; rfl,rfl⟩
    · cases hu
  normalSig tx n := rfl
  condSig tx n cond scriptSig hsig := by
    change (if _ then some _ else none)=_ at hsig
    split_ifs at hsig with hany
    obtain rfl := Option.some.inj hsig
    cases hread : tradeWorld.getCryptoCondition (condSigOf cond) with
    | none =>
      rw [hread] at hany
      cases hany
    | some cond' =>
      rw [hread,Option.any_some,Bool.and_eq_true,beq_iff_eq,beq_iff_eq] at hany
      refine ⟨cond',rfl,?_,?_⟩
      · rw [hany.1]
      · intro pk hpk
        rw [hany.2,hpk]
  small txid tx b hget := by
    have hkey : (tradeWorld.setAssetOrigpubkey (tradeWallet strayChange) tx).1=
        (tradeWorld.setAssetOrigpubkey (tradeWallet 0) tx).1 := by
      unfold setAssetOrigpubkey
      cases decodeAssetTokenOpRet tradeWorld.strayPk (lastScript tx) <;> rfl
    have hsmall : ∀t∈tradeTxs,
        (tradeWorld.setAssetOrigpubkey (tradeWallet 0) t).1.length≤2^24 := by
      decide +kernel
    rw [hkey]
    exact hsmall tx (indexOf_some hget).1

/-- The coins that the wallet adds. -/
def tradeVin : List CTxIn := [⟨⟨1,0⟩,[]⟩]

theorem labelled_callKey {strayChange : Int} {pk : CPubKey} (hpk : Labelled pk) :
    ∀k,tradeWorld.CallKey (tradeWallet strayChange) pk k → Labelled k := by
  rintro k (rfl | rfl | rfl | ⟨e,rfl⟩)
  · exact ⟨2,7,rfl⟩
  · exact hpk
  · exact ⟨2,0,rfl⟩
  · exact ⟨3,e,rfl⟩

/-- Sixty tokens are sent, a hundred are put on offer, and ten are paid for a bid. -/
theorem trades_conserve :
    (∃tx,tradeWorld.tokenTransfer (tradeWallet 0) 0 9 (keyOf 8) 60=some tx ∧
      tradeWorld.Conserves (Site.named "ZDX") 9 tx 100 60 1) ∧
    (∃tx,tradeWorld.createSell (tradeWallet 0) 0 100 9 5=some tx ∧
      tradeWorld.Conserves (Site.named "ZDX") 9 tx 100 100 2) ∧
    ∃tx,tradeWorld.fillBuyOffer (tradeWallet 0) 0 9 5 10=some tx ∧
      tradeWorld.Conserves (Site.named "ZDX") 9 tx 100 10 4 := by
  have hmain := builders_conserve_iff tradeWorld (tradeWallet 0) (tradeWallet_fits 0)
    (Site.named "ZDX")
  have hkeys : ∀{pk : CPubKey},Labelled pk →
      tradeWorld.Separated (tradeWorld.CallKey (tradeWallet 0) pk) := fun hpk =>
    tradeWorld_separated (labelled_callKey hpk)
  refine ⟨?_,?_,?_⟩
  · obtain ⟨tx,htx⟩ := Option.isSome_iff_exists.mp
      (by decide +kernel :
        (tradeWorld.tokenTransfer (tradeWallet 0) 0 9 (keyOf 8) 60).isSome=true)
    have hselected : (tradeWorld.tokenInputsFor (tradeWallet 0) 9 tradeVin 60).totalinputs=100 := by
      decide +kernel
    have hiff := hmain.1 0 9 (keyOf 8) 60 tradeVin tx (hkeys ⟨2,8,rfl⟩) rfl htx
    rw [hselected] at hiff
    exact ⟨tx,htx,hiff.mpr ⟨by decide,by decide,.inr (by decide +kernel)⟩⟩
  · obtain ⟨tx,htx⟩ := Option.isSome_iff_exists.mp
      (by decide +kernel : (tradeWorld.createSell (tradeWallet 0) 0 100 9 5).isSome=true)
    have hselected :
        (tradeWorld.tokenInputsFor (tradeWallet 0) 9 tradeVin 100).totalinputs=100 := by
      decide +kernel
    have hiff := hmain.2.1 0 100 9 5 tradeVin tx (hkeys ⟨3,EVAL_ASSETS,rfl⟩) rfl htx
    rw [hselected] at hiff
    exact ⟨tx,htx,hiff.mpr ⟨by decide,by decide +kernel,fun hlt => absurd hlt (by decide),
      fun _ => rfl,.inr (by decide +kernel)⟩⟩
  · obtain ⟨tx,htx⟩ := Option.isSome_iff_exists.mp
      (by decide +kernel : (tradeWorld.fillBuyOffer (tradeWallet 0) 0 9 5 10).isSome=true)
    have hselected : (tradeWorld.tokenInputsFor (tradeWallet 0) 9 (fillVins tradeVin 5)
        10).totalinputs=100 := by
      decide +kernel
    have hpaid : (tradeWorld.fillOf (tradeWallet 0) tradeBid 10).paidunits=10 := by
      decide +kernel
    have horig : tradeWorld.origPk (tradeWallet 0) tradeBid=keyOf 8 := by decide +kernel
    have hiff := hmain.2.2 0 9 5 10 tradeVin tradeBid 0 tx rfl rfl (by unfold PaysAssets; rfl)
      (hkeys (by rw [horig]; exact ⟨2,8,rfl⟩)) htx
    rw [hselected,hpaid,horig] at hiff
    exact ⟨tx,htx,hiff.mpr ⟨by decide,.inr ⟨by decide,by decide +kernel⟩,
      fun _ => by decide +kernel,.inr (by decide +kernel)⟩⟩

/-- Without change, what lay in memory is written as change. -/
theorem unset_change_breaks :
    ∃tx,tradeWorld.createSell (tradeWallet 1) 0 100 9 5=some tx ∧
      ¬tradeWorld.Conserves (Site.named "ZDX") 9 tx
        (tradeWorld.tokenInputsFor (tradeWallet 1) 9 tradeVin 100).totalinputs 100 2 := by
  obtain ⟨tx,htx⟩ := Option.isSome_iff_exists.mp
    (by decide +kernel : (tradeWorld.createSell (tradeWallet 1) 0 100 9 5).isSome=true)
  have hwritten : (tradeWorld.createSell (tradeWallet 1) 0 100 9 5).any (fun tx =>
      tx.vout[2]?.any fun out => isPayToCryptoCondition out.scriptPubKey)=true := by
    decide +kernel
  have hselected : (tradeWorld.tokenInputsFor (tradeWallet 1) 9 tradeVin 100).totalinputs=100 := by
    decide +kernel
  refine ⟨tx,htx,?_⟩
  rintro ⟨-,hchange⟩
  rw [hselected] at hchange
  rw [htx,Option.any_some] at hwritten
  have hhas : HasCondition tx 2 := by
    cases hout : tx.vout[2]? with
    | none =>
      rw [hout] at hwritten
      cases hwritten
    | some out =>
      rw [hout,Option.any_some] at hwritten
      exact ⟨out,hout,hwritten⟩
  exact absurd (hchange.mp hhas) (by decide)

end Example

end World

end Zdeex.Cc
