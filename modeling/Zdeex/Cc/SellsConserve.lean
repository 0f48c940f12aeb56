import Zdeex.Cc.BuiltTransactions

namespace Zdeex.Cc

open Zdeex.Framework
open Zdeex.Coins
open Zdeex.Block
open Zdeex.Crosschain

namespace World

variable {W : World} {wal : Wallet}

section Transfer

variable {txfee : Int} {tokenid : Uint256} {total : Int} {destpubkey : List UInt8}
  {vin : List CTxIn} {tx : CTransaction}

theorem tokenid_ne_zero {sel : List Unspent} (hsel : ∀u∈sel,W.HoldsTokens tokenid u)
    (hpos : 0<amountOf sel) : tokenid≠0 := by
  cases sel with
  | nil => exact absurd hpos (lt_irrefl 0)
  | cons u sel =>
    obtain ⟨vintx,b,-,hamount⟩ := hsel u (List.mem_cons_self ..)
    exact (tokenAmount_pos hamount).1

/-- Change is set exactly when it is not zero. -/
theorem change_eq (amount selected : Int) (out : Int → CTxOut) :
    (if (if amount<selected then selected-amount else 0)≠0 then
        [out (if amount<selected then selected-amount else 0)] else [])=
      if amount<selected then [out (selected-amount)] else [] := by
  by_cases h : amount<selected
  · rw [if_pos h,if_pos h,if_pos (by omega)]
  · rw [if_neg h,if_neg h,if_neg (by simp)]

/-- What `TokenTransfer` builds. -/
theorem tokenTransfer_built (hwal : wal.Fits W)
    (hnormal : wal.addNormalinputs (feeOf txfee) 3=some vin)
    (h : W.tokenTransfer wal txfee tokenid destpubkey total=some tx) :
    0≤total ∧ total≤(W.tokenInputsFor wal tokenid vin total).totalinputs ∧
      0<(W.tokenInputsFor wal tokenid vin total).totalinputs ∧ tokenid≠0 ∧
      W.Built wal tokenid (pubkey2pk destpubkey) []
        (W.makeTokensCC1vout ((W.getNonfungibleData tokenid).headD EVAL_TOKENS) 0 total
            (pubkey2pk destpubkey)::
          (if total<(W.tokenInputsFor wal tokenid vin total).totalinputs then
            [W.makeTokensCC1vout ((W.getNonfungibleData tokenid).headD EVAL_TOKENS) 0
              ((W.tokenInputsFor wal tokenid vin total).totalinputs-total) wal.mypk]
          else [])) tx
        (if total≠0 then (W.tokenInputsFor wal tokenid vin total).totalinputs else 0) := by
  obtain ⟨hcp,hdata⟩ := tokenInputsFor_cp W wal tokenid vin total
  obtain ⟨sel,hsel,hvin,hinputs⟩ := tokenInputsFor_selects W wal tokenid vin total
  unfold tokenTransfer at h
  rw [hnormal] at h
  by_cases hneg : total<0
  · rw [if_pos hneg] at h
    cases h
  rw [if_neg hneg,Option.bind_some] at h
  dsimp only at h
  by_cases hnone : (W.tokenInputsFor wal tokenid vin total).totalinputs≤0
  · rw [if_pos hnone] at h
    cases h
  rw [if_neg hnone] at h
  by_cases hfew : (W.tokenInputsFor wal tokenid vin total).totalinputs<total
  · rw [if_pos hfew] at h
    cases h
  rw [if_neg hfew,change_eq _ _ fun n => W.makeTokensCC1vout _ 0 n wal.mypk,hdata,hvin,hcp] at h
  have hidle : ∀v∈vin,∀s,W.Signed wal ⟨EVAL_TOKENS,(W.getNonfungibleData tokenid).headD 0,0,[],""⟩
      v s → W.ismyvin EVAL_TOKENS s.scriptSig=false := fun v hv s hs =>
    hs.idle_of_normal (hwal.normal _ _ _ hnormal v hv).2
  have hdecode := @decode_emptyData tokenid _ (isPubKey_pubkey2pk destpubkey) W.strayPk
  have hbuilt := built_of_finalize hwal rfl rfl hidle hsel hdecode h
  rw [← hinputs] at hbuilt
  refine ⟨by omega,by omega,by omega,?_,hbuilt⟩
  exact tokenid_ne_zero (fun u hu => (hsel u hu).2) (by omega)

/-- A transfer conserves tokens exactly when there is something to transfer and the key it
goes to is one that counts. -/
theorem tokenTransfer_conserves_iff (hwal : wal.Fits W)
    (hsep : W.Separated (W.CallKey wal (pubkey2pk destpubkey))) (site : Site)
    (hnormal : wal.addNormalinputs (feeOf txfee) 3=some vin)
    (h : W.tokenTransfer wal txfee tokenid destpubkey total=some tx) :
    W.Conserves site tokenid tx (W.tokenInputsFor wal tokenid vin total).totalinputs total 1 ↔
      0<total ∧ W.Counts (pubkey2pk destpubkey) ∧
        (site.AcceptsAll ∨ (W.getTransaction tokenid).isSome) := by
  obtain ⟨hlow,hhigh,hpos,hnull,hbuilt⟩ := tokenTransfer_built hwal hnormal h
  generalize (W.tokenInputsFor wal tokenid vin total).totalinputs=selected at *
  have hchange : HasCondition tx 1 ↔ total<selected := by
    rw [hbuilt.hasCondition_iff]
    split_ifs with hlt
    · simp [hlt,hsep.payTo _ (tokenCond_tokens (.inl rfl)),makeTokensCC1vout]
    · simp [hlt]
  unfold Conserves
  rw [hbuilt.balances_iff hwal site hnull (by omega),hchange]
  by_cases htotal : total=0
  · rw [if_neg (by simp [htotal])]
    constructor
    · rintro ⟨⟨hzero,-⟩,-⟩
      omega
    · rintro ⟨hgt,-⟩
      omega
  rw [if_pos htotal] at hbuilt ⊢
  have hcodes : tokenEvalCodes (W.getNonfungibleData tokenid) (filterOutNonCCOprets [])=
      ((W.getNonfungibleData tokenid).headD EVAL_TOKENS,0) := by
    unfold tokenEvalCodes
    rw [if_neg (fun h => h.2 rfl)]
    rfl
  have hrest : total<selected →
      W.transferValue tx (transferOpRet tokenid (pubkey2pk destpubkey) []) tokenid
        (W.makeTokensCC1vout ((W.getNonfungibleData tokenid).headD EVAL_TOKENS) 0 (selected-total)
          wal.mypk)=selected-total := by
    intro hlt
    apply Built.value_seen hsep (tokenCond_tokens (.inl rfl))
    apply hbuilt.mem_testVouts_change hwal (by omega)
    rw [hcodes]
    exact List.mem_append_right _ (List.mem_cons_self ..)
  have hdest : W.transferValue tx (transferOpRet tokenid (pubkey2pk destpubkey) []) tokenid
      (W.makeTokensCC1vout ((W.getNonfungibleData tokenid).headD EVAL_TOKENS) 0 total
        (pubkey2pk destpubkey))=total ↔ W.Counts (pubkey2pk destpubkey) := by
    constructor
    · intro hvalue
      by_contra hcounts
      have hzero := hbuilt.value_unseen (n := total) hwal hsep
        (tokenCond_tokens (e := (W.getNonfungibleData tokenid).headD EVAL_TOKENS) (f := 0)
          (.inr (.inl rfl))) (publicKeys_makeTokensCond _ _ _) ?_
      · exact htotal (hvalue.symm.trans hzero)
      · rintro codes - - ⟨hvout | hvin,-⟩
        · exact hcounts (mem_voutPubkeys.mp hvout).2
        · have hmine := (hbuilt.inputs.vinPubkeys hwal rfl).1 _ hvin
          apply hcounts
          rw [hmine]
          exact ⟨hwal.key,hwal.own EVAL_TOKENS⟩
    · intro hcounts
      apply Built.value_seen hsep (tokenCond_tokens (.inr (.inl rfl)))
      apply mem_testVouts_opret hcounts
      rw [hcodes]
      exact .inl (List.mem_cons_self ..)
  have hsum : (List.map (W.transferValue tx (transferOpRet tokenid (pubkey2pk destpubkey) [])
        tokenid) (W.makeTokensCC1vout ((W.getNonfungibleData tokenid).headD EVAL_TOKENS) 0 total
        (pubkey2pk destpubkey)::(if total<selected then
          [W.makeTokensCC1vout ((W.getNonfungibleData tokenid).headD EVAL_TOKENS) 0
            (selected-total) wal.mypk] else []))).sum=selected ↔
      W.Counts (pubkey2pk destpubkey) := by
    rw [← hdest,List.map_cons,List.sum_cons]
    split_ifs with hlt
    · rw [List.map_singleton,List.sum_singleton,hrest hlt]
      omega
    · rw [List.map_nil,List.sum_nil]
      omega
  rw [hsum]
  constructor
  · rintro ⟨⟨-,hcounts,hfound⟩,-⟩
    exact ⟨by omega,hcounts,hfound⟩
  · rintro ⟨-,hcounts,hfound⟩
    exact ⟨⟨rfl,hcounts,hfound⟩,Iff.rfl⟩

end Transfer

section AssetCodes

variable {ecN c : UInt8} {vouts vins : List CPubKey} {pk : CPubKey}
  {codes : List (List UInt8)}

/-- The codes that are tried when the assets contract stands in the op_return. -/
def assetCodes (ntf : List UInt8) : UInt8 × UInt8 :=
  if ntf.headD EVAL_TOKENS=EVAL_TOKENS then (EVAL_ASSETS,0)
  else (ntf.headD EVAL_TOKENS,EVAL_ASSETS)

theorem tokenEvalCodes_assets (ntf rest : List UInt8) :
    tokenEvalCodes ntf (filterOutNonCCOprets [(OPRETID_ASSETSDATA,EVAL_ASSETS::rest)])=
      assetCodes ntf := by
  have hextra : filterOutNonCCOprets [(OPRETID_ASSETSDATA,EVAL_ASSETS::rest)]=
      EVAL_ASSETS::rest := rfl
  rw [hextra]
  unfold tokenEvalCodes assetCodes
  dsimp only
  rw [List.headD_cons]
  by_cases h : ntf.headD EVAL_TOKENS=EVAL_TOKENS
  · rw [if_pos ⟨h,by decide⟩,if_pos h]
  · rw [if_neg fun hc => h hc.1,if_neg h]

theorem assetCodes_fungible {ntf : List UInt8} (h : ntf.headD 0=0) :
    assetCodes ntf=(EVAL_ASSETS,0) ∨ assetCodes ntf=(0,EVAL_ASSETS) := by
  cases ntf with
  | nil => exact .inl rfl
  | cons c cs =>
    obtain rfl : c=0 := h
    exact .inr rfl

theorem assetCodes_nonfungible {ntf : List UInt8} (h : ntf.headD 0≠0) :
    (ntf.headD 0=EVAL_TOKENS ∧ assetCodes ntf=(EVAL_ASSETS,0)) ∨
      (ntf.headD 0≠EVAL_TOKENS ∧ assetCodes ntf=(ntf.headD 0,EVAL_ASSETS)) := by
  cases ntf with
  | nil => exact absurd rfl h
  | cons c cs =>
    unfold assetCodes
    rw [List.headD_cons,List.headD_cons]
    by_cases hc : c=EVAL_TOKENS
    · exact .inl ⟨hc,if_pos hc⟩
    · exact .inr ⟨hc,if_neg hc⟩

theorem length_tokenCodes (e f : UInt8) :
    (tokenCodes e f).length=1+((if e≠EVAL_TOKENS then 1 else 0)+(if f≠0 then 1 else 0)) := by
  unfold tokenCodes
  split_ifs <;> rfl

theorem length_tokenCodes_zero (e : UInt8) :
    (tokenCodes e 0).length=1+(if e≠EVAL_TOKENS then 1 else 0) := by
  have hnone : (if (0 : UInt8)≠0 then 1 else 0)=0 := rfl
  rw [length_tokenCodes,hnone,add_zero]

/-- Two codes belong to what is recognised with the assets contract alone. -/
theorem Recognised.length_two (hecN : ecN≠0)
    (h : Recognised ecN EVAL_ASSETS 0 vouts vins pk codes) : codes.length=2 := by
  have hlen : (tokenCodes EVAL_ASSETS 0).length=2 := by decide
  obtain ⟨-,⟨hzero,-⟩ | rfl | ⟨he2,-⟩ | ⟨-,⟨-,rfl⟩ | ⟨he2,-⟩⟩⟩ := h
  · exact absurd hzero hecN
  · exact hlen
  · exact absurd rfl he2
  · exact hlen
  · exact absurd rfl he2

/-- With a code of the token's own there are three codes, or two for a key of the
op_return. -/
theorem Recognised.length_three (hecN : ecN≠0) (hzero : c≠0) (hc : c≠EVAL_TOKENS)
    (h : Recognised ecN c EVAL_ASSETS vouts vins pk codes) :
    codes.length=3 ∨ (codes.length=2 ∧ pk∈vouts) := by
  have hassets : EVAL_ASSETS≠EVAL_TOKENS := by decide
  have hassets' : EVAL_ASSETS≠0 := by decide
  obtain ⟨-,⟨hnone,-⟩ | rfl | ⟨-,rfl⟩ | ⟨hpk,⟨-,rfl⟩ | ⟨-,rfl⟩⟩⟩ := h
  · exact absurd hnone hecN
  · rw [length_tokenCodes,if_pos hc,if_pos hassets']
    exact .inl rfl
  · rw [length_tokenCodes,if_pos hassets,if_pos hzero]
    exact .inl rfl
  · rw [length_tokenCodes_zero,if_pos hc]
    exact .inr ⟨rfl,hpk⟩
  · rw [length_tokenCodes_zero,if_pos hassets]
    exact .inr ⟨rfl,hpk⟩

/-- With data of its own a token has no outputs with the code of tokens alone. -/
theorem not_recognised_single {ntf : List UInt8} (hne : ntf.headD 0≠0) (hlen : codes.length=1) :
    ¬Recognised (ntf.headD 0) (assetCodes ntf).1 (assetCodes ntf).2 vouts vins pk codes := by
  intro h
  rcases assetCodes_nonfungible hne with ⟨-,heq⟩ | ⟨hc,heq⟩
  · rw [heq] at h
    have htwo := h.length_two hne
    omega
  · rw [heq] at h
    have hthree := h.length_three hne hne hc
    omega

end AssetCodes

section AssetBuilders

variable {tokenid : Uint256} {pk : CPubKey} {rest : List UInt8} {vout : List CTxOut}
  {tx : CTransaction} {amount n : Int}

/-- Outputs of the assets contract do not count. -/
theorem Built.value_assets {oprets : Oprets} {k : CPubKey}
    (h : W.Built wal tokenid pk oprets vout tx amount) (hwal : wal.Fits W)
    (hsep : W.Separated (W.CallKey wal pk)) (hk : W.CallKey wal pk k) :
    W.transferValue tx (transferOpRet tokenid pk oprets) tokenid (W.makeCC1vout EVAL_ASSETS n k)=
      0 := by
  apply h.value_unseen hwal hsep (tokenCond_plain hk) (publicKeys_makeCCcond1 _ _)
  intro codes hperm heval
  rw [codes_makeCCcond1] at hperm
  have hsame := List.mem_singleton.mp (hperm.subset heval)
  exact absurd hsame (by decide)

theorem value_normal {oprets : Oprets} (n : Int) :
    W.transferValue tx (transferOpRet tokenid pk oprets) tokenid ⟨n,pushData wal.mypk++[0xac]⟩=
      0 := by
  have hnot := isPayToCryptoCondition_key (length_mypk_le wal)
  rw [transferValue,if_neg]
  rintro ⟨hcc,-⟩
  rw [hnot] at hcc
  cases hcc

/-- Fungible change counts. -/
theorem Built.value_change
    (h : W.Built wal tokenid pk [(OPRETID_ASSETSDATA,EVAL_ASSETS::rest)] vout tx amount)
    (hwal : wal.Fits W) (hsep : W.Separated (W.CallKey wal pk)) (hne : amount≠0)
    (hdata : (W.getNonfungibleData tokenid).headD 0=0) :
    W.transferValue tx (transferOpRet tokenid pk [(OPRETID_ASSETSDATA,EVAL_ASSETS::rest)]) tokenid
      (W.makeCC1vout EVAL_TOKENS n wal.mypk)=n := by
  apply Built.value_seen hsep (tokenCond_plain (.inl rfl))
  apply h.mem_testVouts_change hwal hne
  rw [hdata]
  exact List.mem_append_left _ (mem_voutIf.mpr ⟨rfl,rfl⟩)

/-- Outputs with the code of tokens alone do not count for tokens with data. -/
theorem Built.value_single {k : CPubKey}
    (h : W.Built wal tokenid pk [(OPRETID_ASSETSDATA,EVAL_ASSETS::rest)] vout tx amount)
    (hwal : wal.Fits W) (hsep : W.Separated (W.CallKey wal pk)) (hk : W.CallKey wal pk k)
    (hdata : (W.getNonfungibleData tokenid).headD 0≠0) :
    W.transferValue tx (transferOpRet tokenid pk [(OPRETID_ASSETSDATA,EVAL_ASSETS::rest)]) tokenid
      (W.makeCC1vout EVAL_TOKENS n k)=0 := by
  apply h.value_unseen hwal hsep (tokenCond_plain hk) (publicKeys_makeCCcond1 _ _)
  intro codes hperm _
  rw [tokenEvalCodes_assets]
  exact not_recognised_single hdata hperm.length_eq

end AssetBuilders

section Sell

variable {txfee : Int} {assetid : Uint256} {askamount pricetotal : Int} {vin : List CTxIn}
  {tx : CTransaction}

/-- The change that `CreateSell` sets; without change it is what was there. -/
def sellChange (wal : Wallet) (askamount selected : Int) : Int :=
  if askamount<selected then selected-askamount else wal.strayChange

/-- The payload of an ask. -/
def askData (wal : Wallet) (pricetotal : Int) : List UInt8 :=
  encodeAssetOpRet (chr 's') 0 pricetotal wal.mypubkey

/-- The token outputs of an ask. -/
def sellVouts (W : World) (wal : Wallet) (txfee askamount CCchange : Int) (e2 : UInt8) :
    List CTxOut :=
  [W.makeTokensCC1vout EVAL_ASSETS e2 askamount (W.unspendablePk EVAL_ASSETS),
    W.makeCC1vout EVAL_ASSETS (feeOf txfee) wal.mypk]++
  (if CCchange≠0 then
    [W.makeTokensCC1vout (if e2≠0 then e2 else EVAL_TOKENS) 0 CCchange wal.mypk] else [])

theorem length_mypubkey (hwal : wal.Fits W) : wal.mypubkey.length≤65 := by
  have hvalid := pubkey2pk_valid hwal.key
  rw [← hvalid.1]
  exact length_mypk_le wal

/-- What `CreateSell` builds. -/
theorem createSell_built (hwal : wal.Fits W)
    (hnormal : wal.addNormalinputs (2*feeOf txfee) 3=some vin)
    (h : W.createSell wal txfee askamount assetid pricetotal=some tx) :
    0≤askamount ∧ askamount≤(W.tokenInputsFor wal assetid vin askamount).totalinputs ∧
      0<(W.tokenInputsFor wal assetid vin askamount).totalinputs ∧ assetid≠0 ∧
      W.Built wal assetid (W.unspendablePk EVAL_ASSETS)
        [(OPRETID_ASSETSDATA,askData wal pricetotal)]
        (sellVouts W wal txfee askamount
          (sellChange wal askamount (W.tokenInputsFor wal assetid vin askamount).totalinputs)
          ((W.getNonfungibleData assetid).headD 0)) tx
        (if askamount≠0 then (W.tokenInputsFor wal assetid vin askamount).totalinputs else 0) := by
  obtain ⟨hcp,hdata⟩ := tokenInputsFor_cp W wal assetid vin askamount
  obtain ⟨sel,hsel,hvin,hinputs⟩ := tokenInputsFor_selects W wal assetid vin askamount
  unfold createSell at h
  rw [hnormal] at h
  by_cases hneg : askamount<0 ∨ pricetotal<0
  · rw [if_pos hneg] at h
    cases h
  rw [if_neg hneg,Option.bind_some] at h
  dsimp only at h
  by_cases hnone : (W.tokenInputsFor wal assetid vin askamount).totalinputs≤0
  · rw [if_pos hnone] at h
    cases h
  rw [if_neg hnone] at h
  by_cases hfew : (W.tokenInputsFor wal assetid vin askamount).totalinputs<askamount
  · rw [if_pos hfew] at h
    cases h
  rw [if_neg hfew,hdata,hvin,hcp] at h
  have hidle : ∀v∈vin,∀s,W.Signed wal ⟨EVAL_TOKENS,(W.getNonfungibleData assetid).headD 0,0,[],""⟩
      v s → W.ismyvin EVAL_TOKENS s.scriptSig=false := fun v hv s hs =>
    hs.idle_of_normal (hwal.normal _ _ _ hnormal v hv).2
  have hlen := length_mypubkey hwal
  have hdecode := @decode_orderData assetid _ (chr 's') 0 pricetotal wal.mypubkey hwal.assetsKey
    (.inl rfl) (by omega) W.strayPk
  have hbuilt := built_of_finalize hwal rfl rfl hidle hsel hdecode h
  rw [← hinputs] at hbuilt
  refine ⟨by omega,by omega,by omega,?_,hbuilt⟩
  exact tokenid_ne_zero (fun u hu => (hsel u hu).2) (by omega)

theorem askData_head (wal : Wallet) (pricetotal : Int) :
    ∃rest,askData wal pricetotal=EVAL_ASSETS::rest := by
  obtain ⟨rest,hrest⟩ := encodeAssetOpRet_head 0 pricetotal wal.mypubkey
    (.inr (.inl (.inl rfl)) : HasNoData (chr 's') ∨ IsOrder (chr 's') ∨ IsExchange (chr 's'))
  exact ⟨_,hrest⟩

section Values

variable {rest : List UInt8} {vout : List CTxOut} {amount n : Int}

/-- The tokens on offer count unless the token's own code is that of tokens. -/
theorem Built.value_offer (h : W.Built wal assetid (W.unspendablePk EVAL_ASSETS)
      [(OPRETID_ASSETSDATA,EVAL_ASSETS::rest)] vout tx amount) (hwal : wal.Fits W)
    (hsep : W.Separated (W.CallKey wal (W.unspendablePk EVAL_ASSETS))) :
    W.transferValue tx (transferOpRet assetid (W.unspendablePk EVAL_ASSETS)
        [(OPRETID_ASSETSDATA,EVAL_ASSETS::rest)]) assetid
      (W.makeTokensCC1vout EVAL_ASSETS ((W.getNonfungibleData assetid).headD 0) n
        (W.unspendablePk EVAL_ASSETS))=
      if (W.getNonfungibleData assetid).headD 0=EVAL_TOKENS then 0 else n := by
  have hself : W.CallKey wal (W.unspendablePk EVAL_ASSETS) (W.unspendablePk EVAL_ASSETS) :=
    .inr (.inl rfl)
  split_ifs with htokens
  · apply h.value_unseen hwal hsep (tokenCond_tokens hself) (publicKeys_makeTokensCond _ _ _)
    intro codes hperm _ hrec
    have hne : (W.getNonfungibleData assetid).headD 0≠0 := by
      rw [htokens]
      decide
    rw [tokenEvalCodes_assets] at hrec
    rcases assetCodes_nonfungible hne with ⟨-,heq⟩ | ⟨hnot,-⟩
    · rw [heq] at hrec
      have htwo := hrec.length_two hne
      have hthree := hperm.length_eq
      rw [makeTokensCCcond1,codes_makeTokensCond,length_tokenCodes,if_pos (by decide),
        if_pos hne] at hthree
      omega
    · exact hnot htokens
  · apply Built.value_seen hsep (tokenCond_tokens hself)
    apply mem_testVouts_opret hwal.assetsOwn
    rw [tokenEvalCodes_assets]
    left
    by_cases hdata : (W.getNonfungibleData assetid).headD 0=0
    · rw [hdata]
      rcases assetCodes_fungible hdata with heq | heq
      · rw [heq]
        exact List.mem_cons_self ..
      · rw [heq]
        exact List.mem_cons_of_mem _ (mem_voutIf.mpr ⟨by decide,rfl⟩)
    · rcases assetCodes_nonfungible hdata with ⟨hcode,-⟩ | ⟨-,heq⟩
      · exact absurd hcode htokens
      · rw [heq]
        have hnot : EVAL_ASSETS≠0 := by decide
        exact List.mem_cons_of_mem _ (mem_voutIf.mpr ⟨decide_eq_true hnot,rfl⟩)

/-- The change of an ask counts for fungible tokens only. -/
theorem Built.value_sellChange (h : W.Built wal assetid (W.unspendablePk EVAL_ASSETS)
      [(OPRETID_ASSETSDATA,EVAL_ASSETS::rest)] vout tx amount) (hwal : wal.Fits W)
    (hsep : W.Separated (W.CallKey wal (W.unspendablePk EVAL_ASSETS))) (hne : amount≠0) :
    W.transferValue tx (transferOpRet assetid (W.unspendablePk EVAL_ASSETS)
        [(OPRETID_ASSETSDATA,EVAL_ASSETS::rest)]) assetid
      (W.makeTokensCC1vout (if (W.getNonfungibleData assetid).headD 0≠0 then
        (W.getNonfungibleData assetid).headD 0 else EVAL_TOKENS) 0 n wal.mypk)=
      if (W.getNonfungibleData assetid).headD 0=0 then n else 0 := by
  by_cases hdata : (W.getNonfungibleData assetid).headD 0=0
  · rw [if_neg (fun hnot => hnot hdata),if_pos hdata]
    exact h.value_change hwal hsep hne hdata
  rw [if_pos hdata,if_neg hdata]
  apply h.value_unseen hwal hsep (tokenCond_tokens (.inl rfl)) (publicKeys_makeTokensCond _ _ _)
  intro codes hperm _ hrec
  have hlen := hperm.length_eq
  rw [makeTokensCCcond1,codes_makeTokensCond,length_tokenCodes_zero] at hlen
  rw [tokenEvalCodes_assets] at hrec
  rcases assetCodes_nonfungible hdata with ⟨hcode,-⟩ | ⟨hcode,heq⟩
  · rw [if_neg (fun hnot => hnot hcode)] at hlen
    exact not_recognised_single hdata hlen hrec
  · rw [if_pos hcode] at hlen
    rw [heq] at hrec
    rcases hrec.length_three hdata hdata hcode with hthree | ⟨-,hpk⟩
    · omega
    · exact hwal.own EVAL_ASSETS (mem_voutPubkeys.mp hpk).1

end Values

/-- An ask conserves tokens exactly when there is something to sell, the token's own code is
not that of tokens, only fungible tokens leave change, and what lies in the unset change is
zero when there is none. -/
theorem createSell_conserves_iff (hwal : wal.Fits W)
    (hsep : W.Separated (W.CallKey wal (W.unspendablePk EVAL_ASSETS))) (site : Site)
    (hnormal : wal.addNormalinputs (2*feeOf txfee) 3=some vin)
    (h : W.createSell wal txfee askamount assetid pricetotal=some tx) :
    W.Conserves site assetid tx (W.tokenInputsFor wal assetid vin askamount).totalinputs
        askamount 2 ↔
      0<askamount ∧ (W.getNonfungibleData assetid).headD 0≠EVAL_TOKENS ∧
        (askamount<(W.tokenInputsFor wal assetid vin askamount).totalinputs →
          (W.getNonfungibleData assetid).headD 0=0) ∧
        (askamount=(W.tokenInputsFor wal assetid vin askamount).totalinputs →
          wal.strayChange=0) ∧
        (site.AcceptsAll ∨ (W.getTransaction assetid).isSome) := by
  obtain ⟨hlow,hhigh,hpos,hnull,hbuilt⟩ := createSell_built hwal hnormal h
  obtain ⟨rest,hrest⟩ := askData_head wal pricetotal
  rw [hrest] at hbuilt
  generalize (W.tokenInputsFor wal assetid vin askamount).totalinputs=selected at *
  have hchange : HasCondition tx 2 ↔ sellChange wal askamount selected≠0 := by
    rw [hbuilt.hasCondition_iff]
    unfold sellVouts
    generalize (if (W.getNonfungibleData assetid).headD 0≠0 then
      (W.getNonfungibleData assetid).headD 0 else EVAL_TOKENS)=e
    by_cases hne : sellChange wal askamount selected=0
    · rw [if_neg (fun hnot => hnot hne)]
      simp [hne]
    · rw [if_pos hne]
      simp [hne,hsep.payTo _ (tokenCond_tokens (.inl rfl)),makeTokensCC1vout]
  unfold Conserves
  rw [hbuilt.balances_iff hwal site hnull (by omega),hchange]
  by_cases hask : askamount=0
  · rw [if_neg (by simp [hask])]
    constructor
    · rintro ⟨⟨hzero,-⟩,-⟩
      omega
    · rintro ⟨hgt,-⟩
      omega
  rw [if_pos hask] at hbuilt ⊢
  have hsum : (List.map (W.transferValue tx (transferOpRet assetid (W.unspendablePk EVAL_ASSETS)
        [(OPRETID_ASSETSDATA,EVAL_ASSETS::rest)]) assetid) (sellVouts W wal txfee askamount
          (sellChange wal askamount selected) ((W.getNonfungibleData assetid).headD 0))).sum=
      (if (W.getNonfungibleData assetid).headD 0=EVAL_TOKENS then 0 else askamount)+
        (if (W.getNonfungibleData assetid).headD 0=0 then sellChange wal askamount selected
          else 0) := by
    unfold sellVouts
    rw [List.map_append,List.sum_append,List.map_cons,List.map_singleton,List.sum_cons,
      List.sum_singleton,hbuilt.value_offer hwal hsep,
      hbuilt.value_assets hwal hsep (.inl rfl),add_zero]
    congr 1
    by_cases hne : sellChange wal askamount selected=0
    · rw [if_neg (by simp [hne]),hne]
      simp
    · rw [if_pos hne,List.map_singleton,List.sum_singleton,
        hbuilt.value_sellChange hwal hsep (by omega)]
  rw [hsum]
  have hne : EVAL_TOKENS≠0 := by decide
  unfold sellChange
  by_cases htokens : (W.getNonfungibleData assetid).headD 0=EVAL_TOKENS
  · rw [if_pos htokens,if_neg (by rw [htokens]; exact hne)]
    constructor
    · rintro ⟨⟨-,hzero,-⟩,-⟩
      omega
    · rintro ⟨-,hnot,-⟩
      exact absurd htokens hnot
  rw [if_neg htokens]
  by_cases hlt : askamount<selected
  · rw [if_pos hlt]
    by_cases hdata : (W.getNonfungibleData assetid).headD 0=0
    · rw [if_pos hdata]
      constructor
      · rintro ⟨⟨-,-,hfound⟩,-⟩
        exact ⟨by omega,htokens,fun _ => hdata,fun heq => by omega,hfound⟩
      · rintro ⟨-,-,-,-,hfound⟩
        exact ⟨⟨rfl,by omega,hfound⟩,fun _ => hlt,fun _ => by omega⟩
    · rw [if_neg hdata]
      constructor
      · rintro ⟨⟨-,hzero,-⟩,-⟩
        omega
      · rintro ⟨-,-,hnot,-⟩
        exact absurd (hnot hlt) hdata
  · rw [if_neg hlt]
    constructor
    · rintro ⟨⟨-,-,hfound⟩,hiff⟩
      refine ⟨by omega,htokens,fun hcon => absurd hcon hlt,fun _ => ?_,hfound⟩
      by_contra hstray
      exact hlt (hiff.mp hstray)
    · rintro ⟨-,-,-,hstray,hfound⟩
      have hzero := hstray (by omega)
      rw [hzero]
      refine ⟨⟨rfl,?_,hfound⟩,fun hcon => absurd rfl hcon,fun hcon => absurd hcon hlt⟩
      split_ifs <;> omega

end Sell

end World

end Zdeex.Cc
