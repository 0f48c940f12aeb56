import Zdeex.Cc.BuiltInputs

namespace Zdeex.Cc

open Zdeex.Framework
open Zdeex.Script
open Zdeex.Coins
open Zdeex.Block
open Zdeex.Crosschain

namespace World

variable {W : World} {wal : Wallet}

section Keys

variable {tokenid : Uint256} {vins : List CTxIn} {amount : Int}

theorem pubkey2pk_mypk (wal : Wallet) : pubkey2pk wal.mypk=wal.mypk := pubkey2pk_pubkey2pk _

/-- The keys of the token inputs are that of the wallet. -/
theorem TakesIn.extractLoop_eq (h : W.TakesIn wal tokenid vins amount) (pubkey : CPubKey) :
    (∀pk∈W.extractLoop vins pubkey,pk=wal.mypk) ∧
      (wal.mypk≠[] → (∃vin∈vins,W.ismyvin EVAL_TOKENS vin.scriptSig=true) →
        wal.mypk∈W.extractLoop vins pubkey) := by
  have hkeys := h.keys
  clear h
  induction vins generalizing pubkey with
  | nil => exact ⟨by simp [extractLoop],by simp⟩
  | cons vin rest ih =>
    have hrest := fun v hv => hkeys v (List.mem_cons_of_mem _ hv)
    rw [extractLoop]
    by_cases hmine : W.ismyvin EVAL_TOKENS vin.scriptSig=true
    · obtain ⟨cond,hcond,hkey⟩ := hkeys vin (List.mem_cons_self ..) hmine
      have hfirst : cond.nodes.findSome? CC.publicKey?=some wal.mypk := by
        rw [findSome_publicKey,hkey]
        rfl
      rw [if_pos hmine,hcond]
      dsimp only
      rw [hfirst,Option.map_some,Option.getD_some,pubkey2pk_mypk]
      obtain ⟨hall,-⟩ := ih wal.mypk hrest
      constructor
      · intro pk hpk
        rcases List.mem_append.mp hpk with hnew | hold
        · split_ifs at hnew
          · exact List.mem_singleton.mp hnew
          · cases hnew
        · exact hall pk hold
      · intro hne _
        rw [if_pos hne]
        exact List.mem_append_left _ (List.mem_singleton_self _)
    · rw [if_neg hmine]
      obtain ⟨hall,hmem⟩ := ih pubkey hrest
      refine ⟨hall,?_⟩
      rintro hne ⟨v,hv,hv'⟩
      rcases List.mem_cons.mp hv with rfl | hin
      · exact absurd hv' hmine
      · exact hmem hne ⟨v,hin,hv'⟩

/-- Something was taken in by an input. -/
theorem TakesIn.exists_input (h : W.TakesIn wal tokenid vins amount) (hne : amount≠0) :
    ∃vin∈vins,W.ismyvin EVAL_TOKENS vin.scriptSig=true := by
  by_contra hnone
  push Not at hnone
  apply hne
  rw [← h.sum]
  apply List.sum_eq_zero
  intro x hx
  obtain ⟨vin,hvin,rfl⟩ := List.mem_map.mp hx
  exact inputAmount_idle (by simpa using hnone vin hvin)

/-- The keys that change may go to. -/
theorem TakesIn.vinPubkeys (h : W.TakesIn wal tokenid vins amount) (hwal : wal.Fits W)
    {tx : CTransaction} (htx : tx.vin=vins) :
    (∀pk∈W.filterOutTokensUnspendablePk (W.extractTokensCCVinPubkeys tx),pk=wal.mypk) ∧
      (amount≠0 →
        wal.mypk∈W.filterOutTokensUnspendablePk (W.extractTokensCCVinPubkeys tx)) := by
  unfold filterOutTokensUnspendablePk extractTokensCCVinPubkeys
  rw [htx]
  obtain ⟨hall,hmem⟩ := h.extractLoop_eq []
  constructor
  · intro pk hpk
    exact hall pk (List.mem_filter.mp hpk).1
  · intro hne
    exact List.mem_filter.mpr ⟨hmem hwal.key (h.exists_input hne),
      decide_eq_true (hwal.own EVAL_TOKENS)⟩

end Keys

section Validation

variable {tokenid : Uint256} {amount : Int} {tx : CTransaction} {r : TokenOpRet}

theorem TakesIn.tokenInputs_eq {vins : List CTxIn} (h : W.TakesIn wal tokenid vins amount)
    (s : Option String) :
    (W.tokenInputs (W.isTokensvout true tokenid) vins 0 s).1=some amount := by
  have hsome : ∀(vins : List CTxIn) (acc : Int) (s : Option String),
      (∀vin∈vins,W.ismyvin EVAL_TOKENS vin.scriptSig=true →
        (W.getTransaction vin.prevout.hash).isSome) →
      ∃inputs,(W.tokenInputs (W.isTokensvout true tokenid) vins acc s).1=some inputs := by
    intro vins
    induction vins with
    | nil => exact fun acc _ _ => ⟨acc,rfl⟩
    | cons vin rest ih =>
      intro acc s hfound
      have hrest := fun v hv => hfound v (List.mem_cons_of_mem _ hv)
      rw [tokenInputs]
      by_cases hmine : W.ismyvin EVAL_TOKENS vin.scriptSig=true
      · obtain ⟨p,hp⟩ := Option.isSome_iff_exists.mp
          (hfound vin (List.mem_cons_self ..) hmine)
        rw [if_pos hmine,hp]
        exact ih _ _ hrest
      · rw [if_neg hmine]
        exact ih acc s hrest
  obtain ⟨inputs,hinputs⟩ := hsome vins 0 s h.found
  have hsum := tokenInputs_fst (f := W.tokenAmount tokenid)
    (fun tx v s => tokenAmount_eq tx v s) hinputs
  rw [hinputs,hsum,zero_add,h.sum]

/-- The amounts that the validation of a built transaction compares. -/
theorem TakesIn.exactAmounts_eq (h : W.TakesIn wal tokenid tx.vin amount) (s : Option String) :
    (W.tokensExactAmounts true tx tokenid s).1=some (amount,W.tokenOutputs tx tokenid) := by
  have hmap : (W.tokensExactAmounts true tx tokenid s).1=
      Option.map (fun inputs => (inputs,W.tokenOutputs tx tokenid))
        (W.tokenInputs (W.isTokensvout true tokenid) tx.vin 0 s).1 := rfl
  rw [hmap,h.tokenInputs_eq]
  rfl

/-- A built transfer is accepted when its amounts agree and its token is found. -/
theorem TakesIn.validate_iff (h : W.TakesIn wal tokenid tx.vin amount) (hwal : wal.Fits W)
    (site : Site) (hvout : tx.vout≠[])
    (hdec : decodeTokenOpRet W.strayPk (lastScript tx)=some r) (hfunc : r.funcId=chr 't')
    (hid : r.tokenid=tokenid) (hnull : tokenid≠0) (hne : amount≠0)
    (hequal : amount=W.tokenOutputs tx tokenid) :
    (W.tokensValidate site tx none).1=true ↔
      site.AcceptsAll ∨ (W.getTransaction tokenid).isSome := by
  have hmarker : W.spendsMarker tx tokenid=false := by
    have hnot : (W.extractTokensCCVinPubkeys tx).contains (W.unspendablePk EVAL_TOKENS)=false := by
      rw [List.contains_eq_mem,decide_eq_false_iff_not]
      intro hmem
      exact hwal.own EVAL_TOKENS ((h.extractLoop_eq []).1 _ hmem).symm
    rw [spendsMarker,hnot,Bool.false_and,Bool.false_and]
  unfold tokensValidate
  by_cases hgate : site.AcceptsAll
  · rw [if_pos hgate]
    exact ⟨fun _ => .inl hgate,fun _ => rfl⟩
  rw [if_neg hgate,refuseIf_true,hdec]
  dsimp only
  rw [refuseIf_true,hfunc,if_neg (by decide),refuseIf_true,judged_bind,hid,h.exactAmounts_eq,
    validateAmounts,refuseIf_true,validateFuncid,refuseIf_true,hid,hmarker,hfunc,
    if_neg (by decide),if_pos rfl,refuseIf_true]
  have hsome : ¬(W.getTransaction tokenid).isNone=true ↔ (W.getTransaction tokenid).isSome := by
    cases W.getTransaction tokenid <;> simp
  rw [hsome]
  constructor
  · rintro ⟨-,hfound,-⟩
    exact .inr hfound
  · rintro (hsite | hfound)
    · exact absurd hsite hgate
    · exact ⟨hvout,hfound,hnull,by simpa using hequal,by simp,hne,rfl⟩

/-- What the token contract and its counting make of a built transaction. -/
def Balances (W : World) (site : Site) (tokenid : Uint256) (tx : CTransaction) (amount : Int) :
    Prop :=
  (W.tokensExactAmounts true tx tokenid none).1=some (amount,amount) ∧
    (W.tokensValidate site tx none).1=true

theorem TakesIn.balances_iff (h : W.TakesIn wal tokenid tx.vin amount) (hwal : wal.Fits W)
    (site : Site) (hvout : tx.vout≠[])
    (hdec : decodeTokenOpRet W.strayPk (lastScript tx)=some r) (hfunc : r.funcId=chr 't')
    (hid : r.tokenid=tokenid) (hnull : tokenid≠0) {selected : Int} (hne : selected≠0) :
    W.Balances site tokenid tx selected ↔ amount=selected ∧
      W.tokenOutputs tx tokenid=selected ∧
        (site.AcceptsAll ∨ (W.getTransaction tokenid).isSome) := by
  rw [Balances,h.exactAmounts_eq,Option.some.injEq,Prod.mk.injEq,and_assoc]
  constructor
  · rintro ⟨rfl,houtputs,hvalid⟩
    exact ⟨rfl,houtputs,(h.validate_iff hwal site hvout hdec hfunc hid hnull hne
      houtputs.symm).mp hvalid⟩
  · rintro ⟨rfl,houtputs,hfound⟩
    exact ⟨rfl,houtputs,(h.validate_iff hwal site hvout hdec hfunc hid hnull hne
      houtputs.symm).mpr hfound⟩

end Validation

section Outputs

variable {tokenid : Uint256} {tx : CTransaction} {r : TokenOpRet}

/-- What an output adds to the token outputs of a transfer. -/
def transferValue (W : World) (tx : CTransaction) (r : TokenOpRet) (tokenid : Uint256)
    (out : CTxOut) : Int :=
  if isPayToCryptoCondition out.scriptPubKey=true ∧ out∈W.testVouts tx r tokenid out.nValue then
    out.nValue
  else 0

theorem tokenOutputs_transfer (hvout : tx.vout≠[])
    (hdec : decodeTokenOpRet W.strayPk (lastScript tx)=some r) (hfunc : r.funcId=chr 't')
    (hid : r.tokenid=tokenid) (hnull : tokenid≠0) :
    W.tokenOutputs tx tokenid=(tx.vout.dropLast.map (W.transferValue tx r tokenid)).sum := by
  have hopret : W.validateTokenOpret tx tokenid=some r := by
    rw [validateTokenOpret,if_neg hvout,hdec]
    dsimp only
    rw [hfunc,if_neg (by decide),if_pos rfl,if_pos ⟨hnull,hid.symm⟩]
  have hvalue : ∀out,W.opretValue tx out tokenid=
      if out∈W.testVouts tx r tokenid out.nValue then out.nValue else 0 := by
    intro out
    rw [opretValue,hopret]
    dsimp only
    rw [hfunc,if_neg (by decide)]
  have hlen : tx.vout.length-1=tx.vout.dropLast.length := by rw [List.length_dropLast]
  unfold tokenOutputs
  rw [hlen]
  congr 1
  apply List.ext_getElem
  · simp
  · intro i h₁ h₂
    rw [List.getElem_map,List.getElem_range,List.getElem_map]
    have hi : i<tx.vout.dropLast.length := by simpa using h₁
    unfold voutValue conditionVout? transferValue
    rw [List.getElem?_eq_getElem hi,Option.filter_some]
    by_cases hcc : isPayToCryptoCondition tx.vout.dropLast[i].scriptPubKey=true
    · rw [if_pos hcc]
      dsimp only
      rw [hvalue]
      simp only [hcc,true_and]
    · rw [if_neg hcc,if_neg fun h => hcc h.1]

/-- The codes of a condition to one key that a transfer recognises. -/
def Recognised (ecN e1 e2 : UInt8) (vouts vins : List CPubKey) (pk : CPubKey)
    (codes : List (List UInt8)) : Prop :=
  (pk∈vouts ∨ pk∈vins) ∧
    ((ecN=0 ∧ codes=[[EVAL_TOKENS]]) ∨ codes=tokenCodes e1 e2 ∨
      (e2≠0 ∧ codes=tokenCodes e2 e1) ∨
      (pk∈vouts ∧ ((e1≠0 ∧ codes=tokenCodes e1 0) ∨ (e2≠0 ∧ codes=tokenCodes e2 0))))

/-- An output that is tried: its condition holds the code of tokens, and when it has one
key its codes are recognised. -/
def Tried (W : World) (ecN e1 e2 : UInt8) (keys : CPubKey → Prop) (vouts vins : List CPubKey)
    (out : CTxOut) : Prop :=
  ∃c,out.scriptPubKey=W.ccPubKey c ∧ TokenCond keys c ∧ [EVAL_TOKENS]∈c.codes ∧
    ∀pk,c.publicKeys=[pk] → Recognised ecN e1 e2 vouts vins pk c.codes

section Tried

variable {ecN e1 e2 : UInt8} {keys : CPubKey → Prop} {vouts vins : List CPubKey} {n : Int}
  {pk : CPubKey}

theorem mem_voutIf {c : Bool} {out out' : CTxOut} : out∈voutIf c out' ↔ c=true ∧ out=out' := by
  unfold voutIf
  split_ifs with hc
  · simp [hc]
  · simp [hc]

theorem tried_tokens {e f : UInt8} (hpk : keys pk)
    (h : Recognised ecN e1 e2 vouts vins pk (tokenCodes e f)) :
    W.Tried ecN e1 e2 keys vouts vins (W.makeTokensCC1vout e f n pk) := by
  refine ⟨makeTokensCCcond1 e f pk,rfl,.inr ⟨e,f,[pk],by simp,by simpa using hpk,rfl⟩,?_,?_⟩
  · rw [makeTokensCCcond1,codes_makeTokensCond]
    exact tokens_mem_tokenCodes e f
  · intro pk' hpk'
    rw [makeTokensCCcond1,publicKeys_makeTokensCond] at hpk'
    obtain rfl : pk=pk' := by simpa using hpk'
    rw [makeTokensCCcond1,codes_makeTokensCond]
    exact h

theorem tried_plain (hpk : keys pk)
    (h : Recognised ecN e1 e2 vouts vins pk [[EVAL_TOKENS]]) :
    W.Tried ecN e1 e2 keys vouts vins (W.makeCC1vout EVAL_TOKENS n pk) := by
  have hcodes : tokenCodes EVAL_TOKENS 0=[[EVAL_TOKENS]] := by decide
  rw [← hcodes] at h
  have htried := tried_tokens (W := W) (n := n) hpk h
  exact htried

theorem tried_two {e f : UInt8} {pk' : CPubKey} (hpk : keys pk) (hpk' : keys pk') :
    W.Tried ecN e1 e2 keys vouts vins (W.makeTokensCC1of2vout e f n pk pk') := by
  refine ⟨makeTokensCCcond1of2 e f pk pk',rfl,
    .inr ⟨e,f,[pk,pk'],by simp,by simp [hpk,hpk'],rfl⟩,?_,?_⟩
  · rw [makeTokensCCcond1of2,codes_makeTokensCond]
    exact tokens_mem_tokenCodes e f
  · intro q hq
    rw [makeTokensCCcond1of2,publicKeys_makeTokensCond] at hq
    simp at hq

theorem tried_three (hpk : keys pk) (hmem : pk∈vouts ∨ pk∈vins) :
    ∀out∈W.threeEvalVouts e1 e2 n pk,W.Tried ecN e1 e2 keys vouts vins out := by
  intro out hout
  rcases List.mem_cons.mp hout with rfl | hout
  · exact tried_tokens hpk ⟨hmem,.inr (.inl rfl)⟩
  · obtain ⟨he2,rfl⟩ := mem_voutIf.mp hout
    exact tried_tokens hpk ⟨hmem,.inr (.inr (.inl ⟨of_decide_eq_true he2,rfl⟩))⟩

theorem tried_one (hpk : keys pk) (hmem : pk∈vouts) :
    ∀out∈W.oneEvalVouts ecN e1 e2 n pk,W.Tried ecN e1 e2 keys vouts vins out := by
  intro out hout
  rcases List.mem_append.mp hout with hout | hout
  · rcases List.mem_append.mp hout with hout | hout
    · obtain ⟨hecN,rfl⟩ := mem_voutIf.mp hout
      exact tried_plain hpk ⟨.inl hmem,.inl ⟨of_decide_eq_true hecN,rfl⟩⟩
    · obtain ⟨he1,rfl⟩ := mem_voutIf.mp hout
      exact tried_tokens hpk ⟨.inl hmem,
        .inr (.inr (.inr ⟨hmem,.inl ⟨of_decide_eq_true he1,rfl⟩⟩))⟩
  · obtain ⟨he2,rfl⟩ := mem_voutIf.mp hout
    exact tried_tokens hpk ⟨.inl hmem,
      .inr (.inr (.inr ⟨hmem,.inr ⟨of_decide_eq_true he2,rfl⟩⟩))⟩

theorem tried_change (hpk : keys pk) (hmem : pk∈vins) :
    ∀out∈W.changeVouts ecN e1 e2 n pk,W.Tried ecN e1 e2 keys vouts vins out := by
  intro out hout
  rcases List.mem_append.mp hout with hout | hout
  · obtain ⟨hecN,rfl⟩ := mem_voutIf.mp hout
    exact tried_plain hpk ⟨.inr hmem,.inl ⟨of_decide_eq_true hecN,rfl⟩⟩
  · exact tried_three hpk (.inr hmem) out hout

theorem tried_global {e : UInt8} (hstray : keys W.strayPk)
    (hkeys : ∀e,keys (W.unspendablePk e)) (hvouts : ∀pk∈vouts,keys pk) :
    ∀out∈W.globalVouts n e vouts,W.Tried ecN e1 e2 keys vouts vins out := by
  intro out hout
  have hhead : keys (vouts.headD W.strayPk) := by
    cases vouts with
    | nil => exact hstray
    | cons pk pks => exact hvouts pk (List.mem_cons_self ..)
  rcases vouts with _ | ⟨pk,_ | ⟨pk1,_ | ⟨pk2,pks⟩⟩⟩
  · obtain rfl := List.mem_singleton.mp hout
    exact tried_two hhead (hkeys e)
  · obtain rfl := List.mem_singleton.mp hout
    exact tried_two hhead (hkeys e)
  · rcases List.mem_cons.mp hout with rfl | hout
    · exact tried_two hhead (hkeys e)
    · obtain rfl := List.mem_singleton.mp hout
      exact tried_two (hvouts pk1 (by simp)) (hkeys e)
  · obtain rfl := List.mem_singleton.mp hout
    exact tried_two hhead (hkeys e)

end Tried

/-- All outputs that are tried for a transfer to at most one key. -/
theorem tried_testVouts {keys : CPubKey → Prop} {nValue : Int} {out : CTxOut}
    (hfew : (W.filterOutTokensUnspendablePk r.voutPubkeys).length≤1)
    (hstray : keys W.strayPk) (hkeys : ∀e,keys (W.unspendablePk e))
    (hvouts : ∀pk∈W.filterOutTokensUnspendablePk r.voutPubkeys,keys pk)
    (hvins : ∀pk∈W.filterOutTokensUnspendablePk (W.extractTokensCCVinPubkeys tx),keys pk)
    (h : out∈W.testVouts tx r tokenid nValue) :
    W.Tried ((W.getNonfungibleData tokenid).headD 0)
      (tokenEvalCodes (W.getNonfungibleData tokenid) (filterOutNonCCOprets r.oprets)).1
      (tokenEvalCodes (W.getNonfungibleData tokenid) (filterOutNonCCOprets r.oprets)).2 keys
      (W.filterOutTokensUnspendablePk r.voutPubkeys)
      (W.filterOutTokensUnspendablePk (W.extractTokensCCVinPubkeys tx)) out := by
  unfold testVouts at h
  dsimp only at h
  generalize W.filterOutTokensUnspendablePk r.voutPubkeys=vouts at *
  generalize W.filterOutTokensUnspendablePk (W.extractTokensCCVinPubkeys tx)=vins at *
  rcases List.mem_append.mp h with h | h
  · rcases List.mem_append.mp h with h | h
    · rcases List.mem_append.mp h with h | h
      · rcases vouts with _ | ⟨pk,_ | ⟨pk1,pks⟩⟩
        · cases h
        · have hmem : pk∈[pk] := List.mem_singleton_self pk
          rcases List.mem_append.mp h with h | h
          · exact tried_three (hvouts pk hmem) (.inl hmem) out h
          · exact tried_one (hvouts pk hmem) hmem out h
        · simp at hfew
      · exact tried_global hstray hkeys hvouts out h
    · split_ifs at h
      · exact tried_global hstray hkeys hvouts out h
      · cases h
  · obtain ⟨pk,hpk,h⟩ := List.mem_flatMap.mp h
    exact tried_change (hvins pk hpk) hpk out h

end Outputs

end World

end Zdeex.Cc
