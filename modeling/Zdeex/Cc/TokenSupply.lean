import Mathlib.Algebra.BigOperators.Group.Finset.Basic
import Mathlib.Tactic.Common
import Zdeex.Cc.Tokens
import Zdeex.Framework.Unspent

namespace Zdeex.Cc

open Zdeex.Framework
open Zdeex.Coins
open Zdeex.Block
open Zdeex.Crosschain

/-- The outputs of a transaction. -/
def outPoints (tx : CTransaction) : Finset COutPoint :=
  (Finset.range tx.vout.length).image fun n => ⟨tx.hash,n⟩

/-- What a transaction does to the unspent outputs. -/
def transferOf (tx : CTransaction) : Transfer COutPoint :=
  ⟨(tx.vin.map CTxIn.prevout).toFinset,outPoints tx⟩

/-- Outputs that no transaction of the chain has spent; the last one comes first. -/
def unspentOutPoints (chain : List CTransaction) : Finset COutPoint := unspent (chain.map transferOf)

namespace World

variable (W : World) (T : Uint256)

/-- The value that `IsTokensvout` gives to an output when it goes deeper. -/
def tokenAmount (tx : CTransaction) (v : Nat) : Int := (W.isTokensvout true T tx v none).1

/-- The same for an output that is looked up. -/
def outPointAmount (o : COutPoint) : Int :=
  match W.getTransaction o.hash with
  | none => 0
  | some (tx,_) => W.tokenAmount T tx o.n

/-- All tokens that are unspent. -/
def unspentAmount (chain : List CTransaction) : Int :=
  ∑o∈unspentOutPoints chain,W.outPointAmount T o

/-- The tokens in the outputs of the creation. -/
def createdAmount : Int :=
  match W.getTransaction T with
  | none => 0
  | some (tx,_) => ∑v∈Finset.range tx.vout.length,W.tokenAmount T tx v

/-- The input fulfills a condition that contains the code of tokens. -/
def IsTokenInput (vin : CTxIn) : Prop :=
  W.ismyvin EVAL_TOKENS vin.scriptSig=true ∧
    ∃tx b out,W.getTransaction vin.prevout.hash=some (tx,b) ∧ tx.vout[vin.prevout.n]?=some out ∧
      isPayToCryptoCondition out.scriptPubKey=true

/-- What a transaction met when it came into the chain, which the token contract
validated at this site. -/
structure Admitted (site : CTransaction → Site) (before : List CTransaction) (tx : CTransaction) :
    Prop where
  found : ∃b,W.getTransaction tx.hash=some (tx,b)
  fresh : ∀t∈before,t.hash≠tx.hash
  inputs : tx.isCoinBase=true ∨ ∀vin∈tx.vin,vin.prevout∈unspentOutPoints before
  prevouts : (tx.vin.map CTxIn.prevout).Nodup
  validated : (∃vin∈tx.vin,W.IsTokenInput vin) → (W.tokensValidate (site tx) tx none).1=true

/-- A chain in which every spend of a token output was validated. -/
def TokenChain (site : CTransaction → Site) (chain : List CTransaction) : Prop :=
  ∀tx before,tx::before <:+ chain → W.Admitted site before tx

/-- What an input adds to the token inputs. -/
def inputAmount (f : CTransaction → Nat → Int) (vin : CTxIn) : Int :=
  if W.ismyvin EVAL_TOKENS vin.scriptSig then
    match W.getTransaction vin.prevout.hash with
    | none => 0
    | some (vinTx,_) => f vinTx vin.prevout.n
  else 0

variable {W T}

theorem tokenInputs_fst {value : CTransaction → Nat → Judged Int} {f : CTransaction → Nat → Int}
    (hf : ∀tx v s,(value tx v s).1=f tx v) {vins : List CTxIn} {acc inputs : Int}
    {s : Option String} (h : (W.tokenInputs value vins acc s).1=some inputs) :
    inputs=acc+(vins.map (W.inputAmount f)).sum := by
  induction vins generalizing acc s with
  | nil =>
    obtain rfl := Option.some.inj h
    simp
  | cons vin rest ih =>
    rw [tokenInputs] at h
    rw [List.map_cons,List.sum_cons,inputAmount]
    by_cases hmine : W.ismyvin EVAL_TOKENS vin.scriptSig=true
    · rw [if_pos hmine] at h ⊢
      cases hget : W.getTransaction vin.prevout.hash with
      | none =>
        rw [hget] at h
        cases h
      | some p =>
        rw [hget] at h
        have hrest := ih (s := (value p.1 vin.prevout.n s).2) h
        rw [hf] at hrest
        dsimp only
        omega
    · rw [if_neg hmine] at h ⊢
      rw [ih h]
      omega

/-- What was recorded before does not change the inputs. -/
theorem tokenInputs_steady (value : CTransaction → Nat → Judged Int)
    (hvalue : ∀tx v s s',(value tx v s).1=(value tx v s').1) (vins : List CTxIn) (acc : Int)
    (s s' : Option String) :
    (W.tokenInputs value vins acc s).1=(W.tokenInputs value vins acc s').1 := by
  induction vins generalizing acc s s' with
  | nil => rfl
  | cons vin rest ih =>
    rw [tokenInputs]
    by_cases hmine : W.ismyvin EVAL_TOKENS vin.scriptSig=true
    · rw [if_pos hmine]
      cases W.getTransaction vin.prevout.hash with
      | none => rfl
      | some p =>
        change (W.tokenInputs value rest (acc+(value p.1 vin.prevout.n s).1)
            (value p.1 vin.prevout.n s).2).1=
          (W.tokenInputs value rest (acc+(value p.1 vin.prevout.n s').1)
            (value p.1 vin.prevout.n s').2).1
        rw [hvalue p.1 vin.prevout.n s s']
        exact ih _ _ _
    · rw [if_neg hmine]
      exact ih acc s s'

/-- The amounts of a transaction at the first level. -/
def shallowAmounts (W : World) (T : Uint256) (tx : CTransaction) : Option (Int × Int) :=
  (W.exactAmounts (fun vinTx n => pure (W.voutValue vinTx n T)) tx T none).1

/-- What `IsTokensvout` returns when it goes deeper, whatever was recorded before. -/
theorem isTokensvout_deep (tx : CTransaction) (v : Nat) (s : Option String) :
    (W.isTokensvout true T tx v s).1=
      if isEqual (W.shallowAmounts T tx)=false ∧ T≠tx.hash then 0 else W.voutValue tx v T := by
  have hsteady := W.tokenInputs_steady (fun vinTx n => pure (W.voutValue vinTx n T))
    (fun _ _ _ _ => rfl) tx.vin 0 s none
  have hamounts : (W.exactAmounts (fun vinTx n => pure (W.voutValue vinTx n T)) tx T s).1=
      W.shallowAmounts T tx := by
    change Option.map _ (W.tokenInputs _ tx.vin 0 s).1=Option.map _ (W.tokenInputs _ tx.vin 0 none).1
    rw [hsteady]
  rw [isTokensvout,if_pos rfl,voutValue]
  cases conditionVout? tx v with
  | none =>
    dsimp only
    split_ifs <;> rfl
  | some out =>
    change (if isEqual (W.exactAmounts (fun vinTx n => pure (W.voutValue vinTx n T)) tx T s).1=false ∧
      T≠tx.hash then 0 else W.opretValue tx out T)=_
    rw [hamounts]

theorem tokenAmount_eq (tx : CTransaction) (v : Nat) (s : Option String) :
    (W.isTokensvout true T tx v s).1=W.tokenAmount T tx v := by
  rw [tokenAmount,isTokensvout_deep,isTokensvout_deep]

/-- An output has its own value in tokens, or none. -/
theorem voutValue_cases (tx : CTransaction) (v : Nat) :
    W.voutValue tx v T=0 ∨ ∃out,tx.vout[v]?=some out ∧
      isPayToCryptoCondition out.scriptPubKey=true ∧ W.voutValue tx v T=out.nValue := by
  unfold voutValue
  cases hout : conditionVout? tx v with
  | none => exact .inl rfl
  | some out =>
    obtain ⟨hget,hcc⟩ := conditionVout?_some hout
    dsimp only
    by_cases hzero : W.opretValue tx out T=0
    · exact .inl hzero
    · refine .inr ⟨out,hget,hcc,?_⟩
      unfold opretValue at hzero ⊢
      cases hopret : W.validateTokenOpret tx T with
      | none => simp [hopret] at hzero
      | some r =>
        rw [hopret] at hzero
        dsimp only at hzero ⊢
        split_ifs at hzero ⊢ with hc hmem
        · unfold createdValue at hzero ⊢
          split_ifs at hzero ⊢
          · exact absurd rfl hzero
          · rfl
          · split at hzero
            · exact absurd rfl hzero
            · split_ifs at hzero ⊢
              · rfl
              · exact absurd rfl hzero
        · rfl
        · exact absurd rfl hzero

/-- What the contract accepts elsewhere is a transfer whose amounts agree. -/
theorem tokensValidate_transfer {site : Site} {tx : CTransaction} {s : Option String}
    (hgate : ¬site.AcceptsAll) (h : (W.tokensValidate site tx s).1=true) :
    ∃r inputs,decodeTokenOpRet W.strayPk (lastScript tx)=some r ∧ r.funcId=chr 't' ∧
      (W.tokensExactAmounts true tx r.tokenid s).1=some (inputs,inputs) := by
  rw [tokensValidate,if_neg hgate,refuseIf_true] at h
  obtain ⟨-,h⟩ := h
  cases hdec : decodeTokenOpRet W.strayPk (lastScript tx) with
  | none =>
    rw [hdec] at h
    cases h
  | some r =>
    rw [hdec] at h
    dsimp only at h
    rw [refuseIf_true] at h
    obtain ⟨-,h⟩ := h
    by_cases hc : r.funcId=chr 'c'
    · rw [if_pos hc,validateFuncid,refuseIf_true,if_pos hc] at h
      cases h.2
    · rw [if_neg hc,refuseIf_true] at h
      obtain ⟨-,h⟩ := h
      have ht : r.funcId=chr 't' := by
        obtain ⟨hcreate,-⟩ | ⟨ht,-⟩ := decodeTokenOpRet_cases hdec
        · exact absurd hcreate hc
        · exact ht
      rw [judged_bind] at h
      cases hamounts : (W.tokensExactAmounts true tx r.tokenid s).1 with
      | none =>
        rw [hamounts] at h
        cases h
      | some p =>
        obtain ⟨inputs,outputs⟩ := p
        rw [hamounts,validateAmounts,refuseIf_true,not_not] at h
        obtain ⟨rfl,-⟩ := h
        exact ⟨r,inputs,rfl,ht,hamounts⟩

/-- An output counts in tokens only for the transfers and the creation of its token. -/
theorem voutValue_transfer {tx : CTransaction} {v : Nat} (hne : T≠tx.hash)
    (h : W.voutValue tx v T≠0) :
    ∃r,decodeTokenOpRet W.strayPk (lastScript tx)=some r ∧ r.tokenid=T := by
  unfold voutValue at h
  cases hout : conditionVout? tx v with
  | none => simp [hout] at h
  | some out =>
    rw [hout] at h
    dsimp only at h
    unfold opretValue validateTokenOpret at h
    by_cases hempty : tx.vout=[]
    · simp [hempty] at h
    · rw [if_neg hempty] at h
      cases hdec : decodeTokenOpRet W.strayPk (lastScript tx) with
      | none => simp [hdec] at h
      | some r =>
        rw [hdec] at h
        dsimp only at h
        refine ⟨r,rfl,?_⟩
        by_contra hid
        have hid' : T≠r.tokenid := fun he => hid he.symm
        simp [hne,hid'] at h

theorem voutValue_opret {tx : CTransaction} {v : Nat} (h : tx.vout.length≤v+1) :
    W.voutValue tx v T=0 := by
  have hnone : tx.vout.dropLast[v]?=none := by
    rw [List.getElem?_eq_none_iff,List.length_dropLast]
    omega
  unfold voutValue conditionVout?
  rw [hnone]
  rfl

theorem tokenOutputs_eq (tx : CTransaction) :
    W.tokenOutputs tx T=∑v∈Finset.range tx.vout.length,W.voutValue tx v T := by
  have hlist : W.tokenOutputs tx T=∑v∈Finset.range (tx.vout.length-1),W.voutValue tx v T := rfl
  rw [hlist]
  cases hlen : tx.vout.length with
  | zero => rfl
  | succ n =>
    rw [Finset.sum_range_succ,voutValue_opret (by omega)]
    simp

/-- Amounts that agree at the first level. -/
theorem shallowAmounts_equal {tx : CTransaction} (h : isEqual (W.shallowAmounts T tx)=true) :
    (tx.vin.map (W.inputAmount fun vinTx n => W.voutValue vinTx n T)).sum=
      W.tokenOutputs tx T := by
  have hmap : W.shallowAmounts T tx=Option.map (fun inputs => (inputs,W.tokenOutputs tx T))
      (W.tokenInputs (fun vinTx n => pure (W.voutValue vinTx n T)) tx.vin 0 none).1 := rfl
  cases hinputs : (W.tokenInputs (fun vinTx n => pure (W.voutValue vinTx n T)) tx.vin 0 none).1 with
  | none =>
    rw [hmap,hinputs] at h
    cases h
  | some inputs =>
    rw [hmap,hinputs] at h
    have heq : inputs=W.tokenOutputs tx T := by simpa [isEqual] using h
    have hsum := tokenInputs_fst (f := fun vinTx n => W.voutValue vinTx n T) (fun _ _ _ => rfl)
      hinputs
    omega

/-- An input that counts was spent through the token contract. -/
theorem isTokenInput_of_inputAmount {vin : CTxIn}
    (h : W.inputAmount (fun vinTx n => W.voutValue vinTx n T) vin≠0) : W.IsTokenInput vin := by
  unfold inputAmount at h
  split_ifs at h with hmine
  · cases hget : W.getTransaction vin.prevout.hash with
    | none => simp [hget] at h
    | some p =>
      rw [hget] at h
      dsimp only at h
      obtain hzero | ⟨out,hout,hcc,-⟩ := W.voutValue_cases (T := T) p.1 vin.prevout.n
      · exact absurd hzero h
      · exact ⟨hmine,p.1,p.2,out,hget,hout,hcc⟩
  · exact absurd rfl h


theorem sum_outPoints {tx : CTransaction} {b : Uint256}
    (hget : W.getTransaction tx.hash=some (tx,b)) :
    ∑o∈outPoints tx,W.outPointAmount T o=∑v∈Finset.range tx.vout.length,W.tokenAmount T tx v := by
  unfold outPoints
  rw [Finset.sum_image]
  · apply Finset.sum_congr rfl
    intro v _
    simp only [outPointAmount,hget]
  · intro v _ w _ heq
    exact (COutPoint.mk.inj heq).2

section Conservation

variable (hW : W.Indexed)
include hW

theorem voutValue_nonneg {h : Uint256} {tx : CTransaction} {b : Uint256}
    (hget : W.getTransaction h=some (tx,b)) (v : Nat) : 0≤W.voutValue tx v T := by
  obtain hzero | ⟨out,hout,-,hvalue⟩ := W.voutValue_cases (T := T) tx v
  · rw [hzero]
  · rw [hvalue]
    exact hW.vout h tx b hget out (List.mem_of_getElem? hout)

/-- What goes deeper finds no more than what does not. -/
theorem tokenAmount_le {h : Uint256} {tx : CTransaction} {b : Uint256}
    (hget : W.getTransaction h=some (tx,b)) (v : Nat) :
    0≤W.tokenAmount T tx v ∧ W.tokenAmount T tx v≤W.voutValue tx v T := by
  have hnonneg := voutValue_nonneg (T := T) hW hget v
  rw [tokenAmount,isTokensvout_deep]
  split_ifs
  · exact ⟨le_refl 0,hnonneg⟩
  · exact ⟨hnonneg,le_refl _⟩

theorem outPointAmount_nonneg (o : COutPoint) : 0≤W.outPointAmount T o := by
  unfold outPointAmount
  cases hget : W.getTransaction o.hash with
  | none => exact le_refl 0
  | some p => exact (tokenAmount_le hW hget o.n).1

theorem inputAmount_le (vin : CTxIn) :
    0≤W.inputAmount (W.tokenAmount T) vin ∧
      W.inputAmount (W.tokenAmount T) vin≤W.outPointAmount T vin.prevout := by
  unfold inputAmount outPointAmount
  cases hget : W.getTransaction vin.prevout.hash with
  | none =>
    dsimp only
    split_ifs <;> exact ⟨le_refl 0,le_refl 0⟩
  | some p =>
    have hnonneg := (tokenAmount_le (T := T) hW hget vin.prevout.n).1
    dsimp only
    split_ifs
    · exact ⟨hnonneg,le_refl _⟩
    · exact ⟨le_refl 0,hnonneg⟩

/-- Outside of the creation, the outputs hold no more tokens than the inputs. -/
theorem sum_tokenAmount_le {tx : CTransaction} {b : Uint256} {site : Site}
    (hget : W.getTransaction tx.hash=some (tx,b)) (hne : T≠tx.hash) (hgate : ¬site.AcceptsAll)
    (hvalid : (∃vin∈tx.vin,W.IsTokenInput vin) → (W.tokensValidate site tx none).1=true) :
    ∑v∈Finset.range tx.vout.length,W.tokenAmount T tx v≤
      (tx.vin.map (W.inputAmount (W.tokenAmount T))).sum := by
  have hinputs : 0≤(tx.vin.map (W.inputAmount (W.tokenAmount T))).sum := by
    apply List.sum_nonneg
    intro x hx
    obtain ⟨vin,-,rfl⟩ := List.mem_map.mp hx
    exact (inputAmount_le hW vin).1
  by_cases hequal : isEqual (W.shallowAmounts T tx)=true
  · have hle : ∑v∈Finset.range tx.vout.length,W.tokenAmount T tx v≤W.tokenOutputs tx T := by
      rw [tokenOutputs_eq]
      exact Finset.sum_le_sum fun v _ => (tokenAmount_le hW hget v).2
    by_cases hout : W.tokenOutputs tx T=0
    · omega
    · have hshallow := shallowAmounts_equal hequal
      obtain ⟨v,hv⟩ : ∃v,W.voutValue tx v T≠0 := by
        by_contra hnone
        push Not at hnone
        apply hout
        rw [tokenOutputs_eq]
        exact Finset.sum_eq_zero fun v _ => hnone v
      obtain ⟨r,hdec,hid⟩ := voutValue_transfer hne hv
      obtain ⟨vin,hvin,hamount⟩ : ∃vin∈tx.vin,
          W.inputAmount (fun vinTx n => W.voutValue vinTx n T) vin≠0 := by
        by_contra hnone
        push Not at hnone
        apply hout
        rw [← hshallow]
        apply List.sum_eq_zero
        intro x hx
        obtain ⟨vin,hvin,rfl⟩ := List.mem_map.mp hx
        exact hnone vin hvin
      have haccepted := hvalid ⟨vin,hvin,isTokenInput_of_inputAmount hamount⟩
      obtain ⟨r',inputs,hdec',-,hdeep⟩ := tokensValidate_transfer hgate haccepted
      rw [hdec] at hdec'
      obtain rfl := Option.some.inj hdec'
      rw [hid] at hdeep
      have hmap : (W.tokensExactAmounts true tx T none).1=
          Option.map (fun inputs => (inputs,W.tokenOutputs tx T))
            (W.tokenInputs (W.isTokensvout true T) tx.vin 0 none).1 := rfl
      rw [hmap] at hdeep
      obtain ⟨i,hi,hpair⟩ := Option.map_eq_some_iff.mp hdeep
      obtain ⟨rfl,houtputs⟩ := Prod.mk.inj hpair
      have hsum := tokenInputs_fst (f := W.tokenAmount T) (fun tx v s => tokenAmount_eq tx v s) hi
      omega
  · have hzero : ∀v,W.tokenAmount T tx v=0 := by
      intro v
      rw [tokenAmount,isTokensvout_deep,if_pos ⟨by simpa using hequal,hne⟩]
    simpa [hzero] using hinputs

/-- What a transaction that is not the creation spends covers what it creates. -/
theorem created_le_spent {site : CTransaction → Site} {before : List CTransaction}
    {tx : CTransaction} (htx : W.Admitted site before tx) (hne : T≠tx.hash)
    (hgate : ¬(site tx).AcceptsAll) :
    ∑o∈outPoints tx,W.outPointAmount T o≤
      ∑o∈unspentOutPoints before∩(transferOf tx).spent,W.outPointAmount T o := by
  obtain ⟨b,hget⟩ := htx.found
  rw [sum_outPoints hget]
  refine (sum_tokenAmount_le hW hget hne hgate htx.validated).trans ?_
  obtain hcoinbase | hspent := htx.inputs
  · obtain ⟨txin,hvin,hnull⟩ := CTransaction.isCoinBase_singleton hcoinbase
    have hzero : W.inputAmount (W.tokenAmount T) txin=0 := by
      have hhash : txin.prevout.hash=0 := by
        rw [COutPoint.isNull,Bool.and_eq_true,Uint256.isNull_iff] at hnull
        exact hnull.1
      rw [inputAmount,hhash,hW.null]
      split_ifs <;> rfl
    rw [hvin,List.map_singleton,List.sum_singleton,hzero]
    exact Finset.sum_nonneg fun o _ => outPointAmount_nonneg hW o
  · have hinter : unspentOutPoints before∩(transferOf tx).spent=(transferOf tx).spent := by
      rw [Finset.inter_eq_right]
      intro o ho
      obtain ⟨vin,hvin,rfl⟩ := List.mem_map.mp (List.mem_toFinset.mp ho)
      exact hspent vin hvin
    have hsum : ∑o∈(transferOf tx).spent,W.outPointAmount T o=
        (tx.vin.map fun vin => W.outPointAmount T vin.prevout).sum := by
      rw [transferOf,List.sum_toFinset _ htx.prevouts,List.map_map]
      rfl
    rw [hinter,hsum]
    exact List.sum_le_sum fun vin _ => (inputAmount_le hW vin).2

end Conservation

/-- On a chain without the gate the unspent tokens are never more than the creation
made, whatever the other transactions look like. -/
theorem tokens_conserved (W : World) (hW : W.Indexed) (site : CTransaction → Site)
    (chain : List CTransaction) (hchain : W.TokenChain site chain)
    (hgate : ∀tx∈chain,¬(site tx).AcceptsAll) (T : Uint256) :
    W.unspentAmount T chain≤W.createdAmount T := by
  have hsupply : 0≤W.createdAmount T := by
    unfold createdAmount
    cases hget : W.getTransaction T with
    | none => exact le_refl 0
    | some p => exact Finset.sum_nonneg fun v _ => (tokenAmount_le hW hget v).1
  refine (sum_unspent_le_supply (outPointAmount_nonneg (T := T) hW) hsupply transferOf
    (fun tx => tx.hash=T) chain ?_ ?_).1
  · intro tx before hsuffix hne
    have hmem : tx∈chain := hsuffix.subset (by simp)
    exact created_le_spent hW (hchain tx before hsuffix) (Ne.symm hne) (hgate tx hmem)
  · intro tx before hsuffix heq
    obtain ⟨⟨b,hget⟩,hfresh,-⟩ := hchain tx before hsuffix
    refine ⟨?_,?_⟩
    · have hcreated : W.createdAmount T=∑v∈Finset.range tx.vout.length,W.tokenAmount T tx v := by
        rw [createdAmount,← heq,hget]
      rw [hcreated]
      exact (sum_outPoints hget).le
    · intro t ht hmint
      exact hfresh t ht (hmint.trans heq.symm)

theorem tokenChain_cons {W : World} {site : CTransaction → Site} {tx : CTransaction}
    {before : List CTransaction} :
    W.TokenChain site (tx::before) ↔ W.Admitted site before tx ∧ W.TokenChain site before := by
  constructor
  · intro h
    exact ⟨h tx before List.suffix_rfl,
      fun t b hb => h t b (hb.trans (List.suffix_cons tx before))⟩
  · rintro ⟨htx,hbefore⟩ t b hb
    obtain heq | hsuffix := List.suffix_cons_iff.mp hb
    · obtain ⟨rfl,rfl⟩ := List.cons.inj heq
      exact htx
    · exact hbefore t b hsuffix

theorem tokenChain_nil (W : World) (site : CTransaction → Site) : W.TokenChain site [] := by
  intro tx before h
  exact absurd h (by simp)

/-- A transaction without token inputs is not validated. -/
theorem validated_of_normal {W : World} {site : Site} {tx : CTransaction}
    (h : (tx.vin.any fun vin => W.ismyvin EVAL_TOKENS vin.scriptSig)=false) :
    (∃vin∈tx.vin,W.IsTokenInput vin) → (W.tokensValidate site tx none).1=true := by
  rintro ⟨vin,hvin,hmine,-⟩
  rw [List.any_eq_false] at h
  exact absurd hmine (h vin hvin)

/-- Pays coins to key 7. -/
def coinTx : CTransaction :=
  plainTx 1 [⟨⟨0,0xFFFFFFFF⟩,[]⟩] [⟨100,33::keyOf 7++[0xac]⟩]

/-- Key 7 makes 100 tokens of them. -/
def creationTx : CTransaction :=
  plainTx 9 [⟨⟨1,0⟩,[]⟩] [⟨100,[2,0xf2,7,0xcc]⟩,⟨0,createScriptBy (keyOf 7) 0x61⟩]

/-- Key 7 gives 60 of the tokens to key 8. -/
def transferTx : CTransaction :=
  plainTx 3 [⟨⟨9,0⟩,[3,0xf2,7,1]⟩]
    [⟨60,[2,0xf2,8,0xcc]⟩,⟨40,[2,0xf2,7,0xcc]⟩,⟨0,transferScriptTo 9 (keyOf 8)⟩]

def transferWorld : World := ofKeys (indexOf [coinTx,creationTx,transferTx])

/-- Any chain but the one with the gate. -/
def plainSite (_ : CTransaction) : Site := Site.named "ZDX"

theorem transfer_conserves_tokens :
    transferWorld.createdAmount 9=100 ∧
      transferWorld.unspentAmount 9 [transferTx,creationTx,coinTx]≤
        transferWorld.createdAmount 9 := by
  refine ⟨by decide +kernel,?_⟩
  apply tokens_conserved transferWorld (indexed_ofKeys (by decide +kernel)) plainSite
  · simp only [tokenChain_cons]
    refine ⟨⟨⟨0,rfl⟩,by decide,.inr (by decide +kernel),by decide,fun _ => by decide +kernel⟩,
      ⟨⟨0,rfl⟩,by decide,.inr (by decide +kernel),by decide,validated_of_normal (by decide +kernel)⟩,
      ⟨⟨0,rfl⟩,by decide,.inl (by decide),by decide,validated_of_normal (by decide +kernel)⟩,
      tokenChain_nil transferWorld plainSite⟩
  · rintro tx - ⟨hsymbol,-⟩
    have hrogue : "ZDX"="ROGUE" := hsymbol
    exact absurd hrogue (by decide)

/-- A transfer of 500 tokens that has no token inputs; no contract looks at it. -/
def forgedTx : CTransaction :=
  plainTx 2 [⟨⟨0,0xFFFFFFFF⟩,[]⟩] [⟨500,[2,0xf2,8,0xcc]⟩,⟨0,transferScriptTo 9 (keyOf 8)⟩]

/-- Key 8 gives itself the forged tokens. -/
def laundryTx : CTransaction :=
  plainTx 3 [⟨⟨2,0⟩,[3,0xf2,8,1]⟩] [⟨500,[2,0xf2,8,0xcc]⟩,⟨0,transferScriptTo 9 (keyOf 8)⟩]

def rogueWorld : World := ofKeys (indexOf [coinTx,creationTx,forgedTx,laundryTx])

def rogueSite (_ : CTransaction) : Site := Site.named "ROGUE"

theorem rogue_chain_forges_tokens :
    rogueWorld.TokenChain rogueSite [laundryTx,forgedTx,creationTx,coinTx] ∧
      ¬rogueWorld.unspentAmount 9 [laundryTx,forgedTx,creationTx,coinTx]≤
        rogueWorld.createdAmount 9 := by
  refine ⟨?_,by decide +kernel⟩
  simp only [tokenChain_cons]
  exact ⟨⟨⟨0,rfl⟩,by decide,.inr (by decide +kernel),by decide,fun _ => by decide +kernel⟩,
    ⟨⟨0,rfl⟩,by decide,.inl (by decide),by decide,validated_of_normal (by decide +kernel)⟩,
    ⟨⟨0,rfl⟩,by decide,.inr (by decide +kernel),by decide,validated_of_normal (by decide +kernel)⟩,
    ⟨⟨0,rfl⟩,by decide,.inl (by decide),by decide,validated_of_normal (by decide +kernel)⟩,
    tokenChain_nil rogueWorld rogueSite⟩

end World

end Zdeex.Cc
