import Zdeex.Block.CheckTransaction

namespace Zdeex.Block

open Zdeex.Framework
open Zdeex.Coins

namespace CTransaction

/-- A value of `CAmount`. -/
def IsAmount (x : Int) : Prop := -2^63≤x ∧ x<2^63

/-- The amounts that `GetValueOut` adds. -/
def valuesOut (tx : CTransaction) : List Int :=
  tx.vout.map CTxOut.nValue++(if tx.valueBalance≤0 then [-tx.valueBalance] else [])++
    tx.vjoinsplit.map JSDescription.vpubOld

/-- The amounts that `GetShieldedValueIn` adds. -/
def valuesIn (tx : CTransaction) : List Int :=
  (if 0≤tx.valueBalance then [tx.valueBalance] else [])++
    tx.vjoinsplit.map JSDescription.vpubNew

theorem sumInRange_some {MAX_MONEY : Int} {l : List Int} {a : Int} (hl : ∀x∈l,0≤x) (ha : 0≤a)
    (hsum : a+l.sum≤MAX_MONEY) : sumInRange MAX_MONEY l a=some (a+l.sum) := by
  induction l generalizing a with
  | nil => simp [sumInRange]
  | cons x l ih =>
    have hx := hl x (by simp)
    have hrest : ∀y∈l,0≤y := fun y hy => hl y (by simp [hy])
    have hnonneg := List.sum_nonneg hrest
    rw [List.sum_cons] at hsum
    have hrange : (moneyRange MAX_MONEY x && moneyRange MAX_MONEY (a+x))=true := by
      simp only [moneyRange,Bool.and_eq_true,decide_eq_true_eq]
      omega
    rw [sumInRange,hrange,if_pos rfl,ih hrest (by omega) (by omega),List.sum_cons]
    congr 1
    omega

/-- The function returns exactly when everything is an amount and so is the total. -/
theorem sumInRange_isSome_iff {MAX_MONEY : Int} (hmax : 0≤MAX_MONEY) (l : List Int) :
    (sumInRange MAX_MONEY l 0).isSome ↔ (∀x∈l,0≤x) ∧ l.sum≤MAX_MONEY := by
  constructor
  · intro h
    obtain ⟨total,htotal⟩ := Option.isSome_iff_exists.mp h
    refine ⟨fun x hx => (sumInRange_mem htotal x hx).1,?_⟩
    have hle := (sumInRange_le ⟨le_rfl,hmax⟩ htotal).2
    rwa [sumInRange_eq htotal,zero_add] at hle
  · rintro ⟨hl,hsum⟩
    rw [sumInRange_some hl le_rfl (by omega)]
    rfl

/-- The running sums of amounts with a small total. -/
theorem isAmount_sum_take {l : List Int} (hl : ∀x∈l,0≤x) (hsum : l.sum≤10^18) (k : Nat) :
    IsAmount (l.take k).sum := by
  have htake : 0≤(l.take k).sum := List.sum_nonneg fun x hx => hl x (List.mem_of_mem_take hx)
  have hdrop : 0≤(l.drop k).sum := List.sum_nonneg fun x hx => hl x (List.mem_of_mem_drop hx)
  have hsplit : l.sum=(l.take k).sum+(l.drop k).sum := by
    rw [←List.sum_append,List.take_append_drop]
  unfold IsAmount
  omega

end CTransaction

/-- What the rest of the node relies on in an accepted transaction. -/
structure SafeValues (R : TxRules) (tiptime : Nat) (tx : CTransaction) : Prop where
  valueOut : (tx.getValueOut R.MAX_MONEY).isSome
  sumsOut : ∀k,CTransaction.IsAmount (tx.valuesOut.take k).sum
  shieldedIn : (tx.getShieldedValueIn R.MAX_MONEY).isSome
  sumsIn : ∀k,CTransaction.IsAmount (tx.valuesIn.take k).sum
  prevouts : (tx.vin.map CTxIn.prevout).Nodup
  nullifiers : (tx.vShieldedSpend.map SpendDescription.nullifier).Nodup
  notaries : R.ASSETCHAINS_PRIVATE=true → tx.isCoinBase=false → ∀o∈tx.vout,0 < o.nValue →
    R.isNotaryVout o.scriptPubKey tiptime=true

/-- No JoinSplit takes or gives a negative amount, and none takes a total above the
limit. -/
structure JoinSplitsInRange (MAX_MONEY : Int) (tx : CTransaction) : Prop where
  nonneg : ∀js∈tx.vjoinsplit,0≤js.vpubOld ∧ 0≤js.vpubNew
  old : (tx.vout.map CTxOut.nValue).sum+max (-tx.valueBalance) 0+
    (tx.vjoinsplit.map JSDescription.vpubOld).sum≤MAX_MONEY
  new : max tx.valueBalance 0+(tx.vjoinsplit.map JSDescription.vpubNew).sum≤MAX_MONEY

section Accepted

variable {R : TxRules} {tiptime : Nat} {tx : CTransaction}

theorem invalidPrivateTaddr_false (h : invalidPrivateTaddr R tiptime tx=false)
    (hprivate : R.ASSETCHAINS_PRIVATE=true) (hcb : tx.isCoinBase=false) :
    ∀o∈tx.vout,0 < o.nValue → R.isNotaryVout o.scriptPubKey tiptime=true := by
  intro o ho hpos
  by_contra hnot
  have hany : invalidPrivateTaddr R tiptime tx=true := by
    unfold invalidPrivateTaddr
    rw [hprivate,hcb]
    simp only [Bool.true_and,Bool.not_false,List.any_eq_true]
    exact ⟨o,ho,by simp [hpos,hnot]⟩
  rw [hany] at h
  cases h

/-- The limits that the check of the balance leaves. -/
theorem checkValueBalance_ok {nValueOut : Int}
    (h : checkValueBalance R tiptime tx nValueOut=.ok ()) :
    invalidPrivateTaddr R tiptime tx=false ∧ tx.valueBalance≤R.MAX_MONEY ∧
      (tx.valueBalance≤0 → 0≤R.MAX_MONEY) := by
  simp only [checkValueBalance,bind_ok,reject_ok] at h
  obtain ⟨_,-,_,-,_,-,_,hlarge,_,hrange,hprivate⟩ := h
  refine ⟨by simpa using hprivate,by omega,fun hneg => ?_⟩
  have hmoney : moneyRange R.MAX_MONEY (nValueOut-tx.valueBalance)=true := by
    by_contra hnot
    exact hrange ⟨hneg,by simpa using hnot⟩
  simp only [moneyRange,decide_eq_true_eq] at hmoney
  omega

theorem sum_valuesOut (tx : CTransaction) :
    tx.valuesOut.sum=(tx.vout.map CTxOut.nValue).sum+max (-tx.valueBalance) 0+
      (tx.vjoinsplit.map JSDescription.vpubOld).sum := by
  unfold CTransaction.valuesOut
  rw [List.sum_append,List.sum_append]
  split_ifs with hneg
  · rw [List.sum_singleton,max_eq_left (by omega)]
  · rw [List.sum_nil,max_eq_right (by omega)]

theorem sum_valuesIn (tx : CTransaction) :
    tx.valuesIn.sum=max tx.valueBalance 0+(tx.vjoinsplit.map JSDescription.vpubNew).sum := by
  unfold CTransaction.valuesIn
  rw [List.sum_append]
  split_ifs with hpos
  · rw [List.sum_singleton,max_eq_left (by omega)]
  · rw [List.sum_nil,max_eq_right (by omega)]

theorem valuesOut_nonneg_iff (hvout : ∀o∈tx.vout,0≤o.nValue) :
    (∀x∈tx.valuesOut,0≤x) ↔ ∀js∈tx.vjoinsplit,0≤js.vpubOld := by
  unfold CTransaction.valuesOut
  constructor
  · intro h js hjs
    exact h _ (List.mem_append_right _ (List.mem_map_of_mem hjs))
  · intro h x hx
    rcases List.mem_append.mp hx with hx | hx
    · rcases List.mem_append.mp hx with hx | hx
      · obtain ⟨o,ho,rfl⟩ := List.mem_map.mp hx
        exact hvout o ho
      · split_ifs at hx with hneg
        · rw [List.mem_singleton.mp hx]
          omega
        · cases hx
    · obtain ⟨js,hjs,rfl⟩ := List.mem_map.mp hx
      exact h js hjs

theorem valuesIn_nonneg_iff :
    (∀x∈tx.valuesIn,0≤x) ↔ ∀js∈tx.vjoinsplit,0≤js.vpubNew := by
  unfold CTransaction.valuesIn
  constructor
  · intro h js hjs
    exact h _ (List.mem_append_right _ (List.mem_map_of_mem hjs))
  · intro h x hx
    rcases List.mem_append.mp hx with hx | hx
    · split_ifs at hx with hpos
      · rw [List.mem_singleton.mp hx]
        exact hpos
      · cases hx
    · obtain ⟨js,hjs,rfl⟩ := List.mem_map.mp hx
      exact h js hjs

def openRules : TxRules :=
  ⟨10^18,false,false,0,fun _ => false,fun _ _ => false,fun _ => true,fun _ => true,
    fun _ => false,fun _ _ => true,fun _ _ => false,fun _ _ => none⟩

/-- One input, one output of a coin and one JoinSplit. -/
def joinSplitTx (vpubOld vpubNew : Int) : CTransaction :=
  ⟨1,true,4,SAPLING_VERSION_GROUP_ID,[⟨⟨7,0⟩,[]⟩],[⟨100000000,[]⟩],0,0,[],[],
    [⟨vpubOld,vpubNew⟩]⟩

end Accepted

end Zdeex.Block
