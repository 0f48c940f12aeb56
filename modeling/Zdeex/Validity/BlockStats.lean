import Mathlib.Algebra.BigOperators.Group.List.Basic
import Mathlib.Data.Nat.ModEq
import Zdeex.Validity.TotalRuns

namespace Zdeex.Validity

open Zdeex.Framework Zdeex.Block

variable {c : Stat → Nat} {x : Stat} {tx : CTransaction} {vtx : List CTransaction}

section Bumps

/-- Additions to counters, one after the other. -/
def bumps (c : Stat → Nat) (l : List (Stat × Nat)) : Stat → Nat :=
  l.foldl (fun c a => bump c a.1 a.2) c

/-- What a list of additions has for one counter. -/
def tally (l : List (Stat × Nat)) (x : Stat) : Nat :=
  (l.map (fun a => if x=a.1 then a.2 else 0)).sum

theorem tally_append (l m : List (Stat × Nat)) (x : Stat) :
    tally (l++m) x=tally l x+tally m x := by
  rw [tally,List.map_append,List.sum_append]
  rfl

theorem bump_modEq (c : Stat → Nat) (y : Stat) (n : Nat) (x : Stat) :
    bump c y n x≡c x+(if x=y then n else 0) [MOD 2^32] := by
  by_cases h : x=y
  · rw [if_pos h,h,bump,Function.update_self]
    exact Nat.mod_modEq _ _
  · rw [if_neg h,bump,Function.update_of_ne h]
    rfl

theorem bumps_modEq (c : Stat → Nat) (l : List (Stat × Nat)) (x : Stat) :
    bumps c l x≡c x+tally l x [MOD 2^32] := by
  induction l generalizing c with
  | nil => rfl
  | cons a l ih =>
    have hrest := (ih (bump c a.1 a.2)).trans ((bump_modEq c a.1 a.2 x).add_right (tally l x))
    rwa [Nat.add_assoc] at hrest

theorem bump_lt (h : ∀x,c x<2^32) (y : Stat) (n : Nat) (x : Stat) : bump c y n x<2^32 := by
  by_cases hx : x=y
  · rw [hx,bump,Function.update_self]
    exact Nat.mod_lt _ (by decide)
  · rw [bump,Function.update_of_ne hx]
    exact h x

theorem bumps_lt (h : ∀x,c x<2^32) (l : List (Stat × Nat)) (x : Stat) : bumps c l x<2^32 := by
  induction l generalizing c with
  | nil => exact h x
  | cons a l ih => exact ih (bump_lt h a.1 a.2)

end Bumps

section Own

def isShielded (tx : CTransaction) : Bool :=
  decide (0<tx.vShieldedSpend.length+tx.vShieldedOutput.length)

/-- The kind of a shielded transaction. -/
def kindAdds (tx : CTransaction) : List (Stat × Nat) :=
  if tx.vin.length=0 ∧ tx.vout.length=0 then [(.fullyShieldedTx,1)]
  else if 0<tx.vin.length then [(.shieldingTx,1)]
  else [(.deshieldingTx,1)]

/-- The payments of a shielded transaction. -/
def paymentAdds (tx : CTransaction) : List (Stat × Nat) :=
  if 1≤tx.vShieldedOutput.length then
    [(.shieldedPayments,withoutChange tx.vShieldedOutput.length),
      (.shieldedPayments,tx.vout.length)]++
      if tx.vin.length=0 ∧ tx.vout.length=0 then
        [(.fullyShieldedPayments,withoutChange tx.vShieldedOutput.length)]
      else [(.shieldingPayments,withoutChange tx.vShieldedOutput.length),
        (.shieldedPayments,tx.vout.length)]
  else if 1≤tx.vShieldedSpend.length then
    [(.shieldedPayments,tx.vout.length),(.deshieldingPayments,withoutChange tx.vout.length)]
  else []

/-- What a transaction adds up to the payments of a shielded one. -/
def firstAdds (tx : CTransaction) : List (Stat × Nat) :=
  (if looksNotarization tx then [(.notarizations,1)] else [])++
    if isShielded tx then (.shieldedTx,1)::kindAdds tx++paymentAdds tx
    else [(.payments,withoutChange tx.vout.length)]

def lastAdds (tx : CTransaction) : List (Stat × Nat) :=
  [(.shieldedOutputs,tx.vShieldedOutput.length),(.shieldedSpends,tx.vShieldedSpend.length)]

/-- What a transaction stands for by itself. -/
def own (tx : CTransaction) (x : Stat) : Nat :=
  tally (firstAdds tx) x+tally (lastAdds tx) x+
    if x=.payments ∧ isShielded tx=true then tally (firstAdds tx) .shieldedPayments else 0

theorem bumps_kindAdds (c : Stat → Nat) (tx : CTransaction) : bumps c (kindAdds tx)=
    if tx.vin.length=0 ∧ tx.vout.length=0 then bump c .fullyShieldedTx 1
    else if 0<tx.vin.length then bump c .shieldingTx 1
    else bump c .deshieldingTx 1 := by
  unfold kindAdds
  split_ifs <;> rfl

theorem bumps_paymentAdds (c : Stat → Nat) (tx : CTransaction) : bumps c (paymentAdds tx)=
    if 1≤tx.vShieldedOutput.length then
      let c := bump (bump c .shieldedPayments (withoutChange tx.vShieldedOutput.length))
        .shieldedPayments tx.vout.length
      if tx.vin.length=0 ∧ tx.vout.length=0 then
        bump c .fullyShieldedPayments (withoutChange tx.vShieldedOutput.length)
      else bump (bump c .shieldingPayments (withoutChange tx.vShieldedOutput.length))
        .shieldedPayments tx.vout.length
    else if 1≤tx.vShieldedSpend.length then
      bump (bump c .shieldedPayments tx.vout.length) .deshieldingPayments
        (withoutChange tx.vout.length)
    else c := by
  unfold paymentAdds
  split_ifs <;> rfl

theorem countTx_eq (c : Stat → Nat) (tx : CTransaction) : countTx c tx=
    bumps (if isShielded tx then bump (bumps c (firstAdds tx)) .payments
      (bumps c (firstAdds tx) .shieldedPayments) else bumps c (firstAdds tx)) (lastAdds tx) := by
  have hnotarization : ∀l,bumps c ((if looksNotarization tx=true then [(.notarizations,1)]
      else [])++l)=bumps (if looksNotarization tx=true then bump c .notarizations 1 else c) l := by
    intro l
    split_ifs <;> rfl
  rw [firstAdds,hnotarization,countTx]
  by_cases hs : isShielded tx=true
  · rw [if_pos hs,if_pos hs,if_pos (of_decide_eq_true hs)]
    generalize (if looksNotarization tx=true then bump c .notarizations 1 else c)=d
    have hparts : bumps d ((.shieldedTx,1)::kindAdds tx++paymentAdds tx)=
        bumps (bumps (bump d .shieldedTx 1) (kindAdds tx)) (paymentAdds tx) :=
      List.foldl_append
    rw [hparts,bumps_paymentAdds,bumps_kindAdds]
    rfl
  · rw [if_neg hs,if_neg hs,if_neg (fun h => hs (decide_eq_true h))]
    rfl

/-- A shielded transaction counts the shielded payments of the block before it once more. -/
theorem countTx_modEq (c : Stat → Nat) (tx : CTransaction) (x : Stat) :
    countTx c tx x≡c x+own tx x+
      (if x=.payments ∧ isShielded tx=true then c .shieldedPayments else 0) [MOD 2^32] := by
  have hfirst := bumps_modEq c (firstAdds tx)
  rw [countTx_eq,own]
  refine (bumps_modEq _ (lastAdds tx) x).trans ?_
  have hmiddle : (if isShielded tx=true then bump (bumps c (firstAdds tx)) .payments
      (bumps c (firstAdds tx) .shieldedPayments) else bumps c (firstAdds tx)) x≡
      c x+tally (firstAdds tx) x+(if x=.payments ∧ isShielded tx=true then
        c .shieldedPayments+tally (firstAdds tx) .shieldedPayments else 0) [MOD 2^32] := by
    by_cases hs : isShielded tx=true
    · rw [if_pos hs]
      refine (bump_modEq _ _ _ x).trans ?_
      by_cases hx : x=.payments
      · rw [if_pos hx,if_pos ⟨hx,hs⟩]
        exact (hfirst x).add (hfirst .shieldedPayments)
      · rw [if_neg hx,if_neg (fun h => hx h.1)]
        exact (hfirst x).add_right 0
    · rw [if_neg hs,if_neg (fun h => hs h.2)]
      exact hfirst x
  refine (hmiddle.add_right (tally (lastAdds tx) x)).trans ?_
  split_ifs
  · rw [(by omega : ∀a b d e f : Nat,a+b+(d+e)+f=a+(b+f+e)+d)]
  · rw [(by omega : ∀a b f : Nat,a+b+0+f=a+(b+f+0)+0)]

theorem countTx_lt (h : ∀x,c x<2^32) (tx : CTransaction) (x : Stat) : countTx c tx x<2^32 := by
  rw [countTx_eq]
  apply bumps_lt
  intro y
  split_ifs
  · exact bump_lt (bumps_lt h _) _ _ y
  · exact bumps_lt h _ y

end Own

section Block

/-- The shielded payments before each shielded transaction, which the payments count again. -/
def recounted : Nat → List CTransaction → Nat
  | _,[] => 0
  | before,tx::vtx =>
      (if isShielded tx then before else 0)+recounted (before+own tx .shieldedPayments) vtx

theorem recounted_modEq {m n : Nat} (h : m≡n [MOD 2^32]) (vtx : List CTransaction) :
    recounted m vtx≡recounted n vtx [MOD 2^32] := by
  induction vtx generalizing m n with
  | nil => rfl
  | cons tx vtx ih =>
    rw [recounted,recounted]
    refine Nat.ModEq.add ?_ (ih (h.add_right _))
    split_ifs
    · exact h
    · rfl

theorem foldl_countTx_modEq (c : Stat → Nat) (vtx : List CTransaction) (x : Stat) :
    vtx.foldl countTx c x≡c x+(vtx.map (fun tx => own tx x)).sum+
      (if x=.payments then recounted (c .shieldedPayments) vtx else 0) [MOD 2^32] := by
  induction vtx generalizing c with
  | nil =>
    rw [recounted,ite_self]
    rfl
  | cons tx vtx ih =>
    rw [List.foldl_cons,List.map_cons,List.sum_cons,recounted]
    refine (ih (countTx c tx)).trans ?_
    have hstep := (countTx_modEq c tx x).add_right (vtx.map (fun tx => own tx x)).sum
    have hshielded : countTx c tx .shieldedPayments≡
        c .shieldedPayments+own tx .shieldedPayments [MOD 2^32] :=
      countTx_modEq c tx .shieldedPayments
    by_cases hx : x=.payments
    · rw [if_pos hx,if_pos hx]
      refine (hstep.add (recounted_modEq hshielded vtx)).trans ?_
      rw [if_congr (and_iff_right hx) rfl rfl]
      refine congrArg (·%2^32) ?_
      omega
    · rw [if_neg hx,if_neg hx]
      rw [if_neg (fun h => hx h.1)] at hstep
      refine (hstep.add_right 0).trans ?_
      refine congrArg (·%2^32) ?_
      omega

theorem countBlock_modEq (vtx : List CTransaction) (x : Stat) :
    countBlock vtx x≡(vtx.map (fun tx => own tx x)).sum+
      (if x=.payments then recounted 0 vtx else 0) [MOD 2^32] := by
  have h := foldl_countTx_modEq (fun _ => 0) vtx x
  rwa [Nat.zero_add] at h

theorem countBlock_lt (vtx : List CTransaction) (x : Stat) : countBlock vtx x<2^32 := by
  have hrun : ∀c : Stat → Nat,(∀x,c x<2^32) → vtx.foldl countTx c x<2^32 := by
    induction vtx with
    | nil => exact fun c hc => hc x
    | cons tx vtx ih => exact fun c hc => ih (countTx c tx) (countTx_lt hc tx)
  exact hrun (fun _ => 0) (fun _ => by decide)

/-- Nothing is counted again where no shielded transaction comes after one with shielded
payments. -/
theorem recounted_eq_zero_iff (vtx : List CTransaction) : recounted 0 vtx=0 ↔
    vtx.Pairwise (fun t u => isShielded u=true → own t .shieldedPayments=0) := by
  have hgeneral : ∀n,recounted n vtx=0 ↔ (∀u∈vtx,isShielded u=true → n=0) ∧
      vtx.Pairwise (fun t u => isShielded u=true → own t .shieldedPayments=0) := by
    induction vtx with
    | nil => simp [recounted]
    | cons tx vtx ih =>
      intro n
      rw [recounted,Nat.add_eq_zero_iff,ih,List.forall_mem_cons,List.pairwise_cons]
      simp only [Nat.add_eq_zero_iff,ite_eq_right_iff,forall_and]
      tauto
  rw [hgeneral 0]
  exact and_iff_right (fun _ _ _ => rfl)

end Block

/-- The statistics of a block that are to be sums over its transactions. -/
def reported : List Stat :=
  [.payments,.shieldedPayments,.fullyShieldedPayments,.shieldingPayments,.deshieldingPayments,
    .shieldedTx,.shieldedOutputs,.shieldedSpends]

def Additive (vtx : List CTransaction) : Prop :=
  ∀x∈reported,countBlock vtx x=(vtx.map (fun tx => countBlock [tx] x)).sum

/-- The sums fit in the counters, and no shielded payments are counted again. -/
structure CountsOnce (vtx : List CTransaction) : Prop where
  fits : ∀x∈reported,(vtx.map (fun tx => own tx x%2^32)).sum<2^32
  once : recounted 0 vtx%2^32=0

theorem countBlock_single (tx : CTransaction) (x : Stat) : countBlock [tx] x=own tx x%2^32 := by
  have h := countBlock_modEq [tx] x
  have hnone : (if x=.payments then recounted 0 [tx] else 0)=0 := by
    rw [recounted,recounted,ite_self,ite_self]
  rw [hnone,List.map_singleton,List.sum_singleton] at h
  exact (Nat.mod_eq_of_lt (countBlock_lt [tx] x)).symm.trans h

theorem sum_mod (vtx : List CTransaction) (x : Stat) :
    (vtx.map (fun tx => own tx x)).sum%2^32=(vtx.map (fun tx => own tx x%2^32)).sum%2^32 := by
  induction vtx with
  | nil => rfl
  | cons tx vtx ih =>
    rw [List.map_cons,List.map_cons,List.sum_cons,List.sum_cons]
    omega

theorem countBlock_eq (vtx : List CTransaction) (x : Stat) :
    countBlock vtx x=((vtx.map (fun tx => own tx x%2^32)).sum+
      if x=.payments then recounted 0 vtx else 0)%2^32 := by
  have h : countBlock vtx x%2^32=_ := countBlock_modEq vtx x
  rw [Nat.mod_eq_of_lt (countBlock_lt vtx x)] at h
  rw [h,Nat.add_mod,sum_mod,← Nat.add_mod]

theorem additive_iff (vtx : List CTransaction) : Additive vtx ↔ CountsOnce vtx := by
  constructor
  · intro h
    have hsum : ∀x∈reported,((vtx.map (fun tx => own tx x%2^32)).sum+
        if x=.payments then recounted 0 vtx else 0)%2^32=
          (vtx.map (fun tx => own tx x%2^32)).sum := by
      intro x hx
      rw [← countBlock_eq,h x hx]
      simp only [countBlock_single]
    refine ⟨?_,?_⟩
    · intro x hx
      rw [← hsum x hx]
      exact Nat.mod_lt _ (by decide)
    · have hpayments := hsum .payments (by decide)
      rw [if_pos rfl] at hpayments
      omega
  · intro h x hx
    simp only [countBlock_single]
    rw [countBlock_eq]
    have hfits := h.fits x hx
    have honce := h.once
    split_ifs <;> omega

/-- The statistics are sums over the transactions of a block exactly where nothing is
counted again, and then they do not depend on the order. -/
theorem stats_additive (vtx : List CTransaction) : (Additive vtx ↔ CountsOnce vtx) ∧
    ∀vtx',vtx.Perm vtx' → CountsOnce vtx → CountsOnce vtx' →
      ∀x∈reported,countBlock vtx x=countBlock vtx' x := by
  refine ⟨additive_iff vtx,?_⟩
  intro vtx' hperm h h' x hx
  rw [(additive_iff vtx).mpr h x hx,(additive_iff vtx').mpr h' x hx]
  exact (hperm.map _).sum_eq

/-- A shielded transaction that spends a note and makes two, one of them the change. -/
def shieldedPayment (hash nullifier : Uint256) : CTransaction :=
  { hash := hash,fOverwintered := true,nVersion := 4,nVersionGroupId := SAPLING_VERSION_GROUP_ID,
    vin := [],vout := [],nExpiryHeight := 0,valueBalance := 0,vShieldedSpend := [⟨5,nullifier⟩],
    vShieldedOutput := [⟨1⟩,⟨2⟩],vjoinsplit := [] }

/-- Two shielded transactions with a payment each are three payments. -/
theorem payments_recounted : ¬∀vtx,Additive vtx := by
  intro hall
  have h := hall [shieldedPayment 1 11,shieldedPayment 2 12] .payments (by decide)
  revert h
  decide +kernel

namespace TotalState

variable {H : Type} [LinearOrder H]

/-- The statistics that a block is stored with. -/
theorem received_stat {s t : TotalState H} {pindexNew : H}
    (h : s.receivedBlockTransactions true pindexNew vtx=some t) :
    t.stat pindexNew=countBlock vtx := by
  have hloop : ∀n queue (u v : TotalState H),linkLoop true n queue u=some v → v.stat=u.stat := by
    intro n
    induction n with
    | zero =>
      intro queue u v hv
      cases queue with
      | nil => rw [← Option.some.inj hv]
      | cons b queue => cases hv
    | succ n ih =>
      intro queue u v hv
      cases queue with
      | nil => rw [← Option.some.inj hv]
      | cons b queue => exact (ih _ _ _ hv).trans (link_frame true u b).1
  have hstored : (s.storeBlock true pindexNew vtx).stat pindexNew=countBlock vtx :=
    Function.update_self _ _ _
  rw [← hstored]
  rw [receivedBlockTransactions] at h
  dsimp only at h
  split at h
  · rw [hloop _ _ _ _ h]
  · split_ifs at h
    · rw [hloop _ _ _ _ h]
    · rw [← Option.some.inj h]
    · rw [← Option.some.inj h]

end TotalState

end Zdeex.Validity
