import Mathlib.Data.BitVec
import Mathlib.Tactic.IntervalCases
import Zdeex.Merkle.IncrementalWitness

namespace Zdeex.Merkle

open Zdeex.Framework NodeHash

/-- The `int` expression `1 << i` where it is added to a `size_t`. -/
def shiftedOne (i : Nat) : BitVec 64 := (1#32 <<< i).signExtend 64

namespace IncrementalMerkleTree

variable {H : Type}

/-- The loop of `size` from parent `i` on. -/
def sizeParents : Nat → List (Option H) → BitVec 64 → BitVec 64
  | _,[],ret => ret
  | i,parent::parents,ret =>
      sizeParents (i+1) parents (if parent.isSome then ret+shiftedOne (i+1) else ret)

def size (t : IncrementalMerkleTree H) : BitVec 64 :=
  let ret := if t.left.isSome then (0 : BitVec 64)+1 else 0
  let ret := if t.right.isSome then ret+1 else ret
  sizeParents 0 t.parents ret

end IncrementalMerkleTree

/-- `position`, a `uint64_t`. -/
def IncrementalWitness.position {H : Type} (w : IncrementalWitness H) : BitVec 64 := w.tree.size-1

section Size

variable {H : Type}

open IncrementalMerkleTree

theorem shiftedOne_of_lt {i : Nat} (hi : i<31) : shiftedOne i=BitVec.ofNat 64 (2^i) := by
  interval_cases i <;> decide

/-- The sign bit of the `int` is extended. -/
theorem shiftedOne_sign : shiftedOne 31=BitVec.ofNat 64 (2^64-2^31) := by decide

theorem slotBits_lt (ps : List (Option H)) : slotBits ps<2^ps.length := by
  induction ps with
  | nil => exact Nat.one_pos
  | cons p ps ih =>
    have hbit : p.isSome.toNat≤1 := Bool.toNat_le _
    rw [slotBits,List.length_cons,pow_succ]
    omega

/-- Parents below the sign bit are counted as a binary number. -/
theorem sizeParents_eq {i : Nat} {ps : List (Option H)} (hi : i+ps.length≤30) (ret : BitVec 64) :
    sizeParents i ps ret=ret+BitVec.ofNat 64 (2^(i+1)*slotBits ps) := by
  induction ps generalizing i ret with
  | nil => simp [sizeParents,slotBits]
  | cons p ps ih =>
    rw [List.length_cons] at hi
    rw [sizeParents,ih (by omega)]
    cases p with
    | none =>
      have hbits : 2^(i+1)*slotBits ((none : Option H)::ps)=2^(i+1+1)*slotBits ps := by
        rw [slotBits,Option.isSome_none,Bool.toNat_false]
        ring
      rw [hbits]
      rfl
    | some h =>
      have hbits : 2^(i+1)*slotBits (some h::ps)=2^(i+1)+2^(i+1+1)*slotBits ps := by
        rw [slotBits,Option.isSome_some,Bool.toNat_true]
        ring
      rw [hbits,BitVec.ofNat_add,Option.isSome_some,if_pos rfl,shiftedOne_of_lt (by omega),
        BitVec.add_assoc]

theorem sizeParents_append (i : Nat) (ps qs : List (Option H)) (ret : BitVec 64) :
    sizeParents i (ps++qs) ret=sizeParents (i+ps.length) qs (sizeParents i ps ret) := by
  induction ps generalizing i ret with
  | nil => rfl
  | cons p ps ih =>
    rw [List.cons_append,sizeParents,sizeParents,ih,List.length_cons]
    congr 1
    omega

/-- The highest parent of a tree of 32 levels is counted as a negative `int`. -/
theorem sizeParents_top {ps : List (Option H)} (hps : ps.length=30) (h : H) (ret : BitVec 64) :
    sizeParents 0 (ps++[some h]) ret=
      ret+BitVec.ofNat 64 (2*slotBits ps)+BitVec.ofNat 64 (2^64-2^31) := by
  have htop : 0+ps.length+1=31 := by omega
  have hlow := @sizeParents_eq H 0 ps (by omega)
  rw [sizeParents_append,hlow,sizeParents,sizeParents,
    Option.isSome_some,if_pos rfl,htop,shiftedOne_sign,Nat.zero_add,pow_one]

theorem slotBits_concat (ps : List (Option H)) (p : Option H) :
    slotBits (ps++[p])=slotBits ps+2^ps.length*p.isSome.toNat := by
  induction ps with
  | nil => simp [slotBits]
  | cons q ps ih =>
    rw [List.cons_append,slotBits,slotBits,ih,List.length_cons,pow_succ]
    ring

/-- A tree of up to 2^31 leaves has at most 30 parents, a larger one has 31. -/
theorem sizeParents_represents {O : HashClass H} {ps : List (Option H)} {P : List H}
    (hf : O.Frontier 1 ps P) (hc : Canonical ps) (hlen : ps.length<32) {k : Nat} (hk1 : 1≤k)
    (hk2 : k≤2) :
    (sizeParents 0 ps (BitVec.ofNat 64 k)).toNat=P.length+k ↔ P.length+k≤2^31 := by
  have hP : P.length=2*slotBits ps := by simpa using hf.length_eq
  by_cases hshort : ps.length≤30
  · have hbits := slotBits_lt ps
    have hpow : 2^ps.length≤2^30 := Nat.pow_le_pow_right (by decide) hshort
    have hsize : (sizeParents 0 ps (BitVec.ofNat 64 k)).toNat=P.length+k := by
      rw [sizeParents_eq (by omega),← BitVec.ofNat_add,BitVec.toNat_ofNat,Nat.mod_eq_of_lt]
      · rw [hP]
        ring
      · omega
    exact iff_of_true hsize (by omega)
  · have hne : ps≠[] := by
      rintro rfl
      exact hshort (Nat.zero_le 30)
    obtain ⟨qs,q,rfl⟩ : ∃qs q,ps=qs++[q] := ⟨_,_,(List.dropLast_concat_getLast hne).symm⟩
    have hqs : qs.length=30 := by
      simp only [List.length_append,List.length_singleton] at hlen hshort
      omega
    obtain ⟨h,rfl⟩ : ∃h,q=some h := by
      cases q with
      | none => exact absurd List.getLast?_concat hc
      | some h => exact ⟨h,rfl⟩
    have hbits := slotBits_lt qs
    rw [slotBits_concat,hqs,Option.isSome_some,Bool.toNat_true] at hP
    rw [hqs] at hbits
    have hsize : (sizeParents 0 (qs++[some h]) (BitVec.ofNat 64 k)).toNat=
        (k+2*slotBits qs+(2^64-2^31))%2^64 := by
      rw [sizeParents_top hqs,← BitVec.ofNat_add,← BitVec.ofNat_add,BitVec.toNat_ofNat]
    rw [hsize,hP]
    omega

theorem size_represents {O : HashClass H} {t : IncrementalMerkleTree H} {L : List H}
    (h : Represents O t L) (hlen : t.parents.length<32) :
    t.size.toNat=L.length ↔ L.length≤2^31 := by
  cases h with
  | empty => exact iff_of_true rfl (Nat.zero_le _)
  | odd a hf hc =>
    rw [List.length_append]
    exact sizeParents_represents hf hc hlen (k := 1) (by decide) (by decide)
  | even a b hf hc =>
    rw [List.length_append]
    exact sizeParents_represents hf hc hlen (k := 2) (by decide) (by decide)

theorem IncrementalWitness.append_tree (O : HashClass H) (Depth : Nat) (w : IncrementalWitness H)
    (obj : H) : (w.append O Depth obj).2.tree=w.tree := by
  unfold IncrementalWitness.append
  split
  · split
    · rfl
    · split_ifs <;> rfl
  · dsimp only
    split_ifs <;> rfl

theorem IncrementalWitness.appendAll_tree (O : HashClass H) (Depth : Nat) (M : List H)
    (w : IncrementalWitness H) : (w.appendAll O Depth M).2.tree=w.tree := by
  induction M generalizing w with
  | nil => rfl
  | cons x M ih =>
    have hstep := w.append_tree O Depth x
    rw [IncrementalWitness.appendAll]
    split
    next w' heq =>
      rw [heq] at hstep
      rw [ih,hstep]
    next e w' heq =>
      rw [heq] at hstep
      exact hstep

/-- Up to 2^31 leaves the size of a tree and the position of a witness are exact, beyond that
both are wrong. -/
theorem size_is_leafCount_iff (O : HashClass H) (Depth : Nat) (hD : 1≤Depth) (h32 : Depth≤32) (L : List H)
    (hL : L.length≤2^Depth) :
    ∃t,(new : IncrementalMerkleTree H).appendAll O Depth L=(.ok (),t) ∧
      (t.size.toNat=L.length ↔ L.length≤2^31) ∧
      (L≠[] → ∀M,((t.witness.appendAll O Depth M).2.position.toNat=L.length-1 ↔
        L.length≤2^31)) := by
  obtain ⟨t,ht,hrep⟩ := (Represents.empty (O := O)).appendAll hD L (by simpa using hL)
  rw [List.nil_append] at hrep
  have hparents := hrep.parents_length_lt hD hL
  have hsize := size_represents hrep (by omega)
  refine ⟨t,ht,hsize,fun hne M => ?_⟩
  have hpos := List.length_pos_iff.mpr hne
  have htree : (t.witness.appendAll O Depth M).2.tree=t :=
    IncrementalWitness.appendAll_tree O Depth M t.witness
  have hpow : 2^Depth≤2^32 := Nat.pow_le_pow_right (by decide) h32
  rw [IncrementalWitness.position,htree,← hsize,BitVec.toNat_sub]
  have hlt := t.size.isLt
  change (2^64-1+t.size.toNat)%2^64=_ ↔ _
  omega

theorem size_is_leafCount_iff_three :
    ∃t,(new : IncrementalMerkleTree Uint256).appendAll addHash 32 [5,6,7]=(.ok (),t) ∧
      (t.size.toNat=3 ↔ 3≤2^31) ∧
      ((t.witness.appendAll addHash 32 [8]).2.position.toNat=2 ↔ 3≤2^31) := by
  obtain ⟨t,ht,hsize,hposition⟩ :=
    size_is_leafCount_iff addHash 32 (by decide) (by decide) [5,6,7] (by decide)
  exact ⟨t,ht,hsize,hposition (List.cons_ne_nil _ _) [8]⟩

/-- One leaf more than half of the Sapling tree. -/
theorem size_beyond_half :
    ∃t,(new : IncrementalMerkleTree Uint256).appendAll addHash 32
        (List.replicate (2^31+1) 5)=(.ok (),t) ∧ t.size.toNat≠2^31+1 := by
  have hlen : (List.replicate (2^31+1) (5 : Uint256)).length=2^31+1 := List.length_replicate
  obtain ⟨t,ht,hrep⟩ := @Represents.appendAll _ addHash 32 _ _ .empty (by decide)
    (List.replicate (2^31+1) 5) (by rw [List.length_nil,hlen]; decide)
  rw [List.nil_append] at hrep
  have hparents : t.parents.length<32 :=
    hrep.parents_length_lt (by decide) (by rw [hlen]; decide)
  refine ⟨t,ht,fun h => ?_⟩
  have hsize := size_represents hrep hparents
  rw [hlen] at hsize
  exact absurd (hsize.mp h) (by decide)

end Size

end Zdeex.Merkle
