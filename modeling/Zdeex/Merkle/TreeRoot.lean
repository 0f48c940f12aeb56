import Mathlib.Data.Nat.Basic
import Mathlib.Tactic.Common
import Zdeex.Merkle.IncrementalMerkleTree

namespace Zdeex.Merkle

open Zdeex.Framework NodeHash

namespace IncrementalMerkleTree

variable {H : Type}

/-- The parents never end in an empty slot. -/
def Canonical (parents : List (Option H)) : Prop := parents.getLast?≠some none

/-- The tree after appending the leaves `L` one by one. -/
inductive Represents (O : HashClass H) : IncrementalMerkleTree H → List H → Prop
  | empty : Represents O new []
  | odd {parents : List (Option H)} {P : List H} (a : H) :
      O.Frontier 1 parents P → Canonical parents → Represents O ⟨some a,none,parents⟩ (P++[a])
  | even {parents : List (Option H)} {P : List H} (a b : H) :
      O.Frontier 1 parents P → Canonical parents → Represents O ⟨some a,some b,parents⟩ (P++[a,b])

section Frontier

variable {O : HashClass H}

theorem canonical_tail {s : Option H} {ss : List (Option H)} (h : Canonical (s::ss))
    (hss : ss≠[]) : Canonical ss := by
  unfold Canonical at h ⊢
  rwa [List.getLast?_cons_of_ne_nil hss] at h

theorem carry_ne_nil (N : NodeHash H) (d : Nat) (h : H) (ss : List (Option H)) :
    N.carry d h ss≠[] := by
  match ss with
  | [] => simp [carry]
  | none::ss => simp [carry]
  | some s::ss => simp [carry]

theorem canonical_carry (N : NodeHash H) (d : Nat) (h : H) {ss : List (Option H)}
    (hss : Canonical ss) : Canonical (N.carry d h ss) := by
  induction ss generalizing d h with
  | nil => simp [carry,Canonical]
  | cons s ss ih =>
    cases s with
    | none =>
      by_cases hne : ss=[]
      · subst ss
        simp [carry,Canonical]
      · have := canonical_tail hss hne
        unfold Canonical at this ⊢
        rwa [carry,List.getLast?_cons_of_ne_nil hne]
    | some s =>
      have htail : Canonical ss := by
        by_cases hne : ss=[]
        · subst ss
          simp [Canonical]
        · exact canonical_tail hss hne
      have := ih (d+1) (N.combine s h d) htail
      unfold Canonical at this ⊢
      rwa [carry,List.getLast?_cons_of_ne_nil (carry_ne_nil N _ _ _)]

/-- The highest slot is filled, which bounds the leaves from below. -/
theorem le_two_mul_length {N : NodeHash H} {d : Nat} {ss : List (Option H)} {P : List H}
    (h : N.Frontier d ss P) (hss : ss≠[]) (hc : Canonical ss) : 2^(d+ss.length)≤2*P.length := by
  induction h with
  | nil d => exact absurd rfl hss
  | @hole d ss P _ ih =>
    have hne : ss≠[] := by
      rintro rfl
      simp [Canonical] at hc
    have := ih hne (canonical_tail hc hne)
    rwa [List.length_cons,show d+(ss.length+1)=d+1+ss.length by omega]
  | @block d ss P B hB h ih =>
    rw [List.length_append,hB,List.length_cons]
    by_cases hne : ss=[]
    · subst ss
      rw [List.length_nil,pow_succ]
      omega
    · have := ih hne (canonical_tail hc hne)
      rw [show d+(ss.length+1)=d+1+ss.length by omega]
      omega

theorem capacity_eq_zero_iff (d : Nat) (ss : List (Option H)) :
    capacity d ss=0 ↔ ss.all Option.isSome=true := by
  induction ss generalizing d with
  | nil => simp [capacity]
  | cons s ss ih =>
    cases s with
    | none =>
      have : 0<2^d := Nat.pos_of_ne_zero (by simp)
      simp [capacity]
    | some s => simpa [capacity] using ih (d+1)

/-- The fuel of the loop never runs out while there is room. -/
theorem propagate_eq_carry (O : HashClass H) (n i : Nat) (h : H) (ss : List (Option H))
    (hn : ss.length<n) : propagate O n i h ss=O.carry (i+1) h ss := by
  induction ss generalizing n i h with
  | nil =>
    match n,hn with
    | n+1,_ => rfl
  | cons s ss ih =>
    match n,hn with
    | n+1,hn =>
      cases s with
      | none => rfl
      | some s =>
        rw [propagate,carry,ih n (i+1) _ (by simpa using hn)]

end Frontier

section Append

variable {O : HashClass H} {Depth : Nat} {t : IncrementalMerkleTree H} {L : List H}

theorem Represents.parents_length_lt (h : Represents O t L) (hD : 1≤Depth)
    (hL : L.length≤2^Depth) : t.parents.length<Depth := by
  have key : ∀{ps : List (Option H)} {P : List H},O.Frontier 1 ps P → Canonical ps →
      P.length+1≤2^Depth → ps.length<Depth := by
    intro ps P hf hc hP
    by_cases hne : ps=[]
    · subst ps
      exact hD
    · have hlow := le_two_mul_length hf hne hc
      have hpow : 2^(1+ps.length)<2^(Depth+1) := by
        rw [pow_succ 2 Depth]
        omega
      have := (Nat.pow_lt_pow_iff_right (by omega : 1<2)).mp hpow
      omega
  cases h with
  | empty => exact hD
  | odd a hf hc => exact key hf hc (by simpa using hL)
  | even a b hf hc => exact key hf hc (by simp at hL; omega)

/-- A subtree is complete exactly when it holds a power of two of leaves. -/
theorem Represents.isComplete_iff (h : Represents O t L) {depth : Nat} (hd : 1≤depth) :
    t.isComplete depth=true ↔ L.length=2^depth := by
  obtain ⟨k,rfl⟩ : ∃k,depth=k+1 := ⟨depth-1,by omega⟩
  cases h with
  | empty =>
    have : 0<2^(k+1) := Nat.pos_of_ne_zero (by simp)
    simp [isComplete,new]
    omega
  | @odd ps P a hf hc =>
    have hlen := hf.length_eq
    simp only [isComplete,List.length_append,List.length_singleton,pow_succ]
    simp
    omega
  | @even ps P a b hf hc =>
    have htotal := hf.length_add_capacity
    have hcap := capacity_eq_zero_iff 1 ps
    have hcomplete : (⟨some a,some b,ps⟩ : IncrementalMerkleTree H).isComplete (k+1)=true ↔
        ps.length=k ∧ capacity 1 ps=0 := by
      rw [hcap]
      simp [isComplete]
    rw [hcomplete,List.length_append,List.length_cons,List.length_singleton]
    constructor
    · rintro ⟨rfl,hzero⟩
      rw [hzero,show 1+ps.length=ps.length+1 by omega] at htotal
      omega
    · intro hL
      have hup : 2^(k+1)≤2^(1+ps.length) := by omega
      have hk : k+1≤1+ps.length := (Nat.pow_le_pow_iff_right (by omega : 1<2)).mp hup
      have hps : ps.length≤k := by
        by_cases hne : ps=[]
        · subst ps
          exact Nat.zero_le k
        · have hlow := le_two_mul_length hf hne hc
          have hpow : 2^(1+ps.length)<2^(k+1+1) := by
            rw [pow_succ 2 (k+1)]
            omega
          have := (Nat.pow_lt_pow_iff_right (by omega : 1<2)).mp hpow
          omega
      have heq : ps.length=k := by omega
      refine ⟨heq,?_⟩
      rw [heq,show 1+k=k+1 by omega] at htotal
      omega

theorem Represents.append (h : Represents O t L) (hD : 1≤Depth) (hL : L.length<2^Depth) (x : H) :
    ∃t',t.append O Depth x=(.ok (),t') ∧ Represents O t' (L++[x]) := by
  have hroom : t.isComplete Depth=false := by
    rw [Bool.eq_false_iff]
    intro hc
    have := (h.isComplete_iff hD).mp hc
    omega
  have hlen := h.parents_length_lt hD (by omega)
  unfold IncrementalMerkleTree.append
  rw [if_neg (by simp [hroom])]
  cases h with
  | empty => exact ⟨_,rfl,.odd (P := []) x (.nil 1) (by simp [Canonical,new])⟩
  | @odd ps P a hf hc =>
    refine ⟨_,rfl,?_⟩
    rw [List.append_assoc]
    exact .even a x hf hc
  | @even ps P a b hf hc =>
    refine ⟨_,rfl,?_⟩
    have hroot : O.combine a b 0=O.treeRoot 1 [a,b] := rfl
    rw [propagate_eq_carry O Depth 0 _ ps hlen,hroot]
    exact .odd x (hf.carry rfl) (canonical_carry _ _ _ hc)

theorem Represents.append_full (h : Represents O t L) (hD : 1≤Depth) (hL : L.length=2^Depth)
    (x : H) : t.append O Depth x=(.error "tree is full",t) := by
  unfold IncrementalMerkleTree.append
  rw [if_pos ((h.isComplete_iff hD).mpr hL)]

theorem Represents.appendAll (h : Represents O t L) (hD : 1≤Depth) (M : List H)
    (hL : L.length+M.length≤2^Depth) :
    ∃t',t.appendAll O Depth M=(.ok (),t') ∧ Represents O t' (L++M) := by
  induction M generalizing t L with
  | nil => exact ⟨t,rfl,by simpa using h⟩
  | cons x M ih =>
    rw [List.length_cons] at hL
    obtain ⟨t₁,h₁,hrep⟩ := h.append hD (by omega) x
    obtain ⟨t',h',hrep'⟩ := ih hrep (by simp; omega)
    refine ⟨t',?_,by simpa using hrep'⟩
    rw [IncrementalMerkleTree.appendAll,h₁]
    exact h'

end Append

section Root

variable {O : HashClass H}

theorem rootAbove_eq (n d : Nat) (h : H) (q : List H) :
    rootAbove O n d h q=O.foldPath d h (O.siblings d (List.replicate n none) q) := by
  induction n generalizing d h q with
  | zero => rfl
  | succ n ih => exact ih (d+1) _ _

theorem rootParents_depth (ps : List (Option H)) (d : Nat) (h : H) (q : List H) :
    (rootParents O ps d h q).2.1=d+ps.length := by
  induction ps generalizing d h q with
  | nil => rfl
  | cons p ps ih =>
    cases p <;> simp only [rootParents,ih,List.length_cons] <;> omega

/-- Both loops of `root` together climb through the parents and the missing
levels above them. -/
theorem rootAbove_rootParents (ps : List (Option H)) (n d : Nat) (h : H) (q : List H) :
    rootAbove O n (rootParents O ps d h q).2.1 (rootParents O ps d h q).1
      (rootParents O ps d h q).2.2=
      O.foldPath d h (O.siblings d (ps++List.replicate n none) q) := by
  induction ps generalizing d h q with
  | nil => exact rootAbove_eq n d h q
  | cons p ps ih =>
    cases p with
    | none => exact ih (d+1) _ _
    | some p => exact ih (d+1) _ _

/-- The slots above the last leaf, filled up to the height of the tree. -/
def slots (Depth : Nat) (t : IncrementalMerkleTree H) : List (Option H) :=
  (if t.right.isSome then t.left else none)::
    (t.parents++List.replicate (Depth-(1+t.parents.length)) none)

/-- The last leaf stands alone in its block of height 0. -/
theorem Represents.lastLeaf {t : IncrementalMerkleTree H} {L : List H} (h : Represents O t L)
    (hL : L≠[]) (Depth : Nat) : ∃P x,L=P++[x] ∧ t.last=.ok x ∧ O.Frontier 0 (slots Depth t) P ∧
      ∀q,t.rootAt O Depth q=O.foldPath 0 x (O.siblings 0 (slots Depth t) q) := by
  cases h with
  | empty => exact absurd rfl hL
  | @odd ps P a hf hc =>
    refine ⟨P,a,rfl,rfl,.hole (hf.pad _),fun q => ?_⟩
    simp only [rootAt,rootParents_depth]
    have := rootAbove_rootParents (O := O) ps (Depth-(1+ps.length)) 1
      (O.combine a (O.next q 0).1 0) (O.next q 0).2
    rw [rootParents_depth] at this
    exact this
  | @even ps P a b hf hc =>
    refine ⟨P++[a],b,by simp,rfl,?_,fun q => ?_⟩
    · have hblock : O.Frontier 0 (some (O.treeRoot 0 [a])::
          (ps++List.replicate (Depth-(1+ps.length)) none)) (P++[a]) := .block rfl (hf.pad _)
      exact hblock
    · simp only [rootAt,rootParents_depth]
      have := rootAbove_rootParents (O := O) ps (Depth-(1+ps.length)) 1 (O.combine a b 0) q
      rw [rootParents_depth] at this
      exact this

theorem Represents.eq_new {t : IncrementalMerkleTree H} (h : Represents O t []) : t=new := by
  generalize hL : ([] : List H)=L at h
  cases h with
  | empty => rfl
  | odd a _ _ => simp at hL
  | even a b _ _ => simp at hL

theorem slots_length {Depth : Nat} {t : IncrementalMerkleTree H} (h : t.parents.length<Depth) :
    (slots Depth t).length=Depth := by
  simp only [slots,List.length_cons,List.length_append,List.length_replicate]
  omega

/-- The root of an empty tree is read off the empty leaves. -/
theorem rootAt_new (O : HashClass H) (Depth : Nat) (hD : 1≤Depth) :
    (new : IncrementalMerkleTree H).rootAt O Depth []=
      O.foldPath 0 (O.empty 0) (O.siblings 0 (List.replicate Depth none) []) := by
  obtain ⟨n,rfl⟩ : ∃n,Depth=n+1 := ⟨Depth-1,by omega⟩
  simp only [rootAt,new,rootParents,Nat.add_sub_cancel,rootAbove_eq]
  rfl

theorem Represents.root_eq (hO : O.Lawful) {t : IncrementalMerkleTree H} {L : List H}
    (h : Represents O t L) {Depth : Nat} (hD : 1≤Depth) (hL : L.length≤2^Depth) :
    t.root O Depth=O.treeRoot Depth L := by
  by_cases hne : L=[]
  · subst L
    obtain rfl := h.eq_new
    have hpad : O.Frontier 0 (List.replicate Depth none) [] := (Frontier.nil 0).pad Depth
    have hfold := hpad.foldPath_eq [] [] [] (by simp) (.inr rfl) (supplies_nil hO _ _)
    rw [root,rootAt_new O Depth hD]
    simpa [treeRoot] using hfold
  · obtain ⟨P,x,rfl,-,hf,hroot⟩ := h.lastLeaf hne Depth
    have hlen := slots_length (h.parents_length_lt hD hL)
    have hfold := hf.foldPath_eq [] [] [x] (by simp) (.inl rfl) (supplies_nil hO _ _)
    rw [hlen,Nat.zero_add,List.append_nil] at hfold
    rw [root,hroot]
    exact hfold

/-- The incremental tree has the root of the full tree at every leaf count, and
`append` throws exactly when all leaves are taken, leaving the tree as it was. -/
theorem root_is_fullRoot (O : HashClass H) (hO : O.Lawful) (Depth : Nat) (hD : 1≤Depth)
    (L : List H) (hL : L.length≤2^Depth) :
    ∃t,(new : IncrementalMerkleTree H).appendAll O Depth L=(.ok (),t) ∧
      t.root O Depth=O.treeRoot Depth L ∧
      ∀x,(L.length<2^Depth → ∃t',t.append O Depth x=(.ok (),t')) ∧
        (L.length=2^Depth → t.append O Depth x=(.error "tree is full",t)) := by
  obtain ⟨t,ht,hrep⟩ := (Represents.empty (O := O)).appendAll hD L (by simpa using hL)
  rw [List.nil_append] at hrep
  refine ⟨t,ht,hrep.root_eq hO hD hL,fun x => ⟨fun hlt => ?_,fun heq => ?_⟩⟩
  · obtain ⟨t',ht',-⟩ := hrep.append hD hlt x
    exact ⟨t',ht'⟩
  · exact hrep.append_full hD heq x

theorem root_is_fullRoot_three :
    ∃t,(new : IncrementalMerkleTree Uint256).appendAll addHash 2 [5,6,7]=(.ok (),t) ∧
      t.root addHash 2=addHash.treeRoot 2 [5,6,7] ∧
      ∃t',t.append addHash 2 8=(.ok (),t') := by
  obtain ⟨t,ht,hroot,happend⟩ :=
    root_is_fullRoot addHash addHash_lawful 2 (by decide) [5,6,7] (by decide)
  exact ⟨t,ht,hroot,(happend 8).1 (by decide)⟩

end Root

end IncrementalMerkleTree

end Zdeex.Merkle
