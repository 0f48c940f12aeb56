import Mathlib.Data.List.GetD
import Mathlib.Data.List.Nodup
import Mathlib.Data.Nat.Bitwise
import Mathlib.Tactic.Common
import Mathlib.Tactic.Ring

namespace Zdeex.Framework.MerkleTree

section Levels

variable {α : Type}

/-- The pairs of nodes that are hashed together; a last odd node goes with itself. -/
def pairs : List α → List (α × α)
  | [] => []
  | [a] => [(a,a)]
  | a::b::level => (a,b)::pairs level

variable (hash : α → α → α)

/-- The level above. -/
def up (level : List α) : List α := (pairs level).map fun p => hash p.1 p.2

/-- All nodes, level after level, from this one to the root. -/
def build : Nat → List α → List α
  | 0,level => level
  | n+1,level => if 1 < level.length then level++build n (up hash level) else level

variable (d : α)

def root : Nat → List α → α
  | 0,level => level.getD 0 d
  | n+1,level => if 1 < level.length then root n (up hash level) else level.getD 0 d

/-- A level of even length ends with two equal nodes. -/
def EndTwins (level : List α) : Prop :=
  1<level.length ∧ level.length%2=0 ∧ level.getD (level.length-2) d=level.getD (level.length-1) d

instance [DecidableEq α] (level : List α) : Decidable (EndTwins d level) :=
  inferInstanceAs (Decidable (_ ∧ _ ∧ _))

/-- Some level of the tree does. -/
def mutated [DecidableEq α] : Nat → List α → Bool
  | 0,_ => false
  | n+1,level =>
      if 1 < level.length then decide (EndTwins d level) || mutated n (up hash level) else false

/-- The siblings on the way from a node of a level with `nSize` nodes, which begins at `j`,
to the root. -/
def branch (tree : List α) : Nat → Nat → Nat → Nat → List α
  | 0,_,_,_ => []
  | n+1,nSize,j,i =>
      if 1 < nSize then
        tree.getD (j+min (i^^^1) (nSize-1)) d::branch tree n ((nSize+1)/2) (j+nSize) (i/2)
      else []

/-- The siblings, level by level. -/
def siblings : Nat → List α → Nat → List α
  | 0,_,_ => []
  | n+1,level,i =>
      if 1 < level.length then
        level.getD (min (i^^^1) (level.length-1)) d::siblings n (up hash level) (i/2)
      else []

/-- The number of levels above one with `nSize` nodes. -/
def depth : Nat → Nat → Nat
  | 0,_ => 0
  | n+1,nSize => if 1 < nSize then depth n ((nSize+1)/2)+1 else 0

/-- The pairs that are hashed above a level. -/
def hashed : Nat → List α → List (α × α)
  | 0,_ => []
  | n+1,level => if 1 < level.length then pairs level++hashed n (up hash level) else []

/-- No two of these pairs have the same hash. -/
def CollisionFree (ps : List (α × α)) : Prop :=
  ∀p∈ps,∀q∈ps,hash p.1 p.2=hash q.1 q.2 → p=q

instance [DecidableEq α] (ps : List (α × α)) : Decidable (CollisionFree hash ps) :=
  @List.decidableBAll _ _ (fun _ => @List.decidableBAll _ _ (fun _ => inferInstance) ps) ps

/-- Hashes upwards along a branch. -/
def climb : List α → Nat → α → α
  | [],_,h => h
  | it::rest,i,h => climb rest (i/2) (if i%2=1 then hash it h else hash h it)

/-- On the way up a node equals its left sibling. -/
def Twins : List α → Nat → α → Prop
  | [],_,_ => False
  | it::rest,i,h =>
      (i%2=1 ∧ it=h) ∨ Twins rest (i/2) (if i%2=1 then hash it h else hash h it)

end Levels

section Tree

variable {α : Type} {hash : α → α → α} {d : α}

theorem length_pairs (level : List α) : (pairs level).length=(level.length+1)/2 := by
  fun_induction pairs level with
  | case1 => simp
  | case2 => simp
  | case3 a b level ih =>
    simp only [List.length_cons,ih]
    omega

theorem length_up (level : List α) : (up hash level).length=(level.length+1)/2 := by
  rw [up,List.length_map,length_pairs]

theorem xor_one (i : Nat) : i^^^1=if i%2=1 then i-1 else i+1 := by
  split_ifs with hodd
  · rw [Nat.xor_one_of_odd (Nat.odd_iff.mpr hodd)]
  · rw [Nat.xor_one_of_even (Nat.even_iff.mpr (by omega))]

/-- The position of the sibling of a node. -/
theorem sibling_eq {i n : Nat} (h : i<n) :
    min (i^^^1) (n-1)=if i%2=1 then i-1 else min (i+1) (n-1) := by
  rw [xor_one]
  split_ifs <;> omega

/-- A node is the hash of its two children. -/
theorem up_getD (level : List α) (i : Nat) (h : i<level.length) :
    (up hash level).getD (i/2) d=
      if i%2=1 then hash (level.getD (i-1) d) (level.getD i d)
      else hash (level.getD i d) (level.getD (min (i+1) (level.length-1)) d) := by
  unfold up
  fun_induction pairs level generalizing i with
  | case1 => cases h
  | case2 a =>
    obtain rfl : i=0 := by simpa using h
    rfl
  | case3 a b level ih =>
    match i with
    | 0 => simp
    | 1 => simp
    | i+2 =>
      have hlt : i<level.length := by simpa using h
      have hdiv : (i+2)/2=i/2+1 := by omega
      have hmod : (i+2)%2=i%2 := by omega
      rw [hdiv,List.map_cons,List.getD_cons_succ,ih i hlt,hmod]
      split_ifs with hodd
      · obtain ⟨k,rfl⟩ : ∃k,i=k+1 := ⟨i-1,by omega⟩
        rfl
      · have hmin : min (i+2+1) ((a::b::level).length-1)=min (i+1) (level.length-1)+2 := by
          simp only [List.length_cons]
          omega
        rw [hmin]
        rfl

/-- The branch read from the vector of all nodes is the branch of the levels. -/
theorem branch_eq (before : List α) (n : Nat) (level : List α) (i : Nat) (hi : i<level.length) :
    branch d (before++build hash n level) n level.length before.length i=
      siblings hash d n level i := by
  induction n generalizing before level i with
  | zero => rfl
  | succ n ih =>
    rw [branch,siblings,build]
    split_ifs with hlong
    · have hlt : min (i^^^1) (level.length-1)<level.length := by omega
      have hhalf : i/2<(up hash level).length := by
        rw [length_up]
        omega
      have hrest := ih (before++level) (up hash level) (i/2) hhalf
      rw [List.append_assoc,List.length_append,length_up] at hrest
      rw [hrest,List.getD_append_right _ _ _ _ (by omega),Nat.add_sub_cancel_left,
        List.getD_append _ _ _ _ hlt]
    · rfl

theorem length_siblings (n : Nat) (level : List α) (i : Nat) :
    (siblings hash d n level i).length=depth n level.length := by
  induction n generalizing level i with
  | zero => rfl
  | succ n ih =>
    rw [siblings,depth]
    split_ifs
    · rw [List.length_cons,ih,length_up]
    · rfl

theorem le_two_pow_depth (n nSize : Nat) (hfuel : nSize≤n+1) : nSize≤2^depth n nSize := by
  induction n generalizing nSize with
  | zero => simpa [depth] using hfuel
  | succ n ih =>
    rw [depth]
    split_ifs with hlong
    · have hhalf := ih ((nSize+1)/2) (by omega)
      rw [pow_succ]
      omega
    · rw [pow_zero]
      omega

theorem build_ne_nil (n : Nat) {level : List α} (h : level≠[]) : build hash n level≠[] := by
  cases n with
  | zero => exact h
  | succ n =>
    rw [build]
    split_ifs
    · exact List.append_ne_nil_of_left_ne_nil h _
    · exact h

theorem getLastD_short {level : List α} (h : level.length≤1) : level.getLastD d=level.getD 0 d := by
  cases level with
  | nil => rfl
  | cons a level =>
    obtain rfl := List.eq_nil_of_length_eq_zero (by simpa using h)
    rfl

/-- The last node is the root. -/
theorem build_getLastD (n : Nat) (level : List α) (hfuel : level.length≤n+1) :
    (build hash n level).getLastD d=root hash d n level := by
  induction n generalizing level with
  | zero => exact getLastD_short hfuel
  | succ n ih =>
    rw [build,root]
    split_ifs with hlong
    · have hup : (up hash level).length≤n+1 := by
        rw [length_up]
        omega
      have hne : up hash level≠[] := by
        apply List.ne_nil_of_length_pos
        rw [length_up]
        omega
      rw [←ih _ hup,List.getLastD_eq_getLast?,List.getLastD_eq_getLast?,
        List.getLast?_append_of_ne_nil _ (build_ne_nil n hne)]
    · exact getLastD_short (by omega)

/-- Folding a node along its siblings gives the root. -/
theorem climb_siblings (n : Nat) (level : List α) (hfuel : level.length≤n+1) (i : Nat)
    (hi : i<level.length) :
    climb hash (siblings hash d n level i) i (level.getD i d)=root hash d n level := by
  induction n generalizing level i with
  | zero =>
    obtain rfl : i=0 := by omega
    rfl
  | succ n ih =>
    rw [siblings,root]
    split_ifs with hlong
    · have hup : (up hash level).length≤n+1 := by
        rw [length_up]
        omega
      have hhalf : i/2<(up hash level).length := by
        rw [length_up]
        omega
      rw [climb,←ih _ hup _ hhalf,up_getD level i hi,sibling_eq hi]
      split_ifs <;> rfl
    · obtain rfl : i=0 := by omega
      rfl

theorem pairs_fst_sublist (level : List α) : ((pairs level).map Prod.fst).Sublist level := by
  fun_induction pairs level with
  | case1 => exact List.Sublist.slnil
  | case2 a => exact List.Sublist.refl _
  | case3 a b level ih => exact (ih.cons b).cons_cons a

theorem up_nodup {level : List α} (hnodup : level.Nodup) (hfree : CollisionFree hash (pairs level)) :
    (up hash level).Nodup :=
  List.Nodup.map_on hfree (List.Nodup.of_map _ (hnodup.sublist (pairs_fst_sublist level)))

/-- A tree of different leaves has no level that ends with two equal nodes. -/
theorem not_mutated [DecidableEq α] (n : Nat) (level : List α) (hnodup : level.Nodup)
    (hfree : CollisionFree hash (hashed hash n level)) : mutated hash d n level=false := by
  induction n generalizing level with
  | zero => rfl
  | succ n ih =>
    rw [mutated]
    rw [hashed] at hfree
    split_ifs at hfree ⊢ with hlong
    · have hpairs : CollisionFree hash (pairs level) := fun p hp q hq =>
        hfree p (List.mem_append_left _ hp) q (List.mem_append_left _ hq)
      have hrest := ih (up hash level) (up_nodup hnodup hpairs)
        fun p hp q hq => hfree p (List.mem_append_right _ hp) q (List.mem_append_right _ hq)
      have hends : ¬EndTwins d level := by
        rintro ⟨-,-,heq⟩
        rw [List.getD_eq_getElem _ _ (by omega : level.length-2<level.length),
          List.getD_eq_getElem _ _ (by omega : level.length-1<level.length),
          hnodup.getElem_inj_iff] at heq
        omega
      rw [hrest,decide_eq_false hends]
      rfl
    · rfl

/-- In a tree of different leaves no node equals its left sibling. -/
theorem not_twins_siblings (n : Nat) (level : List α) (hnodup : level.Nodup)
    (hfree : CollisionFree hash (hashed hash n level)) (i : Nat) (hi : i<level.length) :
    ¬Twins hash (siblings hash d n level i) i (level.getD i d) := by
  induction n generalizing level i with
  | zero => exact id
  | succ n ih =>
    rw [siblings]
    rw [hashed] at hfree
    split_ifs at hfree ⊢ with hlong
    · have hhalf : i/2<(up hash level).length := by
        rw [length_up]
        omega
      have hpairs : CollisionFree hash (pairs level) := fun p hp q hq =>
        hfree p (List.mem_append_left _ hp) q (List.mem_append_left _ hq)
      have hrest := ih (up hash level) (up_nodup hnodup hpairs)
        (fun p hp q hq => hfree p (List.mem_append_right _ hp) q (List.mem_append_right _ hq))
        (i/2) hhalf
      rw [up_getD level i hi] at hrest
      rw [sibling_eq hi,Twins]
      rintro (⟨hodd,heq⟩ | htwins)
      · rw [if_pos hodd,List.getD_eq_getElem _ _ (by omega : i-1<level.length),
          List.getD_eq_getElem _ _ hi,hnodup.getElem_inj_iff] at heq
        omega
      · by_cases hodd : i%2=1
        · rw [if_pos hodd,if_pos hodd] at htwins
          rw [if_pos hodd] at hrest
          exact hrest htwins
        · rw [if_neg hodd,if_neg hodd] at htwins
          rw [if_neg hodd] at hrest
          exact hrest htwins
    · exact id

end Tree

section Joined

variable {α : Type} {hash : α → α → α}

theorem split_index {i n : Nat} (k : Nat) :
    (i+2^(n+1)*k)%2=i%2 ∧ (i+2^(n+1)*k)/2=i/2+2^n*k := by
  have heven : 2^(n+1)*k=2*(2^n*k) := by ring
  omega

/-- A branch that goes on behind another one, with the index of the second above the bits
of the first. -/
theorem climb_append (l₁ l₂ : List α) (i k : Nat) (hi : i<2^l₁.length) (h : α) :
    climb hash (l₁++l₂) (i+2^l₁.length*k) h=climb hash l₂ k (climb hash l₁ i h) := by
  induction l₁ generalizing i h with
  | nil =>
    obtain rfl : i=0 := by simpa using hi
    simp [climb]
  | cons it l₁ ih =>
    obtain ⟨hmod,hdiv⟩ := split_index (i := i) (n := l₁.length) k
    have hhalf : i/2<2^l₁.length := by
      rw [List.length_cons,pow_succ] at hi
      omega
    rw [List.cons_append,climb,climb,List.length_cons,hmod,hdiv,ih _ hhalf]

theorem twins_append (l₁ l₂ : List α) (i k : Nat) (hi : i<2^l₁.length) (h : α) :
    Twins hash (l₁++l₂) (i+2^l₁.length*k) h ↔
      Twins hash l₁ i h ∨ Twins hash l₂ k (climb hash l₁ i h) := by
  induction l₁ generalizing i h with
  | nil =>
    obtain rfl : i=0 := by simpa using hi
    simp [climb,Twins]
  | cons it l₁ ih =>
    obtain ⟨hmod,hdiv⟩ := split_index (i := i) (n := l₁.length) k
    have hhalf : i/2<2^l₁.length := by
      rw [List.length_cons,pow_succ] at hi
      omega
    rw [List.cons_append,Twins,Twins,climb,List.length_cons,hmod,hdiv,ih _ hhalf,or_assoc]

end Joined

section Determined

variable {α : Type} {hash : α → α → α} {d : α}

theorem EndTwins.cons_cons {level : List α} (h : EndTwins d level) (a b : α) :
    EndTwins d (a::b::level) := by
  obtain ⟨hlong,heven,heq⟩ := h
  have hlast : (a::b::level).length-1=level.length-1+1+1 := by
    simp only [List.length_cons]
    omega
  have hbefore : (a::b::level).length-2=level.length-2+1+1 := by
    simp only [List.length_cons]
    omega
  refine ⟨?_,?_,?_⟩
  · simp only [List.length_cons]
    omega
  · simp only [List.length_cons]
    omega
  · rw [hlast,hbefore,List.getD_cons_succ,List.getD_cons_succ,List.getD_cons_succ,
      List.getD_cons_succ]
    exact heq

/-- The pairs determine a level, unless one of two ends with two equal nodes. -/
theorem pairs_determine {level level' : List α} (h : pairs level=pairs level') :
    level=level' ∨ EndTwins d level ∨ EndTwins d level' := by
  fun_induction pairs level generalizing level' with
  | case1 =>
    rcases level' with _ | ⟨x,_ | ⟨y,rest⟩⟩
    · exact .inl rfl
    · cases h
    · cases h
  | case2 a =>
    rcases level' with _ | ⟨x,_ | ⟨y,rest⟩⟩
    · cases h
    · rw [pairs,List.cons.injEq,Prod.mk.injEq] at h
      rw [h.1.1]
      exact .inl rfl
    · rw [pairs,List.cons.injEq,Prod.mk.injEq] at h
      obtain ⟨⟨rfl,rfl⟩,hrest⟩ := h
      obtain rfl : rest=[] := by
        rcases rest with _ | ⟨z,_ | ⟨w,rest⟩⟩
        · rfl
        · cases hrest
        · cases hrest
      exact .inr (.inr ⟨Nat.one_lt_two,Nat.mod_self 2,rfl⟩)
  | case3 a b level ih =>
    rcases level' with _ | ⟨x,_ | ⟨y,rest⟩⟩
    · cases h
    · rw [pairs,List.cons.injEq,Prod.mk.injEq] at h
      obtain ⟨⟨rfl,rfl⟩,hrest⟩ := h
      obtain rfl : level=[] := by
        rcases level with _ | ⟨z,_ | ⟨w,level⟩⟩
        · rfl
        · cases hrest
        · cases hrest
      exact .inr (.inl ⟨Nat.one_lt_two,Nat.mod_self 2,rfl⟩)
    · rw [pairs,List.cons.injEq,Prod.mk.injEq] at h
      obtain ⟨⟨rfl,rfl⟩,hrest⟩ := h
      rcases ih hrest with rfl | htwins | htwins
      · exact .inl rfl
      · exact .inr (.inl (htwins.cons_cons a b))
      · exact .inr (.inr (htwins.cons_cons a b))

theorem map_determines {β : Type} {f : β → α} {ps : List β}
    (hinj : ∀p∈ps,∀q∈ps,f p=f q → p=q) {l l' : List β} (hl : l⊆ps) (hl' : l'⊆ps)
    (h : l.map f=l'.map f) : l=l' := by
  induction l generalizing l' with
  | nil => exact (List.map_eq_nil_iff.mp h.symm).symm
  | cons p l ih =>
    cases l' with
    | nil => cases h
    | cons q l' =>
      rw [List.map_cons,List.map_cons,List.cons.injEq] at h
      rw [List.cons_subset] at hl hl'
      rw [hinj p hl.1 q hl'.1 h.1,ih hl.2 hl'.2 h.2]

theorem root_short {n : Nat} {level : List α} (h : level.length≤1) :
    root hash d n level=level.getD 0 d := by
  cases n with
  | zero => rfl
  | succ n => exact if_neg (by omega)

theorem depth_eq_zero {n nSize : Nat} (hfuel : nSize≤n+1) : depth n nSize=0 ↔ nSize≤1 := by
  cases n with
  | zero => exact iff_of_true rfl hfuel
  | succ n =>
    rw [depth]
    split_ifs with hlong
    · exact iff_of_false id (Nat.not_le.mpr hlong)
    · exact iff_of_true rfl (Nat.not_lt.mp hlong)

theorem up_ne_nil {level : List α} (h : level≠[]) : up hash level≠[] := by
  apply List.ne_nil_of_length_pos
  have hpos := List.length_pos_of_ne_nil h
  rw [length_up]
  omega

theorem length_up_le {n : Nat} {level : List α} (hfuel : level.length≤n+1+1) :
    (up hash level).length≤n+1 := by
  rw [length_up]
  omega

/-- Hashing in these trees is free of collisions, and no hash is one of the leaves. -/
structure Separated (hash : α → α → α) (leaves leaves' : List α) : Prop where
  free : CollisionFree hash
    (hashed hash leaves.length leaves++hashed hash leaves'.length leaves')
  apart : ∀p∈hashed hash leaves.length leaves++hashed hash leaves'.length leaves',
    hash p.1 p.2∉leaves++leaves'

instance [DecidableEq α] (hash : α → α → α) (leaves leaves' : List α) :
    Decidable (Separated hash leaves leaves') :=
  decidable_of_iff (CollisionFree hash
      (hashed hash leaves.length leaves++hashed hash leaves'.length leaves') ∧
    (hashed hash leaves.length leaves++hashed hash leaves'.length leaves').all fun p =>
      decide (hash p.1 p.2∉leaves++leaves'))
    ⟨fun h => ⟨h.1,fun p hp => of_decide_eq_true (List.all_eq_true.mp h.2 p hp)⟩,
      fun h => ⟨h.free,List.all_eq_true.mpr fun p hp => decide_eq_true (h.apart p hp)⟩⟩

theorem Separated.symm {leaves leaves' : List α} (h : Separated hash leaves leaves') :
    Separated hash leaves' leaves := by
  refine ⟨fun p hp q hq => h.free p ?_ q ?_,fun p hp hmem => h.apart p ?_ ?_⟩
  · rwa [List.mem_append,or_comm,← List.mem_append]
  · rwa [List.mem_append,or_comm,← List.mem_append]
  · rwa [List.mem_append,or_comm,← List.mem_append]
  · rwa [List.mem_append,or_comm,← List.mem_append]

variable [DecidableEq α]

theorem mutated_long {n : Nat} {level : List α} (hlong : 1<level.length)
    (h : mutated hash d (n+1) level=false) :
    ¬EndTwins d level ∧ mutated hash d n (up hash level)=false := by
  rw [mutated,if_pos hlong,Bool.or_eq_false_iff,decide_eq_false_iff_not] at h
  exact h

/-- Trees of the same depth without equal ends: the root determines the leaves. -/
theorem root_determines_level {n m : Nat} {level level' : List α} (hne : level≠[])
    (hne' : level'≠[]) (hfuel : level.length≤n+1) (hfuel' : level'.length ≤ m+1)
    (hdepth : depth n level.length=depth m level'.length)
    (hfree : CollisionFree hash (hashed hash n level++hashed hash m level'))
    (hmutated : mutated hash d n level=false) (hmutated' : mutated hash d m level'=false)
    (hroot : root hash d n level=root hash d m level') : level=level' := by
  induction n generalizing m level level' with
  | zero =>
    have hshort : level'.length≤1 := (depth_eq_zero hfuel').mp hdepth.symm
    rw [root_short hfuel,root_short hshort] at hroot
    obtain ⟨a,rfl⟩ := List.length_eq_one_iff.mp
      (Nat.le_antisymm hfuel (List.length_pos_of_ne_nil hne))
    obtain ⟨b,rfl⟩ := List.length_eq_one_iff.mp
      (Nat.le_antisymm hshort (List.length_pos_of_ne_nil hne'))
    exact congrArg (fun x => [x]) hroot
  | succ n ih =>
    by_cases hlong : 1<level.length
    · have hlong' : 1<level'.length := by
        have hzero := mt (depth_eq_zero hfuel).mp (by omega)
        have hzero' := mt (depth_eq_zero hfuel').mpr (by rwa [← hdepth])
        omega
      obtain ⟨m,rfl⟩ : ∃k,m=k+1 := ⟨m-1,by omega⟩
      rw [depth,depth,if_pos hlong,if_pos hlong'] at hdepth
      rw [hashed,hashed,if_pos hlong,if_pos hlong'] at hfree
      rw [root,root,if_pos hlong,if_pos hlong'] at hroot
      obtain ⟨htwins,hup⟩ := mutated_long hlong hmutated
      obtain ⟨htwins',hup'⟩ := mutated_long hlong' hmutated'
      have hlevels : up hash level=up hash level' := by
        refine ih (up_ne_nil hne) (up_ne_nil hne') (length_up_le hfuel) (length_up_le hfuel')
          ?_ ?_ hup hup' hroot
        · rw [length_up,length_up]
          omega
        · intro p hp q hq
          apply hfree p ?_ q ?_
          · simp only [List.mem_append] at hp ⊢
            tauto
          · simp only [List.mem_append] at hq ⊢
            tauto
      have hpairs : pairs level=pairs level' := map_determines hfree
        (fun p hp => List.mem_append_left _ (List.mem_append_left _ hp))
        (fun p hp => List.mem_append_right _ (List.mem_append_left _ hp)) hlevels
      rcases pairs_determine (d := d) hpairs with heq | hends | hends
      · exact heq
      · exact absurd hends htwins
      · exact absurd hends htwins'
    · have hzero := (depth_eq_zero hfuel).mpr (by omega)
      have hshort : level'.length≤1 := (depth_eq_zero hfuel').mp (hdepth.symm.trans hzero)
      rw [root_short (by omega),root_short hshort] at hroot
      have hone := List.length_pos_of_ne_nil hne
      have hone' := List.length_pos_of_ne_nil hne'
      obtain ⟨a,rfl⟩ := List.length_eq_one_iff.mp (by omega : level.length=1)
      obtain ⟨b,rfl⟩ := List.length_eq_one_iff.mp (by omega : level'.length=1)
      exact congrArg (fun x => [x]) hroot

/-- A tree that is not deeper has the same leaves, or a leaf that is a hash of the other tree. -/
theorem root_determines {n m : Nat} {level level' : List α} (hne : level≠[])
    (hne' : level'≠[]) (hfuel : level.length≤n+1) (hfuel' : level'.length ≤ m+1)
    (hdepth : depth n level.length≤depth m level'.length)
    (hfree : CollisionFree hash (hashed hash n level++hashed hash m level'))
    (hmutated : mutated hash d n level=false) (hmutated' : mutated hash d m level'=false)
    (hroot : root hash d n level=root hash d m level') :
    level=level' ∨ ∃p∈hashed hash m level',hash p.1 p.2∈level := by
  rcases hdepth.lt_or_eq with hless | heq
  · induction m generalizing level' with
    | zero => exact absurd hless (Nat.not_lt_zero _)
    | succ m ih =>
      have hlong : 1<level'.length := by
        have hzero := mt (depth_eq_zero hfuel').mpr (by omega)
        omega
      rw [depth,if_pos hlong] at hdepth hless
      rw [hashed,if_pos hlong] at hfree ⊢
      rw [root,if_pos hlong] at hroot
      obtain ⟨-,hup⟩ := mutated_long hlong hmutated'
      have hfree' : CollisionFree hash (hashed hash n level++hashed hash m (up hash level')) := by
        intro p hp q hq
        apply hfree p ?_ q ?_
        · simp only [List.mem_append] at hp ⊢
          tauto
        · simp only [List.mem_append] at hq ⊢
          tauto
      have hupDepth : depth n level.length≤depth m (up hash level').length := by
        rw [length_up]
        omega
      have hnext : level=up hash level' ∨
          ∃p∈hashed hash m (up hash level'),hash p.1 p.2∈level := by
        rcases hupDepth.lt_or_eq with hless' | heq'
        · exact ih (up_ne_nil hne') (length_up_le hfuel') hupDepth hfree' hup hroot hless'
        · exact .inl (root_determines_level hne (up_ne_nil hne') hfuel (length_up_le hfuel') heq'
            hfree' hmutated hup hroot)
      right
      rcases hnext with heq | ⟨p,hp,hmem⟩
      · obtain ⟨p,hp⟩ := List.exists_mem_of_ne_nil (pairs level') (by
          apply List.ne_nil_of_length_pos
          rw [length_pairs]
          omega)
        refine ⟨p,List.mem_append_left _ hp,?_⟩
        rw [heq]
        exact List.mem_map_of_mem hp
      · exact ⟨p,List.mem_append_right _ hp,hmem⟩
  · exact .inl (root_determines_level hne hne' hfuel hfuel' heq hfree hmutated hmutated' hroot)

/-- The root determines the leaves of trees none of whose levels ends with two equal nodes. -/
theorem leaves_eq_of_root_eq {leaves leaves' : List α} (hne : leaves≠[]) (hne' : leaves'≠[])
    (h : Separated hash leaves leaves') (hmutated : mutated hash d leaves.length leaves=false)
    (hmutated' : mutated hash d leaves'.length leaves'=false)
    (hroot : root hash d leaves.length leaves=root hash d leaves'.length leaves') :
    leaves=leaves' := by
  rcases Nat.le_total (depth leaves.length leaves.length)
    (depth leaves'.length leaves'.length) with hle | hle
  · rcases root_determines hne hne' (Nat.le_succ _) (Nat.le_succ _) hle h.free hmutated hmutated'
      hroot with heq | ⟨p,hp,hmem⟩
    · exact heq
    · exact absurd (List.mem_append_left _ hmem) (h.apart p (List.mem_append_right _ hp))
  · rcases root_determines hne' hne (Nat.le_succ _) (Nat.le_succ _) hle h.symm.free hmutated'
      hmutated hroot.symm with heq | ⟨p,hp,hmem⟩
    · exact heq.symm
    · exact absurd (List.mem_append_right _ hmem) (h.apart p (List.mem_append_left _ hp))

end Determined

section Heights

variable {α : Type}

/-- The level of a tree at a height above the leaves. -/
def levelAt (hash : α → α → α) : Nat → List α → List α
  | 0,leaves => leaves
  | h+1,leaves => up hash (levelAt hash h leaves)

variable {hash : α → α → α} {d : α}

theorem levelAt_up (h : Nat) (leaves : List α) :
    levelAt hash h (up hash leaves)=levelAt hash (h+1) leaves := by
  induction h with
  | zero => rfl
  | succ h ih =>
    rw [levelAt,ih]
    rfl

/-- The number of nodes at a height. -/
def width (n h : Nat) : Nat := (n+2^h-1)/2^h

theorem width_zero (n : Nat) : width n 0=n := by
  unfold width
  omega

theorem width_succ (n h : Nat) : width n (h+1)=(width n h+1)/2 := by
  have hpos := Nat.two_pow_pos h
  unfold width
  have hsum : (n+2^h-1)/2^h+1=(n+2^(h+1)-1)/2^h := by
    have hsplit : n+2^(h+1)-1=n+2^h-1+2^h := by
      rw [pow_succ]
      omega
    rw [hsplit,Nat.add_div_right _ hpos]
  rw [hsum,pow_succ,Nat.div_div_eq_div_mul]

theorem length_levelAt (h : Nat) (leaves : List α) :
    (levelAt hash h leaves).length=width leaves.length h := by
  induction h with
  | zero => rw [levelAt,width_zero]
  | succ h ih => rw [levelAt,length_up,ih,width_succ]

theorem lt_width_iff {n h pos : Nat} : pos<width n h ↔ pos*2^h<n := by
  have hpos := Nat.two_pow_pos h
  unfold width
  rw [Nat.lt_iff_add_one_le,Nat.le_div_iff_mul_le hpos,Nat.succ_mul]
  omega

/-- The depth does not depend on the fuel. -/
theorem depth_eq {n m nSize : Nat} (hn : nSize≤2^n) (hm : nSize≤2^m) :
    depth n nSize=depth m nSize := by
  induction n generalizing m nSize with
  | zero =>
    rw [pow_zero] at hn
    cases m with
    | zero => rfl
    | succ m => rw [depth,depth,if_neg (by omega)]
  | succ n ih =>
    cases m with
    | zero =>
      rw [pow_zero] at hm
      rw [depth,depth,if_neg (by omega)]
    | succ m =>
      rw [depth,depth]
      rw [pow_succ] at hn hm
      rw [ih (by omega : (nSize+1)/2≤2^n) (by omega : (nSize+1)/2≤2^m)]

/-- The root stands at the height that is the depth. -/
theorem root_eq_levelAt (n : Nat) (leaves : List α) (hfuel : leaves.length≤n+1) :
    root hash d n leaves=(levelAt hash (depth n leaves.length) leaves).getD 0 d := by
  induction n generalizing leaves with
  | zero => rfl
  | succ n ih =>
    rw [root,depth]
    split_ifs with hlong
    · rw [ih _ (length_up_le hfuel),length_up,levelAt_up]
    · rfl

theorem width_half (n h : Nat) : width n (h+1)=width ((n+1)/2) h := by
  induction h with
  | zero => rw [width_succ,width_zero,width_zero]
  | succ h ih => rw [width_succ,ih,← width_succ]

/-- The root is the only node of its level. -/
theorem width_depth {n m : Nat} (h : n≤2^m) : width n (depth m n)≤1 := by
  induction m generalizing n with
  | zero => simpa [depth,width_zero] using h
  | succ m ih =>
    rw [depth]
    split_ifs with hlong
    · rw [width_half]
      exact ih (by rw [pow_succ] at h; omega)
    · rw [width_zero]
      omega

/-- The levels below the root have several nodes. -/
theorem lt_depth {n m h : Nat} (hdepth : h<depth m n) : 1<width n h := by
  induction m generalizing n h with
  | zero => cases hdepth
  | succ m ih =>
    rw [depth] at hdepth
    split_ifs at hdepth with hlong
    · cases h with
      | zero =>
        rw [width_zero]
        exact hlong
      | succ h =>
        rw [width_half]
        exact ih (by omega)
    · cases hdepth

theorem depth_le (n nSize : Nat) : depth n nSize≤n := by
  induction n generalizing nSize with
  | zero => exact le_refl 0
  | succ n ih =>
    rw [depth]
    split_ifs
    · exact Nat.succ_le_succ (ih _)
    · exact Nat.zero_le _

/-- A level with several nodes is below the root. -/
theorem pairs_levelAt_subset {n h : Nat} {leaves : List α} (hfuel : leaves.length≤n+1)
    (hlong : 1<width leaves.length h) :
    pairs (levelAt hash h leaves)⊆hashed hash n leaves := by
  induction h generalizing n leaves with
  | zero =>
    rw [width_zero] at hlong
    obtain ⟨k,rfl⟩ : ∃k,n=k+1 := ⟨n-1,by omega⟩
    rw [hashed,if_pos hlong]
    exact List.subset_append_left _ _
  | succ h ih =>
    have hleaves : 1<leaves.length := by
      have hone := lt_width_iff.mp hlong
      have hpow := Nat.two_pow_pos (h+1)
      omega
    obtain ⟨k,rfl⟩ : ∃k,n=k+1 := ⟨n-1,by omega⟩
    have hup : width (up hash leaves).length h=width leaves.length (h+1) := by
      rw [← @length_levelAt _ hash,← @length_levelAt _ hash,levelAt_up]
    rw [hashed,if_pos hleaves,← levelAt_up]
    have hsub := ih (length_up_le hfuel) (by rw [hup]; exact hlong)
    exact fun p hp => List.mem_append_right _ (hsub hp)

/-- The levels up to the root consist of different nodes. -/
theorem levelAt_nodup {n : Nat} {leaves : List α} (hfuel : leaves.length≤n+1)
    (hnodup : leaves.Nodup) (hfree : CollisionFree hash (hashed hash n leaves)) (h : Nat)
    (hlong : 1<width leaves.length h) : (levelAt hash h leaves).Nodup := by
  induction h with
  | zero => exact hnodup
  | succ h ih =>
    have hbelow : 1<width leaves.length h := by
      rw [width_succ] at hlong
      omega
    have hsub := @pairs_levelAt_subset _ hash _ _ _ hfuel hbelow
    exact up_nodup (ih hbelow) fun p hp q hq => hfree p (hsub hp) q (hsub hq)

/-- The children of a node are hashed together. -/
theorem children_mem_pairs (level : List α) {pos : Nat} (h : 2*pos<level.length) :
    (level.getD (2*pos) d,level.getD (min (2*pos+1) (level.length-1)) d)∈pairs level := by
  fun_induction pairs level generalizing pos with
  | case1 => cases h
  | case2 a =>
    have hzero : pos=0 := by
      rw [List.length_singleton] at h
      omega
    rw [hzero]
    exact List.mem_singleton_self _
  | case3 a b level ih =>
    cases pos with
    | zero =>
      have hmin : min (2*0+1) ((a::b::level).length-1)=1 := by
        simp only [List.length_cons]
        omega
      rw [hmin]
      exact List.mem_cons_self
    | succ pos =>
      have hlt : 2*pos<level.length := by
        simp only [List.length_cons] at h
        omega
      have hmin : min (2*(pos+1)+1) ((a::b::level).length-1)=
          min (2*pos+1) (level.length-1)+1+1 := by
        simp only [List.length_cons]
        omega
      have hleft : 2*(pos+1)=2*pos+1+1 := by omega
      rw [hmin,hleft,List.getD_cons_succ,List.getD_cons_succ,List.getD_cons_succ,
        List.getD_cons_succ]
      exact List.mem_cons_of_mem _ (ih hlt)

/-- A node of the level above, by its position. -/
theorem levelAt_succ_getD {h pos : Nat} {leaves : List α} (hpos : pos<width leaves.length (h+1)) :
    (levelAt hash (h+1) leaves).getD pos d=
      hash ((levelAt hash h leaves).getD (2*pos) d)
        ((levelAt hash h leaves).getD (min (2*pos+1) (width leaves.length h-1)) d) := by
  have hleft : 2*pos<(levelAt hash h leaves).length := by
    rw [length_levelAt]
    rw [width_succ] at hpos
    omega
  have hnode := @up_getD _ hash d (levelAt hash h leaves) (2*pos) hleft
  have hhalf : 2*pos/2=pos := by omega
  rw [hhalf,if_neg (by omega),length_levelAt] at hnode
  exact hnode

end Heights

end Zdeex.Framework.MerkleTree
