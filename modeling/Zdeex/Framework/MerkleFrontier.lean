import Mathlib.Data.List.Basic
import Mathlib.Tactic.Ring

namespace Zdeex.Framework

/-- How two nodes of height `d` are combined, and the roots of empty subtrees. -/
structure NodeHash (α : Type) where
  combine : α → α → Nat → α
  empty : Nat → α

namespace NodeHash

variable {α : Type} (N : NodeHash α)

/-- An empty subtree is made of two empty subtrees. -/
def Lawful : Prop := ∀d,N.empty (d+1)=N.combine (N.empty d) (N.empty d) d

/-- The root of the complete tree of height `d` whose first leaves are `L` and
whose other leaves are empty. -/
def treeRoot : Nat → List α → α
  | 0,L => L.headD (N.empty 0)
  | d+1,L => N.combine (treeRoot d (L.take (2^d))) (treeRoot d (L.drop (2^d))) d

/-- Left subtrees on the way from the last leaf to the root: the slot at height
`d` is filled when the node there is a right child. `P` lists the leaves of all
filled slots from left to right. -/
inductive Frontier : Nat → List (Option α) → List α → Prop
  | nil (d : Nat) : Frontier d [] []
  | hole {d : Nat} {ss : List (Option α)} {P : List α} :
      Frontier (d+1) ss P → Frontier d (none::ss) P
  | block {d : Nat} {ss : List (Option α)} {P B : List α} :
      B.length=2^d → Frontier (d+1) ss P → Frontier d (some (N.treeRoot d B)::ss) (P++B)

/-- The next right subtree, or an empty one when the queue has run out. -/
def next (q : List α) (d : Nat) : α × List α :=
  match q with
  | h::q => (h,q)
  | [] => (N.empty d,[])

/-- Siblings on the way up with their side: `true` for a left sibling. -/
def siblings : Nat → List (Option α) → List α → List (Bool × α)
  | _,[],_ => []
  | d,some s::ss,q => (true,s)::siblings (d+1) ss q
  | d,none::ss,q => (false,(N.next q d).1)::siblings (d+1) ss (N.next q d).2

/-- Hashes upwards from a node of height `d`. -/
def foldPath : Nat → α → List (Bool × α) → α
  | _,h,[] => h
  | d,h,(true,s)::ps => foldPath (d+1) (N.combine s h d) ps
  | d,h,(false,s)::ps => foldPath (d+1) (N.combine h s d) ps

/-- Leaves that still fit into the holes of a frontier. -/
def capacity : Nat → List (Option α) → Nat
  | _,[] => 0
  | d,some _::ss => capacity (d+1) ss
  | d,none::ss => 2^d+capacity (d+1) ss

/-- The queue hands out the roots of the subtrees that hold the leaves `R`, from
the lowest hole upwards. -/
def Supplies : Nat → List (Option α) → List α → List α → Prop
  | _,[],_,R => R=[]
  | d,some _::ss,q,R => Supplies (d+1) ss q R
  | d,none::ss,q,R => (N.next q d).1=N.treeRoot d (R.take (2^d)) ∧
      Supplies (d+1) ss (N.next q d).2 (R.drop (2^d))

variable {N}

theorem treeRoot_nil (hN : N.Lawful) (d : Nat) : N.treeRoot d []=N.empty d := by
  induction d with
  | zero => rfl
  | succ d ih => rw [treeRoot,List.take_nil,List.drop_nil,ih,hN d]

/-- A full left subtree is split off. -/
theorem treeRoot_append {d : Nat} {A B : List α} (hA : A.length=2^d) :
    N.treeRoot (d+1) (A++B)=N.combine (N.treeRoot d A) (N.treeRoot d B) d := by
  rw [treeRoot,← hA,List.take_left,List.drop_left]

theorem treeRoot_of_le {d : Nat} {A : List α} (hA : A.length≤2^d) :
    N.treeRoot (d+1) A=N.combine (N.treeRoot d A) (N.treeRoot d []) d := by
  rw [treeRoot,List.take_of_length_le hA,List.drop_eq_nil_of_le hA]

theorem Frontier.pad {d : Nat} {ss : List (Option α)} {P : List α} (h : N.Frontier d ss P)
    (n : Nat) : N.Frontier d (ss++List.replicate n none) P := by
  induction h with
  | nil d =>
    induction n generalizing d with
    | zero => exact .nil d
    | succ n ih => exact .hole (ih (d+1))
  | hole _ ih => exact .hole ih
  | block hB _ ih => exact .block hB ih

/-- Leaves in the frontier, leaves that still fit, and the block of the last leaf
make up the whole tree. -/
theorem Frontier.length_add_capacity {d : Nat} {ss : List (Option α)} {P : List α}
    (h : N.Frontier d ss P) : P.length+capacity d ss+2^d=2^(d+ss.length) := by
  induction h with
  | nil d => simp [capacity]
  | @hole d ss P _ ih =>
    have hlen : d+(none::ss).length=d+1+ss.length := by simp; omega
    rw [hlen,← ih,capacity,pow_succ]
    omega
  | @block d ss P B hB _ ih =>
    have hlen : ∀x : α,d+(some x::ss).length=d+1+ss.length := by simp; omega
    rw [hlen,← ih,capacity,pow_succ,List.length_append,hB]
    omega

/-- The block `C` of the last leaf climbs to the root and collects every leaf. It
has to be full before later leaves can follow it. -/
theorem Frontier.foldPath_eq {d : Nat} {ss : List (Option α)} {P : List α}
    (h : N.Frontier d ss P) (q R C : List α) (hC : C.length≤2^d) (hfull : C.length=2^d ∨ R=[])
    (hq : N.Supplies d ss q R) :
    N.foldPath d (N.treeRoot d C) (N.siblings d ss q)=N.treeRoot (d+ss.length) (P++C++R) := by
  induction h generalizing q R C with
  | nil d =>
    obtain rfl : R=[] := hq
    simp [siblings,foldPath]
  | @block d ss P B hB _ ih =>
    rw [siblings,foldPath,← treeRoot_append hB,ih q R (B++C) ?_ ?_ hq]
    · have hlen : d+1+ss.length=d+(ss.length+1) := by omega
      simp only [List.length_cons,hlen,List.append_assoc]
    · rw [List.length_append,hB,pow_succ]
      omega
    · rw [List.length_append,hB,pow_succ]
      rcases hfull with hfull | hR
      · left
        omega
      · exact .inr hR
  | @hole d ss P _ ih =>
    obtain ⟨hnext,hrest⟩ := hq
    have hroot : N.combine (N.treeRoot d C) (N.treeRoot d (R.take (2^d))) d=
        N.treeRoot (d+1) (C++R.take (2^d)) := by
      rcases hfull with hfull | rfl
      · exact (treeRoot_append hfull).symm
      · rw [List.take_nil,List.append_nil,treeRoot_of_le hC]
    rw [siblings,foldPath,hnext,hroot,ih _ (R.drop (2^d)) (C++R.take (2^d)) ?_ ?_ hrest]
    · have hlen : d+1+ss.length=d+(ss.length+1) := by omega
      rw [List.append_assoc P,List.append_assoc C,List.take_append_drop,List.append_assoc P]
      simp only [List.length_cons,hlen]
    · rw [List.length_append,List.length_take,pow_succ]
      omega
    · rw [List.length_append,List.length_take,pow_succ]
      rcases hfull with hfull | rfl
      · by_cases hR : R.length≤2^d
        · right
          exact List.drop_eq_nil_of_le hR
        · left
          omega
      · right
        exact List.drop_nil

/-- Without later leaves every hole is an empty subtree. -/
theorem supplies_nil (hN : N.Lawful) (d : Nat) (ss : List (Option α)) : N.Supplies d ss [] [] := by
  induction ss generalizing d with
  | nil => rfl
  | cons s ss ih =>
    cases s with
    | none =>
      refine ⟨?_,?_⟩
      · rw [List.take_nil,treeRoot_nil hN]
        rfl
      · rw [List.drop_nil]
        exact ih (d+1)
    | some s => exact ih (d+1)

/-- The carry of a binary counter: a full block moves up until a slot is free. -/
def carry (N : NodeHash α) : Nat → α → List (Option α) → List (Option α)
  | _,h,[] => [some h]
  | _,h,none::ss => some h::ss
  | d,h,some s::ss => none::carry N (d+1) (N.combine s h d) ss

theorem Frontier.carry {d : Nat} {ss : List (Option α)} {P B : List α} (h : N.Frontier d ss P)
    (hB : B.length=2^d) : N.Frontier d (N.carry d (N.treeRoot d B) ss) (P++B) := by
  induction h generalizing B with
  | nil d => exact .block hB (.nil (d+1))
  | hole h _ => exact .block hB h
  | @block d ss P A hA _ ih =>
    rw [NodeHash.carry,← treeRoot_append hA,List.append_assoc]
    refine .hole (ih ?_)
    rw [List.length_append,hA,hB,pow_succ]
    omega

/-- The number of leaves in a frontier, read off its filled slots. -/
def slotBits : List (Option α) → Nat
  | [] => 0
  | s::ss => s.isSome.toNat+2*slotBits ss

theorem Frontier.length_eq {d : Nat} {ss : List (Option α)} {P : List α}
    (h : N.Frontier d ss P) : P.length=2^d*slotBits ss := by
  induction h with
  | nil d => simp [slotBits]
  | @hole d ss P _ ih =>
    rw [ih,slotBits,Option.isSome_none,Bool.toNat_false,pow_succ]
    ring
  | @block d ss P B hB _ ih =>
    rw [List.length_append,ih,hB,slotBits,Option.isSome_some,Bool.toNat_true,pow_succ]
    ring

/-- The height of the `k`-th hole. -/
def holeAt : Nat → List (Option α) → Nat → Option Nat
  | _,[],_ => none
  | d,some _::ss,k => holeAt (d+1) ss k
  | d,none::_,0 => some d
  | d,none::ss,k+1 => holeAt (d+1) ss k

/-- Later leaves `R` in the holes: `filled` are the roots of the subtrees that are
full, and `C` is what the next one holds so far. -/
def Filling (N : NodeHash α) : Nat → List (Option α) → List α → List α → List α → Prop
  | _,[],filled,C,R => filled=[] ∧ C=[] ∧ R=[]
  | d,some _::ss,filled,C,R => Filling N (d+1) ss filled C R
  | d,none::ss,f::filled,C,R => ∃B R',B.length=2^d ∧ f=N.treeRoot d B ∧ R=B++R' ∧
      Filling N (d+1) ss filled C R'
  | d,none::_,[],C,R => C=R ∧ C.length<2^d

theorem holeAt_bounds {d k h : Nat} {ss : List (Option α)} (hh : holeAt d ss k=some h) :
    d≤h ∧ h<d+ss.length := by
  induction ss generalizing d k with
  | nil => simp [holeAt] at hh
  | cons s ss ih =>
    rw [List.length_cons]
    cases s with
    | some s =>
      have := ih (d := d+1) hh
      omega
    | none =>
      cases k with
      | zero =>
        obtain rfl := Option.some.inj hh
        omega
      | succ k =>
        have := ih (d := d+1) hh
        omega

theorem filling_nil (N : NodeHash α) (d : Nat) (ss : List (Option α)) :
    N.Filling d ss [] [] [] := by
  induction ss generalizing d with
  | nil => exact ⟨rfl,rfl,rfl⟩
  | cons s ss ih =>
    cases s with
    | some s => exact ih (d+1)
    | none => exact ⟨rfl,Nat.pos_of_ne_zero (by simp)⟩

/-- One more leaf goes into the lowest hole with room, and may fill it up. -/
theorem Filling.append {d : Nat} {ss : List (Option α)} {filled C R : List α}
    (h : N.Filling d ss filled C R) (hroom : R.length<capacity d ss) (x : α) :
    ∃k,holeAt d ss filled.length=some k ∧ C.length<2^k ∧
      (C.length+1=2^k → N.Filling d ss (filled++[N.treeRoot k (C++[x])]) [] (R++[x])) ∧
      (C.length+1<2^k → N.Filling d ss filled (C++[x]) (R++[x])) := by
  induction ss generalizing d filled R with
  | nil => simp [capacity] at hroom
  | cons s ss ih =>
    cases s with
    | some s => exact ih h hroom
    | none =>
      match filled,h with
      | [],⟨hCR,hC⟩ =>
        subst hCR
        refine ⟨d,rfl,hC,fun hfull => ?_,fun hmore => ⟨rfl,by simpa using hmore⟩⟩
        exact ⟨C++[x],[],by simpa using hfull,rfl,by simp,filling_nil N (d+1) ss⟩
      | f::filled,⟨B,R',hB,hf,hR,hrest⟩ =>
        have hroom' : R'.length<capacity (d+1) ss := by
          rw [hR,List.length_append,hB,capacity] at hroom
          omega
        obtain ⟨k,hk,hC,hfull,hmore⟩ := ih hrest hroom'
        refine ⟨k,hk,hC,fun hx => ⟨B,R'++[x],hB,hf,?_,hfull hx⟩,
          fun hx => ⟨B,R'++[x],hB,hf,?_,hmore hx⟩⟩ <;>
        rw [hR,List.append_assoc]

/-- The roots of the full subtrees, followed by the root of the one in progress,
are what a climb past the holes needs. -/
theorem Filling.supplies (hN : N.Lawful) {d : Nat} {ss : List (Option α)}
    {filled C R tail : List α} (h : N.Filling d ss filled C R)
    (htail : (C=[] ∧ tail=[]) ∨ ∃k,holeAt d ss filled.length=some k ∧ tail=[N.treeRoot k C]) :
    N.Supplies d ss (filled++tail) R := by
  induction ss generalizing d filled R with
  | nil => exact h.2.2
  | cons s ss ih =>
    cases s with
    | some s => exact ih h htail
    | none =>
      match filled,h with
      | [],⟨hCR,hC⟩ =>
        subst hCR
        have hdrop : C.drop (2^d)=[] := List.drop_eq_nil_of_le (by omega)
        have htake : C.take (2^d)=C := List.take_of_length_le (by omega)
        rcases htail with ⟨rfl,rfl⟩ | ⟨k,hk,rfl⟩
        · exact supplies_nil hN d (none::ss)
        · obtain rfl := Option.some.inj hk
          refine ⟨by rw [htake]; rfl,?_⟩
          rw [hdrop]
          exact supplies_nil hN (d+1) ss
      | f::filled,⟨B,R',hB,hf,hR,hrest⟩ =>
        refine ⟨?_,?_⟩
        · rw [hR,← hB,List.take_left]
          exact hf
        · rw [hR,← hB,List.drop_left]
          exact ih hrest htail

theorem siblings_fst (N : NodeHash α) (d : Nat) (ss : List (Option α)) (q : List α) :
    (N.siblings d ss q).map Prod.fst=ss.map Option.isSome := by
  induction ss generalizing d q with
  | nil => rfl
  | cons s ss ih => cases s <;> simp [siblings,ih]

end NodeHash

end Zdeex.Framework
