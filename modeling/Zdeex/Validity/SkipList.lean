import Zdeex.Framework.Lineage
import Zdeex.Framework.Run

namespace Zdeex.Validity

open Zdeex.Framework

/-- Turns the lowest one of a number into a zero. -/
def invertLowestOne (n : Nat) : Nat := n &&& (n-1)

/-- The height that the skip pointer of a block leads to. -/
def getSkipHeight (height : Int) : Nat :=
  if height<2 then 0
  else if height.toNat &&& 1≠0 then invertLowestOne (invertLowestOne (height.toNat-1))+1
  else invertLowestOne height.toNat

/-- The block index as far as `pprev`, `pskip` and the heights go. Blocks stand for their
pointers. -/
structure BlockTree (H : Type) where
  mapBlockIndex : Forest H
  nHeight : H → Nat
  pskip : H → Option H

variable {H : Type} [DecidableEq H]

namespace BlockTree

def empty : BlockTree H := ⟨[],fun _ => 0,fun _ => none⟩

variable (T : BlockTree H)

def pprev (pindex : H) : Option H := Forest.parent T.mapBlockIndex pindex

/-- The condition under which the loop of `GetAncestor` takes the skip pointer. -/
def takesSkip (height heightWalk : Int) : Bool :=
  let heightSkip : Int := getSkipHeight heightWalk
  let heightSkipPrev : Int := getSkipHeight (heightWalk-1)
  heightSkip=height || heightSkip>height &&
    !(heightSkipPrev<heightSkip-2 && heightSkipPrev≥height)

/-- The loop of `GetAncestor`; `none` is the failed assertion of a parent. -/
def ancestorLoop (height : Nat) : Nat → H → Nat → Option H
  | fuel,pindexWalk,heightWalk =>
      if heightWalk>height then
        match fuel with
        | 0 => none
        | fuel+1 =>
            match T.pskip pindexWalk,takesSkip height heightWalk with
            | some pskip,true => ancestorLoop height fuel pskip (getSkipHeight heightWalk)
            | _,_ => (T.pprev pindexWalk).bind fun pprev => ancestorLoop height fuel pprev (heightWalk-1)
      else some pindexWalk

/-- `some none` is the null pointer. -/
def getAncestor (pindex : H) (height : Int) : Option (Option H) :=
  if height>T.nHeight pindex ∨ height<0 then some none
  else (T.ancestorLoop height.toNat (T.nHeight pindex) pindex (T.nHeight pindex)).map some

def buildSkip (pindex : H) : Option (BlockTree H) :=
  match T.pprev pindex with
  | none => some T
  | some pprev =>
      (T.getAncestor pprev (getSkipHeight (T.nHeight pindex))).map fun pskip =>
        {T with pskip := Function.update T.pskip pindex pskip}

/-- A new block at the end of its parent, as `AddToBlockIndex` puts it into the index; a parent
that is not there counts as none. -/
def insert (hash : H) (hashPrev : Option H) : BlockTree H :=
  if hash∈Forest.keys T.mapBlockIndex then T
  else
    let pprev := hashPrev.filter fun p => decide (p∈Forest.keys T.mapBlockIndex)
    { mapBlockIndex := (hash,pprev)::T.mapBlockIndex
      nHeight := Function.update T.nHeight hash (pprev.elim 0 fun p => T.nHeight p+1)
      pskip := Function.update T.pskip hash none }

end BlockTree

inductive TreeOp (H : Type) where
  | insert (hash : H) (hashPrev : Option H)
  | buildSkip (pindex : H)

namespace BlockTree

def step (T : BlockTree H) : TreeOp H → Option (BlockTree H)
  | .insert hash hashPrev => some (T.insert hash hashPrev)
  | .buildSkip pindex => T.buildSkip pindex

end BlockTree

theorem getSkipHeight_lt {height : Int} (h : 1≤height) : (getSkipHeight height : Int)<height := by
  have hone : ∀n,invertLowestOne n≤n-1 := fun n => Nat.and_le_right
  have hself : ∀n,invertLowestOne n≤n := fun n => Nat.and_le_left
  unfold getSkipHeight
  split_ifs with hsmall hodd
  · omega
  · have hfirst := hone (height.toNat-1)
    have hsecond := hself (invertLowestOne (height.toNat-1))
    omega
  · have hstep := hone height.toNat
    omega

namespace BlockTree

/-- The block that is reached by following `pprev` from a block `n` times. -/
def follow (T : BlockTree H) (n : Nat) (pindex : H) : Option H :=
  Forest.climb T.mapBlockIndex n pindex

/-- Heights count the parents, and a skip pointer that is set leads to the ancestor at the skip
height. -/
structure Built (T : BlockTree H) : Prop where
  grown : Forest.Grown T.mapBlockIndex
  root : ∀h,T.pprev h=none → T.nHeight h=0
  height : ∀h p,T.pprev h=some p → T.nHeight h=T.nHeight p+1
  skip : ∀h a,T.pskip h=some a → T.follow (T.nHeight h-getSkipHeight (T.nHeight h)) h=some a

variable {T : BlockTree H} {h a : H} {n : Nat}

theorem follow_succ (T : BlockTree H) (n : Nat) (h : H) :
    T.follow (n+1) h=(T.pprev h).bind (T.follow n) := rfl

theorem follow_add (T : BlockTree H) (m n : Nat) (h : H) :
    T.follow (m+n) h=(T.follow m h).bind (T.follow n) := Forest.climb_add m n h

namespace Built

theorem height_follow (hT : Built T) (ha : T.follow n h=some a) : T.nHeight a+n=T.nHeight h := by
  induction n generalizing h with
  | zero =>
    obtain rfl := Option.some.inj ha
    rfl
  | succ n ih =>
    rw [follow_succ,Option.bind_eq_some_iff] at ha
    obtain ⟨p,hp,hpa⟩ := ha
    have hstep := hT.height h p hp
    have hrest := ih hpa
    omega

/-- There are as many parents as the height says. -/
theorem exists_follow (hT : Built T) (hn : n ≤ T.nHeight h) : ∃a,T.follow n h=some a := by
  induction n generalizing h with
  | zero => exact ⟨h,rfl⟩
  | succ n ih =>
    cases hp : T.pprev h with
    | none =>
      have hroot := hT.root h hp
      omega
    | some p =>
      have hstep := hT.height h p hp
      obtain ⟨a,ha⟩ := ih (h := p) (by omega)
      refine ⟨a,?_⟩
      rw [follow_succ,hp]
      exact ha

theorem follow_of_gt (hT : Built T) (hn : T.nHeight h<n) : T.follow n h=none := by
  cases ha : T.follow n h with
  | none => rfl
  | some a =>
    have hlen := hT.height_follow ha
    omega

/-- Whichever pointer a round takes, the block it comes to is the ancestor at the height that the
round assumes. -/
theorem ancestorLoop_eq (hT : Built T) {height fuel : Nat} (hh : height≤T.nHeight h)
    (hfuel : T.nHeight h≤fuel) :
    T.ancestorLoop height fuel h (T.nHeight h)=T.follow (T.nHeight h-height) h := by
  induction fuel generalizing h with
  | zero =>
    have hzero : T.nHeight h-height=0 := by omega
    rw [ancestorLoop,if_neg (by omega),hzero]
    rfl
  | succ fuel ih =>
    rw [ancestorLoop]
    split_ifs with hgt
    · have hlow : (getSkipHeight (T.nHeight h) : Int)<T.nHeight h := getSkipHeight_lt (by omega)
      have hback : ((T.pprev h).bind fun pprev =>
          T.ancestorLoop height fuel pprev (T.nHeight h-1))=T.follow (T.nHeight h-height) h := by
        cases hp : T.pprev h with
        | none =>
          have hroot := hT.root h hp
          omega
        | some p =>
          have hstep := hT.height h p hp
          have hone : T.nHeight h-height=T.nHeight p-height+1 := by omega
          have hprev : T.nHeight h-1=T.nHeight p := by omega
          rw [hone,follow_succ,hp,Option.bind_some,hprev]
          exact ih (by omega) (by omega)
      cases hs : T.pskip h with
      | none => exact hback
      | some s =>
        cases htake : takesSkip height (T.nHeight h) with
        | false => exact hback
        | true =>
          have hreach := hT.skip h s hs
          have hlen := hT.height_follow hreach
          have habove : height≤getSkipHeight (T.nHeight h) := by
            unfold takesSkip at htake
            simp only [Bool.or_eq_true,Bool.and_eq_true,decide_eq_true_eq] at htake
            omega
          have hsame : getSkipHeight (T.nHeight h)=T.nHeight s := by omega
          have hsum : T.nHeight h-height=
              T.nHeight h-getSkipHeight (T.nHeight h)+(T.nHeight s-height) := by omega
          dsimp only
          rw [hsum,follow_add,hreach,Option.bind_some,hsame]
          exact ih (by omega) (by omega)
    · have hzero : T.nHeight h-height=0 := by omega
      rw [hzero]
      rfl

theorem getAncestor_eq (hT : Built T) (h : H) (height : Int) :
    T.getAncestor h height=some (if height<0 ∨ T.nHeight h<height then none
      else T.follow (T.nHeight h-height).toNat h) := by
  unfold getAncestor
  split_ifs with hout hnone hnone
  · rfl
  · omega
  · omega
  · have hheight : T.nHeight h-height.toNat=(T.nHeight h-height).toNat := by omega
    obtain ⟨a,ha⟩ := hT.exists_follow (h := h) (n := (T.nHeight h-height).toNat) (by omega)
    rw [hT.ancestorLoop_eq (by omega) (Nat.le_refl _),hheight,ha]
    rfl

protected theorem empty : Built (empty : BlockTree H) where
  grown := trivial
  root _ _ := rfl
  height _ _ hp := by cases hp
  skip _ _ hs := by cases hs

/-- The skip pointer is looked up from the parent on, and the parent is found. -/
theorem buildSkip (hT : Built T) (h : H) : ∃T',T.buildSkip h=some T' ∧ Built T' ∧
    T'.pskip=if (T.pprev h).isSome then
      Function.update T.pskip h (T.follow (T.nHeight h-getSkipHeight (T.nHeight h)) h)
    else T.pskip := by
  unfold BlockTree.buildSkip
  cases hp : T.pprev h with
  | none => exact ⟨T,rfl,hT,rfl⟩
  | some p =>
    have hstep := hT.height h p hp
    have hlow : (getSkipHeight (T.nHeight h) : Int)<T.nHeight h := getSkipHeight_lt (by omega)
    obtain ⟨a,ha⟩ := hT.exists_follow (h := p) (n := T.nHeight p-getSkipHeight (T.nHeight h))
      (by omega)
    have hback : ((T.nHeight p : Int)-getSkipHeight (T.nHeight h)).toNat=
        T.nHeight p-getSkipHeight (T.nHeight h) := by omega
    have hanc : T.getAncestor p (getSkipHeight (T.nHeight h))=some (some a) := by
      rw [hT.getAncestor_eq,if_neg (by omega),hback,ha]
    have hlen : T.nHeight h-getSkipHeight (T.nHeight h)=
        T.nHeight p-getSkipHeight (T.nHeight h)+1 := by omega
    have hfollow : T.follow (T.nHeight h-getSkipHeight (T.nHeight h)) h=some a := by
      rw [hlen,follow_succ,hp,Option.bind_some,ha]
    refine ⟨_,congrArg (Option.map _) hanc,⟨hT.grown,hT.root,hT.height,?_⟩,by
      rw [Option.isSome_some,if_pos rfl,hfollow]⟩
    intro h' b hb
    dsimp only at hb ⊢
    by_cases hsame : h'=h
    · subst hsame
      rw [Function.update_self] at hb
      change T.follow (T.nHeight h'-getSkipHeight (T.nHeight h')) h'=some b
      rw [hfollow,hb]
    · rw [Function.update_of_ne hsame] at hb
      exact hT.skip h' b hb

/-- A block without a parent among the blocks is a root. -/
theorem insert (hT : Built T) (hash : H) (hashPrev : Option H) : Built (T.insert hash hashPrev) := by
  unfold BlockTree.insert
  split_ifs with hmem
  · exact hT
  · generalize hq : hashPrev.filter (fun p => decide (p∈Forest.keys T.mapBlockIndex))=q
    have hparent : ∀p∈q,p∈Forest.keys T.mapBlockIndex := by
      intro p hp
      rw [← hq,Option.mem_def,Option.filter_eq_some_iff] at hp
      exact of_decide_eq_true hp.2
    have hgrown : Forest.Grown ((hash,q)::T.mapBlockIndex) := ⟨hmem,hparent,hT.grown⟩
    have hold : ∀h,h≠hash → Forest.parent ((hash,q)::T.mapBlockIndex) h=T.pprev h :=
      fun h hne => Forest.parent_cons_of_ne (Ne.symm hne)
    have hnew : Forest.parent ((hash,q)::T.mapBlockIndex) hash=q := if_pos rfl
    refine ⟨hgrown,?_,?_,?_⟩
    · intro h hp
      change Forest.parent ((hash,q)::T.mapBlockIndex) h=none at hp
      change Function.update T.nHeight hash (q.elim 0 fun p => T.nHeight p+1) h=0
      by_cases hsame : h=hash
      · subst hsame
        rw [hnew] at hp
        rw [Function.update_self,hp]
        rfl
      · rw [hold h hsame] at hp
        rw [Function.update_of_ne hsame]
        exact hT.root h hp
    · intro h p hp
      change Forest.parent ((hash,q)::T.mapBlockIndex) h=some p at hp
      change Function.update T.nHeight hash (q.elim 0 fun p => T.nHeight p+1) h=
        Function.update T.nHeight hash (q.elim 0 fun p => T.nHeight p+1) p+1
      have hother : ∀p∈Forest.keys T.mapBlockIndex,p≠hash := by
        intro p hkey hsame
        exact hmem (hsame ▸ hkey)
      by_cases hsame : h=hash
      · subst hsame
        rw [hnew] at hp
        have hne := hother p (hparent p hp)
        rw [Function.update_self,Function.update_of_ne hne,hp]
        rfl
      · rw [hold h hsame] at hp
        have hne := hother p (hT.grown.parent_mem hp).2
        rw [Function.update_of_ne hsame,Function.update_of_ne hne]
        exact hT.height h p hp
    · intro h a hs
      change Function.update T.pskip hash none h=some a at hs
      by_cases hsame : h=hash
      · subst hsame
        rw [Function.update_self] at hs
        cases hs
      · rw [Function.update_of_ne hsame] at hs
        have hreach := hT.skip h a hs
        change Forest.climb ((hash,q)::T.mapBlockIndex)
          (Function.update T.nHeight hash _ h-getSkipHeight (Function.update T.nHeight hash _ h)) h=
            some a
        rw [Function.update_of_ne hsame]
        by_cases hkey : h∈Forest.keys T.mapBlockIndex
        · rw [hgrown.climb_leaf hkey]
          exact hreach
        · have hzero := hT.root h (Forest.parent_of_not_mem hkey)
          rw [hzero] at hreach ⊢
          exact hreach

end Built

theorem Built.step (hT : Built T) (o : TreeOp H) : ∃T',T.step o=some T' ∧ Built T' := by
  cases o with
  | insert hash hashPrev => exact ⟨_,rfl,hT.insert hash hashPrev⟩
  | buildSkip pindex =>
    obtain ⟨T',h',hT',-⟩ := hT.buildSkip pindex
    exact ⟨T',h',hT'⟩

/-- Blocks that enter the index after their parents, and skip pointers that are built in any
order. -/
theorem run_built (ops : List (TreeOp H)) : ∃T,run step ops empty=some T ∧ Built T :=
  run_always (fun _ o hT => Built.step hT o) ops .empty

/-- The skip list agrees with the parents: no assertion fails while it is built or walked, a
pointer is set to the ancestor at the skip height, and the walk ends at the block that as many
steps along `pprev` lead to. -/
theorem skip_list_agrees (ops : List (TreeOp H)) : ∃T,run step ops empty=some T ∧
    (∀b,∃T',T.buildSkip b=some T' ∧ T'.pskip=if (T.pprev b).isSome then
        Function.update T.pskip b (T.follow (T.nHeight b-getSkipHeight (T.nHeight b)) b)
      else T.pskip) ∧
    (∀b (height : Int),T.getAncestor b height=some (if height<0 ∨ T.nHeight b<height then none
      else T.follow (T.nHeight b-height).toNat b)) ∧
    (∀b (height : Int),0≤height ∧ height ≤ T.nHeight b →
      (T.follow (T.nHeight b-height).toNat b).isSome) ∧
    (∀b p,T.pprev b=some p → T.nHeight b=T.nHeight p+1) ∧
    ∀height : Int,1≤height → (getSkipHeight height : Int)<height := by
  obtain ⟨T,hrun,hT⟩ := run_built ops
  refine ⟨T,hrun,fun b => ?_,fun b height => hT.getAncestor_eq b height,fun b height hh => ?_,
    hT.height,fun height hh => getSkipHeight_lt hh⟩
  · obtain ⟨T',hT',-,hskip⟩ := hT.buildSkip b
    exact ⟨T',hT',hskip⟩
  obtain ⟨a,ha⟩ := hT.exists_follow (h := b) (n := (T.nHeight b-height).toNat) (by omega)
  rw [ha]
  rfl

end BlockTree

end Zdeex.Validity
