import Zdeex.Merkle.TreeSize
import Zdeex.Primitives.TransactionFormat

namespace Zdeex.Merkle

open Zdeex.Framework NodeHash

namespace IncrementalMerkleTree

variable {H : Type}

/-- Throws on a tree that no sequence of appends leaves behind. -/
def wfcheck (Depth : Nat) (t : IncrementalMerkleTree H) : Except String Unit :=
  if t.parents.length≥Depth then .error "tree has too many parents"
  else if t.parents.getLast?.any Option.isNone then
    .error "tree has non-canonical representation of parent"
  else if t.left.isNone && t.right.isSome then
    .error "tree has non-canonical representation; right should not exist"
  else if t.left.isNone && t.parents.length>0 then
    .error "tree has non-canonical representation; parents should not be unempty"
  else .ok ()

/-- What is left of a tree without its hashes. -/
def shape (t : IncrementalMerkleTree H) : Bool × Bool × List Bool :=
  (t.left.isSome,t.right.isSome,t.parents.map Option.isSome)

structure WellFormed (Depth : Nat) (t : IncrementalMerkleTree H) : Prop where
  parents_lt : t.parents.length<Depth
  canonical : Canonical t.parents
  left : t.left=none → t.right=none ∧ t.parents=[]

theorem canonical_iff (ps : List (Option H)) :
    Canonical ps ↔ ps.getLast?.any Option.isNone=false := by
  unfold Canonical
  cases ps.getLast? with
  | none => simp
  | some p => cases p <;> simp

theorem canonical_iff_map (ps : List (Option H)) :
    Canonical ps ↔ (ps.map Option.isSome).getLast?≠some false := by
  unfold Canonical
  rw [List.getLast?_map]
  cases ps.getLast? with
  | none => simp
  | some p => cases p <;> simp

theorem wfcheck_eq_ok (Depth : Nat) (t : IncrementalMerkleTree H) :
    t.wfcheck Depth=.ok () ↔ t.WellFormed Depth := by
  obtain ⟨left,right,ps⟩ := t
  constructor
  · intro h
    unfold wfcheck at h
    split_ifs at h with hlen hlast hright hparents
    refine ⟨by simpa using hlen,(canonical_iff ps).mpr (Bool.not_eq_true _ ▸ hlast),fun hleft => ?_⟩
    subst hleft
    simpa using And.intro hright hparents
  · rintro ⟨hlen,hlast,hleft⟩
    have hlast' := (canonical_iff ps).mp hlast
    unfold wfcheck
    cases left with
    | none =>
      obtain ⟨rfl,rfl⟩ := hleft rfl
      rw [if_neg (Nat.not_le.mpr hlen)]
      rfl
    | some a =>
      rw [if_neg (Nat.not_le.mpr hlen)]
      simp [hlast']

theorem WellFormed.of_shape {Depth : Nat} {t t' : IncrementalMerkleTree H}
    (h : t.WellFormed Depth) (hshape : t.shape=t'.shape) : t'.WellFormed Depth := by
  obtain ⟨hleft,hright,hps⟩ : t.left.isSome=t'.left.isSome ∧ t.right.isSome=t'.right.isSome ∧
      t.parents.map Option.isSome=t'.parents.map Option.isSome := by
    simpa [shape] using hshape
  have hlen := congrArg List.length hps
  rw [List.length_map,List.length_map] at hlen
  refine ⟨hlen ▸ h.parents_lt,?_,fun hnone => ?_⟩
  · have hlast := (canonical_iff_map t.parents).mp h.canonical
    rw [hps] at hlast
    exact (canonical_iff_map t'.parents).mpr hlast
  · rw [hnone,Option.isSome_none,Option.isSome_eq_false_iff,Option.isNone_iff_eq_none] at hleft
    obtain ⟨hr,hp⟩ := h.left hleft
    rw [hr] at hright
    rw [hp] at hlen
    exact ⟨by simpa using hright.symm,List.length_eq_zero_iff.mp hlen.symm⟩

theorem length_carry (N : NodeHash H) (d : Nat) (h : H) (ss : List (Option H)) :
    (N.carry d h ss).length=if ss.all Option.isSome then ss.length+1 else ss.length := by
  induction ss generalizing d h with
  | nil => rfl
  | cons s ss ih =>
    cases s with
    | none => rfl
    | some s =>
      rw [carry,List.length_cons,ih]
      simp only [List.all_cons,Option.isSome_some,Bool.true_and,List.length_cons]
      split_ifs <;> rfl

theorem wellFormed_new {Depth : Nat} (hD : 1≤Depth) :
    (new : IncrementalMerkleTree H).WellFormed Depth :=
  ⟨hD,by simp [Canonical,new],fun _ => ⟨rfl,rfl⟩⟩

theorem WellFormed.append {O : HashClass H} {Depth : Nat} {t : IncrementalMerkleTree H}
    (h : t.WellFormed Depth) (obj : H) : (t.append O Depth obj).2.WellFormed Depth := by
  obtain ⟨left,right,ps⟩ := t
  obtain ⟨hlen,hlast,hleft⟩ := h
  unfold IncrementalMerkleTree.append
  split_ifs with hfull
  · exact ⟨hlen,hlast,hleft⟩
  · cases left with
    | none => exact ⟨hlen,hlast,fun hcon => by cases hcon⟩
    | some a =>
      cases right with
      | none => exact ⟨hlen,hlast,fun hcon => by cases hcon⟩
      | some b =>
        have hcarry := propagate_eq_carry O Depth 0 (O.combine a b 0) ps hlen
        have hgrow := length_carry O.toNodeHash 1 (O.combine a b 0) ps
        refine ⟨?_,?_,fun hcon => by cases hcon⟩
        · dsimp only at hlen ⊢
          rw [hcarry,hgrow]
          split_ifs with hall
          · have hshort : ps.length+1≠Depth := by
              rintro heq
              exact hfull (by simpa [isComplete,heq] using hall)
            omega
          · exact hlen
        · dsimp only
          rw [hcarry]
          exact canonical_carry O.toNodeHash 1 _ hlast

theorem slotBits_ne_zero {ss : List (Option H)} (hc : Canonical ss) (hne : ss≠[]) :
    slotBits ss≠0 := by
  induction ss with
  | nil => exact absurd rfl hne
  | cons s ss ih =>
    rw [slotBits]
    by_cases hss : ss=[]
    · subst hss
      cases s with
      | none => simp [Canonical] at hc
      | some s => simp
    · have := ih (canonical_tail hc hss) hss
      omega

/-- Canonical parents are the binary digits of a number. -/
theorem map_isSome_unique {ss ss' : List (Option H)} (hc : Canonical ss) (hc' : Canonical ss')
    (h : slotBits ss=slotBits ss') : ss.map Option.isSome=ss'.map Option.isSome := by
  induction ss generalizing ss' with
  | nil =>
    by_cases hne : ss'=[]
    · rw [hne]
    · exact absurd h.symm (slotBits_ne_zero hc' hne)
  | cons s ss ih =>
    cases ss' with
    | nil => exact absurd h (slotBits_ne_zero hc (List.cons_ne_nil s ss))
    | cons s' ss' =>
      have htail : ∀{r : Option H} {rs : List (Option H)},Canonical (r::rs) → Canonical rs := by
        intro r rs hr
        by_cases hne : rs=[]
        · simp [hne,Canonical]
        · exact canonical_tail hr hne
      rw [slotBits,slotBits] at h
      have hbit : s.isSome.toNat≤1 := Bool.toNat_le _
      have hbit' : s'.isSome.toNat≤1 := Bool.toNat_le _
      have hs : s.isSome=s'.isSome := by
        cases hsome : s.isSome <;> cases hsome' : s'.isSome <;>
          simp only [hsome,hsome',Bool.toNat_true,Bool.toNat_false] at h <;> first | rfl | omega
      rw [List.map_cons,List.map_cons,hs,ih (htail hc) (htail hc') (by omega)]

/-- The number of leaves behind a shape. -/
def leaves (t : IncrementalMerkleTree H) : Nat :=
  t.left.isSome.toNat+t.right.isSome.toNat+2*slotBits t.parents

theorem Represents.leaves_eq {O : HashClass H} {t : IncrementalMerkleTree H} {L : List H}
    (h : Represents O t L) : L.length=t.leaves := by
  cases h with
  | empty => rfl
  | odd a hf hc =>
    have hP := hf.length_eq
    simp only [leaves,List.length_append,List.length_singleton,Option.isSome_some,
      Option.isSome_none,Bool.toNat_true,Bool.toNat_false]
    omega
  | even a b hf hc =>
    have hP := hf.length_eq
    simp only [leaves,List.length_append,List.length_cons,List.length_nil,Option.isSome_some,
      Bool.toNat_true]
    omega

theorem Represents.wellFormed {O : HashClass H} {Depth : Nat} {t : IncrementalMerkleTree H}
    {L : List H} (h : Represents O t L) (hD : 1≤Depth) (hL : L.length≤2^Depth) :
    t.WellFormed Depth := by
  refine ⟨h.parents_length_lt hD hL,?_,?_⟩
  · cases h with
    | empty => simp [Canonical,new]
    | odd a _ hc => exact hc
    | even a b _ hc => exact hc
  · cases h with
    | empty => exact fun _ => ⟨rfl,rfl⟩
    | odd a _ _ => exact fun hcon => by cases hcon
    | even a b _ _ => exact fun hcon => by cases hcon

theorem WellFormed.leaves_le {Depth : Nat} {t : IncrementalMerkleTree H} (h : t.WellFormed Depth) :
    t.leaves≤2^Depth := by
  have hbits := slotBits_lt t.parents
  have hlt := h.parents_lt
  have hpow : 2^(t.parents.length+1)≤2^Depth := Nat.pow_le_pow_right (by decide) hlt
  have hleft : t.left.isSome.toNat≤1 := Bool.toNat_le _
  have hright : t.right.isSome.toNat≤1 := Bool.toNat_le _
  rw [pow_succ] at hpow
  unfold leaves
  omega

/-- A well formed tree has a leaf on its left as soon as it has any. -/
theorem WellFormed.bits {Depth : Nat} {t : IncrementalMerkleTree H} (h : t.WellFormed Depth) :
    (t.left=none → t.leaves=0) ∧ (t.left≠none → t.leaves%2=if t.right.isSome then 0 else 1) ∧
      (t.left≠none → 0<t.leaves) := by
  obtain ⟨left,right,ps⟩ := t
  refine ⟨fun hleft => ?_,fun hleft => ?_,fun hleft => ?_⟩
  · obtain ⟨hright,hps⟩ := h.left hleft
    dsimp only at hleft hright hps
    subst hleft hright hps
    rfl
  all_goals
    cases left with
    | none => exact absurd rfl hleft
    | some a =>
      simp only [leaves,Option.isSome_some,Bool.toNat_true]
      cases right with
      | none => simp
      | some b => simp

/-- Well formed trees with as many leaves have the same shape. -/
theorem WellFormed.shape_unique {Depth : Nat} {t t' : IncrementalMerkleTree H}
    (h : t.WellFormed Depth) (h' : t'.WellFormed Depth) (hleaves : t.leaves=t'.leaves) :
    t.shape=t'.shape := by
  obtain ⟨hzero,hmod,hpos⟩ := h.bits
  obtain ⟨hzero',hmod',hpos'⟩ := h'.bits
  by_cases hleft : t.left=none
  · have hleft' : t'.left=none := by
      by_contra hne
      have := hpos' hne
      have := hzero hleft
      omega
    obtain ⟨hright,hps⟩ := h.left hleft
    obtain ⟨hright',hps'⟩ := h'.left hleft'
    simp only [shape,hleft,hleft',hright,hright',hps,hps']
  · have hleft' : t'.left≠none := by
      intro hnone
      have := hpos hleft
      have := hzero' hnone
      omega
    have hsome := Option.isSome_iff_ne_none.mpr hleft
    have hsome' := Option.isSome_iff_ne_none.mpr hleft'
    have hright : t.right.isSome=t'.right.isSome := by
      have hm := hmod hleft
      have hm' := hmod' hleft'
      cases hr : t.right.isSome <;> cases hr' : t'.right.isSome <;>
        simp only [hr,hr',if_true,Bool.false_eq_true,if_false] at hm hm' <;> first | rfl | omega
    have hps : slotBits t.parents=slotBits t'.parents := by
      simp only [leaves,hsome,hsome',hright] at hleaves
      omega
    simp only [shape,hsome,hsome',hright,map_isSome_unique h.canonical h'.canonical hps]

/-- `wfcheck` lets through the shapes that appends build, and no others. -/
theorem wfcheck_iff_built (O : HashClass H) [Inhabited H] {Depth : Nat} (hD : 1≤Depth)
    (t : IncrementalMerkleTree H) :
    t.wfcheck Depth=.ok () ↔ ∃L : List H,L.length≤2^Depth ∧
      ∃t',(new : IncrementalMerkleTree H).appendAll O Depth L=(.ok (),t') ∧ t'.shape=t.shape := by
  have hbuild : ∀L : List H,L.length≤2^Depth →
      ∃t',(new : IncrementalMerkleTree H).appendAll O Depth L=(.ok (),t') ∧ Represents O t' L := by
    intro L hL
    have hall := (Represents.empty (O := O)).appendAll hD L (by simpa using hL)
    rwa [List.nil_append] at hall
  rw [wfcheck_eq_ok]
  constructor
  · intro h
    have hlen : (List.replicate t.leaves (default : H)).length=t.leaves := List.length_replicate
    obtain ⟨t',ht',hrep⟩ := hbuild (List.replicate t.leaves default) (by rw [hlen]; exact h.leaves_le)
    have hwf := hrep.wellFormed hD (by rw [hlen]; exact h.leaves_le)
    exact ⟨_,by rw [hlen]; exact h.leaves_le,t',ht',
      hwf.shape_unique h (hrep.leaves_eq.symm.trans hlen)⟩
  · rintro ⟨L,hL,t',ht',hshape⟩
    obtain ⟨t'',ht'',hrep⟩ := hbuild L hL
    obtain rfl : t''=t' := congrArg Prod.snd (ht''.symm.trans ht')
    exact (hrep.wellFormed hD hL).of_shape hshape

/-- Both directions end in `wfcheck`. -/
def format (Depth : Nat) : Codec (IncrementalMerkleTree Uint256) :=
  (((Codec.optional Wire.u256).pair <| (Codec.optional Wire.u256).pair <|
    Wire.vector (Codec.optional Wire.u256)).shaped (fun p => ⟨p.1,p.2.1,p.2.2⟩)
    (fun t => (t.left,t.right,t.parents)) (fun _ => rfl) fun _ => rfl).checked
      fun t => (t.wfcheck Depth).isOk

theorem wfcheck_isOk (Depth : Nat) (t : IncrementalMerkleTree H) :
    (t.wfcheck Depth).isOk=true ↔ t.WellFormed Depth := by
  rw [← wfcheck_eq_ok]
  cases t.wfcheck Depth with
  | ok u => simp [Except.isOk,Except.toBool]
  | error e => simp [Except.isOk,Except.toBool]

theorem optional_fits (o : Option Uint256) : (Codec.optional Wire.u256).Fits o := by
  cases o <;> trivial

theorem optional_isSome (o : Option Uint256) :
    ((Codec.optional Wire.u256).write o).isSome=true := by
  cases o <;> rfl

/-- A well formed tree of a depth within the limit of a vector is written and read back. -/
theorem WellFormed.stored {Depth : Nat} (hmax : Depth≤MAX_SIZE) {t : IncrementalMerkleTree Uint256}
    (h : t.WellFormed Depth) : (format Depth).Fits t ∧ ((format Depth).write t).isSome=true := by
  have hok := (wfcheck_isOk Depth t).mpr h
  have hlen := h.parents_lt
  refine ⟨⟨⟨optional_fits _,optional_fits _,?_⟩,hok⟩,?_⟩
  · exact ⟨hlen.le.trans hmax,fun o _ => optional_fits o⟩
  · unfold format Codec.checked
    dsimp only
    rw [if_pos hok]
    simp [optional_isSome]

end IncrementalMerkleTree

namespace IncrementalWitness

open IncrementalMerkleTree (WellFormed)

variable {H : Type} {O : HashClass H} {Depth : Nat}

/-- A caller that goes on after an exception. -/
def appendEach (O : HashClass H) (Depth : Nat) (w : IncrementalWitness H) (M : List H) :
    IncrementalWitness H := M.foldl (fun w x => (w.append O Depth x).2) w

/-- `cursor_depth` is not part of the stored form. -/
def fields (Depth : Nat) : Codec (IncrementalMerkleTree Uint256 × List Uint256 ×
    Option (IncrementalMerkleTree Uint256)) :=
  (IncrementalMerkleTree.format Depth).pair <| (Wire.vector Wire.u256).pair <|
    Codec.optional (IncrementalMerkleTree.format Depth)

/-- The object that is written has its `cursor_depth` set, too. -/
def serialize (Depth : Nat) (w : IncrementalWitness Uint256) :
    Option (List Byte) × IncrementalWitness Uint256 :=
  match (fields Depth).write (w.tree,w.filled,w.cursor) with
  | none => (none,w)
  | some e => (some e,{w with cursor_depth := w.tree.nextDepth w.filled.length})

def unserialize (Depth : Nat) : Reader (IncrementalWitness Uint256) := do
  let (tree,filled,cursor) ← (fields Depth).read
  return ⟨tree,filled,cursor,tree.nextDepth filled.length⟩

/-- Two witnesses that differ in the depth of no cursor. -/
structure Alike (w w' : IncrementalWitness H) : Prop where
  tree : w.tree=w'.tree
  filled : w.filled=w'.filled
  cursor : w.cursor=w'.cursor
  depth : w.cursor≠none → w.cursor_depth=w'.cursor_depth

theorem Alike.eq_of_cursor {w w' : IncrementalWitness H} (h : Alike w w') (hc : w.cursor≠none) :
    w=w' := by
  obtain ⟨tree,filled,cursor,depth⟩ := w
  obtain ⟨tree',filled',cursor',depth'⟩ := w'
  obtain ⟨rfl,rfl,rfl,hdepth⟩ := h
  rw [show depth=depth' from hdepth hc]

/-- Without a cursor an append sets the depth before it reads it. -/
theorem append_of_no_cursor {w : IncrementalWitness H} (hc : w.cursor=none) (d : Nat) (x : H) :
    ({w with cursor_depth := d} : IncrementalWitness H).append O Depth x=w.append O Depth x := by
  unfold IncrementalWitness.append
  rw [hc]

theorem Alike.append_eq {w w' : IncrementalWitness H} (h : Alike w w') (x : H) :
    w.append O Depth x=w'.append O Depth x := by
  by_cases hc : w.cursor=none
  · have hw' : w'={w with cursor_depth := w'.cursor_depth} := by
      obtain ⟨htree,hfilled,hcursor,-⟩ := h
      rw [htree,hfilled,hcursor]
    rw [hw']
    exact (append_of_no_cursor hc _ x).symm
  · rw [h.eq_of_cursor hc]

theorem Alike.refl (w : IncrementalWitness H) : Alike w w := ⟨rfl,rfl,rfl,fun _ => rfl⟩

theorem Alike.appendEach {w w' : IncrementalWitness H} (h : Alike w w') (M : List H) :
    Alike (w.appendEach O Depth M) (w'.appendEach O Depth M) := by
  induction M generalizing w w' with
  | nil => exact h
  | cons x M ih =>
    change Alike ((w.append O Depth x).2.appendEach O Depth M)
      ((w'.append O Depth x).2.appendEach O Depth M)
    rw [h.append_eq x]
    exact ih (.refl _)

theorem Alike.partialPath {w w' : IncrementalWitness H} (h : Alike w w') :
    w.partialPath O=w'.partialPath O := by
  by_cases hc : w.cursor=none
  · have hc' := h.cursor.symm.trans hc
    unfold IncrementalWitness.partialPath
    rw [hc,hc',h.filled]
  · rw [h.eq_of_cursor hc]

/-- What the callers of a witness can see of it. -/
theorem Alike.observe {w w' : IncrementalWitness H} (h : Alike w w') :
    w.root O Depth=w'.root O Depth ∧ w.path O Depth=w'.path O Depth ∧ w.element=w'.element ∧
      w.position=w'.position := by
  unfold IncrementalWitness.root IncrementalWitness.path element position
  rw [h.partialPath,h.tree]
  exact ⟨rfl,rfl,rfl,rfl⟩

/-- An open cursor lies below the height of the tree, at the depth that a reload finds. -/
structure Live (Depth : Nat) (w : IncrementalWitness H) : Prop where
  tree : w.tree.WellFormed Depth
  filled : w.filled.length≤Depth+1
  cursor : ∀cursor∈w.cursor,cursor.WellFormed Depth ∧
    w.cursor_depth=w.tree.nextDepth w.filled.length ∧ w.cursor_depth<Depth

theorem le_nextParentDepth (ps : List (Option H)) (d skip : Nat) :
    d+skip ≤ IncrementalMerkleTree.nextParentDepth ps d skip := by
  induction ps generalizing d skip with
  | nil => exact le_rfl
  | cons p ps ih =>
    cases p with
    | some p =>
      have hrest := ih (d+1) skip
      change d+skip ≤ IncrementalMerkleTree.nextParentDepth ps (d+1) skip
      omega
    | none =>
      cases skip with
      | zero => exact le_rfl
      | succ skip =>
        have hrest := ih (d+1) skip
        change d+(skip+1) ≤ IncrementalMerkleTree.nextParentDepth ps (d+1) skip
        omega

/-- Each hole that is skipped lies higher than the one before, the two leaves apart. -/
theorem le_nextDepth (t : IncrementalMerkleTree H) (skip : Nat) : skip≤t.nextDepth skip+1 := by
  unfold IncrementalMerkleTree.nextDepth
  cases t.left.isSome <;> cases t.right.isSome <;> rcases skip with - | - | skip <;>
    simp only [IncrementalMerkleTree.skipHole]
  all_goals
    first
    | omega
    | have := le_nextParentDepth t.parents 1 skip
      omega
    | have := le_nextParentDepth t.parents 1 (skip+1)
      omega
    | have := le_nextParentDepth t.parents 1 (skip+1+1)
      omega

theorem live_witness {t : IncrementalMerkleTree H} (h : t.WellFormed Depth) :
    Live Depth t.witness := ⟨h,Nat.zero_le _,fun _ hc => by cases hc⟩

theorem Live.append (hD : 1≤Depth) {w : IncrementalWitness H} (h : Live Depth w) (x : H) :
    Live Depth (w.append O Depth x).2 := by
  unfold IncrementalWitness.append
  cases hc : w.cursor with
  | some cursor =>
    obtain ⟨hwf,hdepth,hlt⟩ := h.cursor cursor (by rw [hc]; rfl)
    have hnext := hwf.append (O := O) x
    have hfilled := le_nextDepth w.tree w.filled.length
    dsimp only
    rcases hstep : cursor.append O Depth x with ⟨r,cursor'⟩
    rw [hstep] at hnext
    cases r with
    | error e =>
      refine ⟨h.tree,h.filled,fun c hcon => ?_⟩
      obtain rfl := Option.some.inj hcon
      exact ⟨hnext,hdepth,hlt⟩
    | ok u =>
      dsimp only
      split_ifs
      · refine ⟨h.tree,?_,fun c hcon => by cases hcon⟩
        rw [List.length_append,List.length_singleton]
        omega
      · refine ⟨h.tree,h.filled,fun c hcon => ?_⟩
        obtain rfl := Option.some.inj hcon
        exact ⟨hnext,hdepth,hlt⟩
  | none =>
    have hfilled := le_nextDepth w.tree w.filled.length
    dsimp only
    split_ifs with hfull hzero
    · exact ⟨h.tree,h.filled,fun c hcon => by cases hcon⟩
    · refine ⟨h.tree,?_,fun c hcon => by cases hcon⟩
      rw [List.length_append,List.length_singleton]
      omega
    · refine ⟨h.tree,h.filled,fun c hcon => ?_⟩
      obtain rfl := Option.some.inj hcon
      exact ⟨(IncrementalMerkleTree.wellFormed_new hD).append x,rfl,Nat.not_le.mp hfull⟩

theorem Live.appendEach (hD : 1≤Depth) {w : IncrementalWitness H} (h : Live Depth w) (M : List H) :
    Live Depth (w.appendEach O Depth M) := by
  induction M generalizing w with
  | nil => exact h
  | cons x M ih => exact ih (h.append hD x)

/-- A witness in use can be stored, and what is loaded differs from it in the depth of no
cursor. -/
theorem Live.stored {w : IncrementalWitness Uint256} (h : Live Depth w) (hmax : Depth<MAX_SIZE) :
    ∃e w',w.serialize Depth=(some e,w') ∧ Reads (unserialize Depth) e w' ∧ Alike w w' := by
  obtain ⟨htfits,htwrite⟩ := h.tree.stored hmax.le
  have hcursor : (Codec.optional (IncrementalMerkleTree.format Depth)).Fits w.cursor ∧
      ((Codec.optional (IncrementalMerkleTree.format Depth)).write w.cursor).isSome=true := by
    cases hc : w.cursor with
    | none => exact ⟨trivial,rfl⟩
    | some cursor =>
      obtain ⟨hfits,hwrite⟩ := (h.cursor cursor (by rw [hc]; rfl)).1.stored hmax.le
      refine ⟨hfits,?_⟩
      change (((IncrementalMerkleTree.format Depth).write cursor).map _).isSome=true
      rw [Option.isSome_map,hwrite]
  have hfilled := h.filled
  have hfits : (fields Depth).Fits (w.tree,w.filled,w.cursor) := by
    refine ⟨htfits,⟨?_,fun _ _ => trivial⟩,hcursor.1⟩
    exact (by omega : w.filled.length≤MAX_SIZE)
  have hwrite : ((fields Depth).write (w.tree,w.filled,w.cursor)).isSome=true := by
    simp [fields,htwrite,hcursor.2]
  obtain ⟨e,he⟩ := Option.isSome_iff_exists.mp hwrite
  refine ⟨e,{w with cursor_depth := w.tree.nextDepth w.filled.length},?_,?_,?_⟩
  · unfold serialize
    rw [he]
  · exact ((fields Depth).reads_write hfits he).map
      fun p => (⟨p.1,p.2.1,p.2.2,p.1.nextDepth p.2.1.length⟩ : IncrementalWitness Uint256)
  · refine ⟨rfl,rfl,rfl,fun hne => ?_⟩
    obtain ⟨cursor,hc⟩ := Option.ne_none_iff_exists'.mp hne
    exact (h.cursor cursor (by rw [hc]; rfl)).2.1

/-- A witness that goes through its stored form is followed step by step, exceptions included,
and `wfcheck` lets through the shapes that appends build and no others. -/
theorem reload_transparent (O : HashClass Uint256) (Depth : Nat) (hD : 1≤Depth)
    (hmax : Depth<MAX_SIZE) (t : IncrementalMerkleTree Uint256) :
    (t.wfcheck Depth=.ok () → ∀M,∃e w',
      (t.witness.appendEach O Depth M).serialize Depth=(some e,w') ∧
      Reads (unserialize Depth) e w' ∧ ∀N,
        (w'.appendEach O Depth N).root O Depth=
          ((t.witness.appendEach O Depth M).appendEach O Depth N).root O Depth ∧
        (w'.appendEach O Depth N).path O Depth=
          ((t.witness.appendEach O Depth M).appendEach O Depth N).path O Depth ∧
        (w'.appendEach O Depth N).element=
          ((t.witness.appendEach O Depth M).appendEach O Depth N).element ∧
        (w'.appendEach O Depth N).position=
          ((t.witness.appendEach O Depth M).appendEach O Depth N).position ∧
        ∀x,((w'.appendEach O Depth N).append O Depth x).1=
          (((t.witness.appendEach O Depth M).appendEach O Depth N).append O Depth x).1) ∧
    (t.wfcheck Depth=.ok () ↔ ∃L : List Uint256,L.length≤2^Depth ∧
      ∃t',IncrementalMerkleTree.appendAll O Depth .new L=(.ok (),t') ∧ t'.shape=t.shape) := by
  have : Inhabited Uint256 := ⟨0⟩
  refine ⟨fun hok M => ?_,IncrementalMerkleTree.wfcheck_iff_built O hD t⟩
  have hwf := (IncrementalMerkleTree.wfcheck_eq_ok Depth t).mp hok
  have hlive := (live_witness hwf).appendEach (O := O) hD M
  obtain ⟨e,w',hwrite,hread,halike⟩ := hlive.stored hmax
  refine ⟨e,w',hwrite,hread,fun N => ?_⟩
  have hN := @Alike.appendEach _ O Depth _ _ halike N
  obtain ⟨hroot,hpath,helement,hposition⟩ := @Alike.observe _ O Depth _ _ hN
  exact ⟨hroot.symm,hpath.symm,helement.symm,hposition.symm,
    fun x => congrArg Prod.fst (hN.append_eq x).symm⟩

theorem reload_transparent_three :
    ∃e w',((⟨some 5,none,[]⟩ : IncrementalMerkleTree Uint256).witness.appendEach addHash 4
        [6,7]).serialize 4=(some e,w') ∧
      (w'.appendEach addHash 4 [8]).root addHash 4=
        (((⟨some 5,none,[]⟩ : IncrementalMerkleTree Uint256).witness.appendEach addHash 4
          [6,7]).appendEach addHash 4 [8]).root addHash 4 := by
  obtain ⟨hreload,-⟩ := reload_transparent addHash 4 (by decide) (by decide) ⟨some 5,none,[]⟩
  obtain ⟨e,w',hwrite,-,hbehave⟩ := hreload rfl [6,7]
  exact ⟨e,w',hwrite,(hbehave [8]).1⟩

end IncrementalWitness

end Zdeex.Merkle
