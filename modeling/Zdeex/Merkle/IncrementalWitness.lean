import Zdeex.Merkle.TreeRoot

namespace Zdeex.Merkle

open Zdeex.Framework NodeHash

/-- A frozen tree, the roots of the uncles that have filled since, and the uncle
in progress. -/
structure IncrementalWitness (H : Type) where
  tree : IncrementalMerkleTree H
  filled : List H
  cursor : Option (IncrementalMerkleTree H)
  cursor_depth : Nat
  deriving DecidableEq

def IncrementalMerkleTree.witness {H : Type} (t : IncrementalMerkleTree H) :
    IncrementalWitness H := ⟨t,[],none,0⟩

namespace IncrementalWitness

variable {H : Type} (O : HashClass H) (Depth : Nat)

def partialPath (w : IncrementalWitness H) : List H :=
  match w.cursor with
  | none => w.filled
  | some cursor => w.filled++[cursor.rootAt O w.cursor_depth []]

def element (w : IncrementalWitness H) : Except String H := w.tree.last

def root (w : IncrementalWitness H) : H := w.tree.rootAt O Depth (w.partialPath O)

def path (w : IncrementalWitness H) : Except String MerklePath :=
  w.tree.path O Depth (w.partialPath O)

def append (w : IncrementalWitness H) (obj : H) : Except String Unit × IncrementalWitness H :=
  match w.cursor with
  | some cursor =>
      match cursor.append O Depth obj with
      | (.error e,cursor) => (.error e,{w with cursor := some cursor})
      | (.ok _,cursor) =>
          if cursor.isComplete w.cursor_depth then
            (.ok (),{w with
              filled := w.filled++[cursor.rootAt O w.cursor_depth []]
              cursor := none})
          else (.ok (),{w with cursor := some cursor})
  | none =>
      let depth := w.tree.nextDepth w.filled.length
      if depth≥Depth then (.error "tree is full",{w with cursor_depth := depth})
      else if depth=0 then
        (.ok (),{w with filled := w.filled++[obj],cursor_depth := depth})
      else
        let r := IncrementalMerkleTree.append O Depth .new obj
        (r.1,{w with cursor := some r.2,cursor_depth := depth})

def appendAll : IncrementalWitness H → List H → Except String Unit × IncrementalWitness H
  | w,[] => (.ok (),w)
  | w,x::xs =>
      match w.append O Depth x with
      | (.ok _,w') => appendAll w' xs
      | (.error e,w') => (.error e,w')

end IncrementalWitness

/-- Hashing from a leaf to the root; the path is stored from the root downwards. -/
def MerklePath.fold {H : Type} (O : HashClass H) (ofBits : List Bool → H) (p : MerklePath)
    (leaf : H) : H :=
  O.foldPath 0 leaf (p.index.reverse.zip (p.authentication_path.reverse.map ofBits))

/-- The number that the direction bits spell, highest bit first. -/
def MerklePath.position (p : MerklePath) : Nat := p.index.foldl (fun n b => 2*n+b.toNat) 0

namespace IncrementalMerkleTree

variable {H : Type}

theorem holeAt_replicate {d n k h : Nat}
    (hh : holeAt d (List.replicate n (none : Option H)) k=some h) : h=d+k := by
  induction n generalizing d k with
  | zero => simp [holeAt] at hh
  | succ n ih =>
    rw [List.replicate_succ] at hh
    cases k with
    | zero => exact (Option.some.inj hh).symm
    | succ k =>
      have := ih (d := d+1) hh
      omega

theorem nextParentDepth_eq {ps : List (Option H)} {n d k h : Nat}
    (hh : holeAt d (ps++List.replicate n none) k=some h) : nextParentDepth ps d k=h := by
  induction ps generalizing d k with
  | nil => exact (holeAt_replicate hh).symm
  | cons p ps ih =>
    cases p with
    | some p => exact ih (d := d+1) hh
    | none =>
      cases k with
      | zero => exact Option.some.inj hh
      | succ k => exact ih (d := d+1) hh

/-- `next_depth` finds the holes above the last leaf. -/
theorem Represents.nextDepth_eq {O : HashClass H} {t : IncrementalMerkleTree H} {L : List H}
    (h : Represents O t L) (hL : L≠[]) {Depth k d : Nat}
    (hd : holeAt 0 (slots Depth t) k=some d) : t.nextDepth k=d := by
  cases h with
  | empty => exact absurd rfl hL
  | odd a _ _ =>
    cases k with
    | zero => exact Option.some.inj hd
    | succ k => exact nextParentDepth_eq hd
  | even a b _ _ => exact nextParentDepth_eq hd

theorem pathAbove_eq (O : HashClass H) (n d : Nat) (q : List H) :
    pathAbove O n d q=O.siblings d (List.replicate n none) q := by
  induction n generalizing d q with
  | zero => rfl
  | succ n ih =>
    rw [List.replicate_succ,siblings,← ih]
    rfl

theorem pathParents_append (O : HashClass H) (ps : List (Option H)) (n d : Nat) (q : List H) :
    (pathParents O ps d q).1++
      pathAbove O n (pathParents O ps d q).2.1 (pathParents O ps d q).2.2=
        O.siblings d (ps++List.replicate n none) q ∧
      (pathParents O ps d q).2.1=d+ps.length := by
  induction ps generalizing d q with
  | nil => exact ⟨pathAbove_eq O n d q,rfl⟩
  | cons p ps ih =>
    cases p with
    | none =>
      obtain ⟨hs,hd⟩ := ih (d+1) (O.next q d).2
      refine ⟨congrArg _ hs,hd.trans ?_⟩
      rw [List.length_cons]
      omega
    | some p =>
      obtain ⟨hs,hd⟩ := ih (d+1) q
      refine ⟨congrArg _ hs,hd.trans ?_⟩
      rw [List.length_cons]
      omega

/-- The steps of a path are the siblings on the climb from the last leaf. -/
theorem pathSteps_eq (O : HashClass H) (Depth : Nat) (a : H) (right : Option H)
    (ps : List (Option H)) (q : List H) :
    pathSteps O Depth ⟨some a,right,ps⟩ a q=O.siblings 0 (slots Depth ⟨some a,right,ps⟩) q := by
  cases right with
  | none =>
    obtain ⟨hs,hd⟩ := pathParents_append O ps (Depth-(1+ps.length)) 1 (O.next q 0).2
    rw [hd] at hs
    simp only [pathSteps,hd]
    exact congrArg _ hs
  | some b =>
    obtain ⟨hs,hd⟩ := pathParents_append O ps (Depth-(1+ps.length)) 1 q
    rw [hd] at hs
    simp only [pathSteps,hd]
    exact congrArg _ hs

theorem Represents.path_eq {O : HashClass H} {t : IncrementalMerkleTree H} {L : List H}
    (h : Represents O t L) (hL : L≠[]) (Depth : Nat) (q : List H) :
    t.path O Depth q=.ok
      ⟨((O.siblings 0 (slots Depth t) q).map fun s =>
        convertBytesVectorToVector (O.bytes s.2)).reverse,
        ((O.siblings 0 (slots Depth t) q).map Prod.fst).reverse⟩ := by
  cases h with
  | empty => exact absurd rfl hL
  | odd a _ _ => simp only [path,pathSteps_eq]
  | even a b _ _ => simp only [path,pathSteps_eq]

end IncrementalMerkleTree

/-- Folding the stored path undoes its reversal and its conversion to bits. -/
theorem fold_path {H : Type} (O : HashClass H) (ofBits : List Bool → H)
    (hbits : ∀h,ofBits (convertBytesVectorToVector (O.bytes h))=h) (steps : List (Bool × H))
    (leaf : H) :
    MerklePath.fold O ofBits
      ⟨(steps.map fun s => convertBytesVectorToVector (O.bytes s.2)).reverse,
        (steps.map Prod.fst).reverse⟩ leaf=O.foldPath 0 leaf steps := by
  unfold MerklePath.fold
  dsimp only
  rw [List.reverse_reverse,List.reverse_reverse,List.map_map]
  congr 1
  induction steps with
  | nil => rfl
  | cons s steps ih =>
    simp only [List.map_cons,List.zip_cons_cons,ih,Function.comp_apply,hbits]

private theorem getElem?_flatMap_block {α β : Type} (f : α → List β) (n : Nat)
    (hf : ∀a,(f a).length=n) (l : List α) (i j : Nat) (hj : j<n) :
    (l.flatMap f)[n*i+j]?=l[i]?.bind fun a => (f a)[j]? := by
  induction l generalizing i with
  | nil => simp
  | cons a l ih =>
    rw [List.flatMap_cons]
    cases i with
    | zero =>
      rw [Nat.mul_zero,Nat.zero_add,List.getElem?_append_left (by rw [hf]; exact hj)]
      rfl
    | succ i =>
      have hshift : n*(i+1)+j-(f a).length=n*i+j := by
        rw [hf,Nat.mul_succ]
        omega
      rw [List.getElem?_append_right (by rw [hf,Nat.mul_succ]; omega),hshift,ih i]
      rfl

/-- Reads the bits of a path back into a hash. -/
def uint256OfBits (bits : List Bool) : Uint256 :=
  (BitVec.ofBoolListLE ((List.range 256).map fun k =>
    bits.getD (8*(k/8)+(7-k%8)) false)).setWidth 256

theorem uint256OfBits_bits (h : Uint256) :
    uint256OfBits (convertBytesVectorToVector (uint256Bytes h))=h := by
  apply BitVec.eq_of_getLsbD_eq
  intro k hk
  have hblock := getElem?_flatMap_block
    (fun c : BitVec 8 => (List.range 8).map fun j => c.getLsbD (7-j)) 8
    (by simp) (uint256Bytes h) (k/8) (7-k%8) (by omega)
  have hbyte : (uint256Bytes h)[k/8]?=some (h.extractLsb' (8*(k/8)) 8) := by
    rw [uint256Bytes,List.getElem?_map,List.getElem?_range (by omega)]
    rfl
  rw [hbyte,Option.bind_some,List.getElem?_map,List.getElem?_range (by omega)] at hblock
  have hbit : (7-(7-k%8))=k%8 := by omega
  have hpos : 8*(k/8)+k%8=k := by omega
  unfold uint256OfBits
  rw [BitVec.getLsbD_setWidth,BitVec.getLsbD_ofBoolListLE,List.getD_eq_getElem?_getD,
    List.getElem?_map,List.getElem?_range hk]
  simp only [hk,decide_true,Bool.true_and,Option.map_some,Option.getD_some,
    List.getD_eq_getElem?_getD]
  unfold convertBytesVectorToVector
  rw [hblock]
  simp only [Option.map_some,Option.getD_some,hbit,BitVec.getLsbD_extractLsb',hpos]
  simp
  omega

theorem foldl_reverse_bits (bits : List Bool) :
    bits.reverse.foldl (fun n b => 2*n+b.toNat) 0=bits.foldr (fun b n => 2*n+b.toNat) 0 := by
  rw [List.foldl_reverse]

theorem foldr_slotBits {α : Type} (ss : List (Option α)) :
    (ss.map Option.isSome).foldr (fun b n => 2*n+b.toNat) 0=slotBits ss := by
  induction ss with
  | nil => rfl
  | cons s ss ih =>
    rw [List.map_cons,List.foldr_cons,ih,slotBits]
    omega

namespace IncrementalWitness

variable {H : Type} {O : HashClass H} {Depth : Nat}

open IncrementalMerkleTree (Represents slots)

/-- The leaves `R` appended since the witness was taken sit in the holes of its
tree; the cursor holds those of the subtree in progress. -/
def Follows (O : HashClass H) (Depth : Nat) (w : IncrementalWitness H) (R : List H) : Prop :=
  ∃C,O.Filling 0 (slots Depth w.tree) w.filled C R ∧
    match w.cursor with
    | none => C=[]
    | some cursor => C≠[] ∧ C.length<2^w.cursor_depth ∧ Represents O cursor C ∧
        holeAt 0 (slots Depth w.tree) w.filled.length=some w.cursor_depth

theorem one_le_of_lt_pow {C : List H} {k : Nat} (hne : C≠[]) (hlt : C.length<2^k) : 1≤k := by
  have hpos := List.length_pos_iff.mpr hne
  cases k with
  | zero => exact absurd (by simpa using hlt) hne
  | succ k => omega

theorem Follows.partialPath (hO : O.Lawful) {w : IncrementalWitness H} {R : List H}
    (h : Follows O Depth w R) : O.Supplies 0 (slots Depth w.tree) (w.partialPath O) R := by
  obtain ⟨C,hfill,hcursor⟩ := h
  unfold IncrementalWitness.partialPath
  cases hc : w.cursor with
  | none =>
    rw [hc] at hcursor
    have hsupplies : O.Supplies 0 (slots Depth w.tree) (w.filled++[]) R :=
      hfill.supplies hO (.inl ⟨hcursor,rfl⟩)
    simpa using hsupplies
  | some cursor =>
    rw [hc] at hcursor
    obtain ⟨hne,hlt,hrep,hhole⟩ := hcursor
    have hroot : cursor.rootAt O w.cursor_depth []=O.treeRoot w.cursor_depth C :=
      hrep.root_eq hO (one_le_of_lt_pow hne hlt) hlt.le
    exact hfill.supplies hO (.inr ⟨w.cursor_depth,hhole,by rw [hroot]⟩)

/-- One append keeps the witness in step, as long as the tree has room. -/
theorem Follows.append (hO : O.Lawful) (hD : 1≤Depth) {w : IncrementalWitness H} {L R : List H}
    (htree : Represents O w.tree L) (hL : L≠[]) (hlen : w.tree.parents.length<Depth)
    (h : Follows O Depth w R) (hroom : R.length<capacity 0 (slots Depth w.tree)) (x : H) :
    ∃w',w.append O Depth x=(.ok (),w') ∧ w'.tree=w.tree ∧ Follows O Depth w' (R++[x]) := by
  obtain ⟨C,hfill,hcursor⟩ := h
  obtain ⟨k,hk,hC,hfull,hmore⟩ := hfill.append hroom x
  have hkD : k<Depth := by
    have := (holeAt_bounds hk).2
    rw [IncrementalMerkleTree.slots_length hlen] at this
    omega
  unfold IncrementalWitness.append
  cases hc : w.cursor with
  | some cursor =>
    rw [hc] at hcursor
    obtain ⟨hne,hlt,hrep,hhole⟩ := hcursor
    obtain rfl : k=w.cursor_depth := Option.some.inj (hk.symm.trans hhole)
    have hdepth := one_le_of_lt_pow hne hlt
    have hpow : 2^w.cursor_depth≤2^Depth := Nat.pow_le_pow_right (by omega) hkD.le
    obtain ⟨c',hc',hrep'⟩ := hrep.append hD (by omega) x
    have hcomplete := hrep'.isComplete_iff hdepth
    rw [List.length_append,List.length_singleton] at hcomplete
    dsimp only
    rw [hc']
    dsimp only
    by_cases hdone : C.length+1=2^w.cursor_depth
    · have hroot : c'.rootAt O w.cursor_depth []=O.treeRoot w.cursor_depth (C++[x]) :=
        hrep'.root_eq hO hdepth (by simp; omega)
      rw [if_pos (hcomplete.mpr hdone),hroot]
      exact ⟨_,rfl,rfl,[],hfull hdone,rfl⟩
    · rw [if_neg (fun hcon => hdone (hcomplete.mp hcon))]
      exact ⟨_,rfl,rfl,C++[x],hmore (by omega),by simp,by simp; omega,hrep',hhole⟩
  | none =>
    rw [hc] at hcursor
    subst hcursor
    have hnext : w.tree.nextDepth w.filled.length=k := htree.nextDepth_eq hL hk
    dsimp only
    rw [hnext,if_neg (by omega)]
    by_cases hzero : k=0
    · subst hzero
      rw [if_pos rfl]
      exact ⟨_,rfl,rfl,[],hfull rfl,rfl⟩
    · have hone : 1<2^k := Nat.one_lt_two_pow hzero
      have hroomD : 0<2^Depth := Nat.pos_of_ne_zero (by simp)
      obtain ⟨c',hc',hrep'⟩ := (Represents.empty (O := O)).append hD hroomD x
      rw [if_neg hzero,hc']
      exact ⟨_,rfl,rfl,[x],hmore (by simpa using hone),by simp,by simpa using hone,hrep',hk⟩

theorem Follows.appendAll (hO : O.Lawful) (hD : 1≤Depth) {w : IncrementalWitness H}
    {L R : List H} (htree : Represents O w.tree L) (hL : L≠[])
    (hlen : w.tree.parents.length<Depth) (h : Follows O Depth w R) (M : List H)
    (hroom : R.length+M.length ≤ capacity 0 (slots Depth w.tree)) :
    ∃w',w.appendAll O Depth M=(.ok (),w') ∧ w'.tree=w.tree ∧ Follows O Depth w' (R++M) := by
  induction M generalizing w R with
  | nil => exact ⟨w,rfl,rfl,by simpa using h⟩
  | cons x M ih =>
    rw [List.length_cons] at hroom
    obtain ⟨w₁,h₁,htree₁,hfol⟩ := h.append hO hD htree hL hlen (by omega) x
    rw [← htree₁] at htree hlen hroom
    obtain ⟨w',h',htree',hfol'⟩ := ih htree hlen hfol (by simp; omega)
    refine ⟨w',?_,htree'.trans htree₁,by simpa using hfol'⟩
    rw [IncrementalWitness.appendAll,h₁]
    exact h'

/-- A witness stays in step with its tree for as many leaves as the tree can
take: same root, the witnessed leaf, and a path from it to that root whose
direction bits are the position of the leaf. -/
theorem witness_agrees (O : HashClass H) (hO : O.Lawful) (ofBits : List Bool → H)
    (hbits : ∀h,ofBits (convertBytesVectorToVector (O.bytes h))=h) (Depth : Nat) (hD : 1≤Depth)
    (L₁ L₂ : List H) (hne : L₁≠[]) (hlen : L₁.length+L₂.length≤2^Depth) :
    ∃t₁ t w,IncrementalMerkleTree.appendAll O Depth .new L₁=(.ok (),t₁) ∧
      t₁.appendAll O Depth L₂=(.ok (),t) ∧ t₁.witness.appendAll O Depth L₂=(.ok (),w) ∧
      w.root O Depth=t.root O Depth ∧ w.element=.ok (L₁.getLast hne) ∧
      ∃p,w.path O Depth=.ok p ∧ p.fold O ofBits (L₁.getLast hne)=t.root O Depth ∧
        p.index.length=Depth ∧ p.position=L₁.length-1 := by
  obtain ⟨t₁,ht₁,hrep₁⟩ := (Represents.empty (O := O)).appendAll hD L₁ (by simp; omega)
  rw [List.nil_append] at hrep₁
  obtain ⟨t,ht,hrep⟩ := hrep₁.appendAll hD L₂ hlen
  have hparents : t₁.parents.length<Depth := hrep₁.parents_length_lt hD (by omega)
  obtain ⟨P,x,hP,hlast,hfront,hroot⟩ := hrep₁.lastLeaf hne Depth
  have hslots := IncrementalMerkleTree.slots_length hparents
  have hx : L₁.getLast hne=x := by simp [hP]
  have htotal := hfront.length_add_capacity
  rw [hslots,Nat.zero_add] at htotal
  have hroom : L₂.length ≤ capacity 0 (slots Depth t₁) := by
    rw [hP,List.length_append,List.length_singleton] at hlen
    omega
  have hstart : Follows O Depth t₁.witness [] := ⟨[],filling_nil _ 0 _,rfl⟩
  obtain ⟨w,hw,hwtree,hfol⟩ :=
    hstart.appendAll hO hD (w := t₁.witness) hrep₁ hne hparents L₂
      (by rw [List.length_nil,Nat.zero_add]; exact hroom)
  have hwtree : w.tree=t₁ := hwtree
  have hsupply : O.Supplies 0 (slots Depth t₁) (w.partialPath O) L₂ := by
    have := hfol.partialPath hO
    rwa [hwtree,List.nil_append] at this
  have hfold : O.foldPath 0 x (O.siblings 0 (slots Depth t₁) (w.partialPath O))=
      t.root O Depth := by
    have := hfront.foldPath_eq _ _ [x] (by simp) (.inl rfl) hsupply
    rw [hslots,Nat.zero_add,← hP] at this
    rw [hrep.root_eq hO hD (by simpa using hlen)]
    exact this
  refine ⟨t₁,t,w,ht₁,ht,hw,?_,?_,?_⟩
  · rw [IncrementalWitness.root,hwtree,hroot,hfold]
  · rw [IncrementalWitness.element,hwtree,hlast,hx]
  · have hpath := hrep₁.path_eq hne Depth (w.partialPath O)
    rw [← hwtree] at hpath
    refine ⟨_,hpath,?_,?_,?_⟩
    · rw [fold_path O ofBits hbits,hwtree,hx,hfold]
    · rw [hwtree,List.length_reverse,siblings_fst,List.length_map,hslots]
    · have hbitsLen := hfront.length_eq
      unfold MerklePath.position
      rw [hwtree,siblings_fst,foldl_reverse_bits,foldr_slotBits,hP,List.length_append]
      simp at hbitsLen ⊢
      omega

theorem witness_agrees_three :
    ∃t₁ t w,IncrementalMerkleTree.appendAll addHash 2 .new [5,6]=(.ok (),t₁) ∧
      t₁.appendAll addHash 2 [7]=(.ok (),t) ∧ t₁.witness.appendAll addHash 2 [7]=(.ok (),w) ∧
      w.root addHash 2=t.root addHash 2 ∧
      ∃p,w.path addHash 2=.ok p ∧ p.fold addHash uint256OfBits 6=t.root addHash 2 ∧
        p.position=1 := by
  obtain ⟨t₁,t,w,ht₁,ht,hw,hroot,-,p,hp,hfold,-,hpos⟩ :=
    witness_agrees addHash addHash_lawful uint256OfBits uint256OfBits_bits 2 (by decide) [5,6] [7]
      (by simp) (by decide)
  exact ⟨t₁,t,w,ht₁,ht,hw,hroot,p,hp,hfold,hpos⟩

end IncrementalWitness

end Zdeex.Merkle
