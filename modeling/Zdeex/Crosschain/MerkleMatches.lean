import Zdeex.Crosschain.MerkleBranches
import Zdeex.Crosschain.PartialMerkleTree

namespace Zdeex.Crosschain.MerkleMatches

open Zdeex.Framework
open Zdeex.CrossChainProof (buildMerkleTree buildMerkleTree_eq smallHash)

section Definitions

variable (hash : Uint256 → Uint256 → Uint256) (vTxid : List Uint256) (vMatch : List Bool)

/-- Without a txid at the place there is nothing to read. -/
def calcHash (t : CPartialMerkleTree) : Nat → Nat → Option Uint256
  | 0,pos => vTxid[pos]?
  | height+1,pos =>
      (calcHash t height (pos*2)).bind fun left =>
        (if pos*2+1<t.calcTreeWidth height then calcHash t height (pos*2+1) else some left).map
          fun right => hash left right

/-- The places of the txids below a node. -/
def placesBelow (n height pos : Nat) : List Nat :=
  List.range' (pos*2^height) (min (2^height) (n-pos*2^height))

def traverseAndBuild : Nat → Nat → CPartialMerkleTree → Option CPartialMerkleTree
  | height,pos,t =>
      let fParentOfMatch :=
        (placesBelow t.nTransactions height pos).any fun p => vMatch.getD p false
      let t := {t with vBits := t.vBits++[fParentOfMatch]}
      match height,fParentOfMatch with
      | height+1,true =>
          (traverseAndBuild height (pos*2) t).bind fun t =>
            if pos*2+1<t.calcTreeWidth height then traverseAndBuild height (pos*2+1) t else some t
      | height,_ =>
          (calcHash hash vTxid t height pos).map fun h => {t with vHash := t.vHash++[h]}

/-- The constructor from txids and a mask. -/
def ofTxids : Option CPartialMerkleTree :=
  let t : CPartialMerkleTree := ⟨vTxid.length,[],[]⟩
  traverseAndBuild hash vTxid vMatch (t.treeHeight 32 0) 0 t

/-- Up to eight bits from a place on. -/
def packByte (vBits : List Bool) (k : Nat) : Byte :=
  (List.range 8).foldl (fun b j => if vBits.getD (8*k+j) false then b ||| (1#8<<<j) else b) 0#8

def packBits (vBits : List Bool) : List Byte :=
  (List.range ((vBits.length+7)/8)).map (packByte vBits)

def writePartialMerkleTree (t : CPartialMerkleTree) : List Byte :=
  toBytes (BitVec.ofNat 32 t.nTransactions)++(writeVector toBytes t.vHash++
    (writeCompactSize (packBits t.vBits).length++packBits t.vBits))

/-- The txids that the mask selects. -/
def matchedTxids : List Uint256 :=
  ((List.range vTxid.length).filter fun p => vMatch.getD p false).map fun p => vTxid.getD p 0

/-- The pairs that `TraverseAndExtract` hashes on its way. -/
def hashedBy (t : CPartialMerkleTree) : Nat → Nat → Traversal → List (Uint256 × Uint256)
  | height,pos,s =>
      match t.vBits[s.nBitsUsed]? with
      | none => []
      | some fParentOfMatch =>
          let s := {s with nBitsUsed := s.nBitsUsed+1}
          match height,fParentOfMatch with
          | height+1,true =>
              let l := t.traverseAndExtract hash height (pos*2) s
              if pos*2+1<t.calcTreeWidth height then
                let r := t.traverseAndExtract hash height (pos*2+1) l.2
                (l.1,r.1)::(hashedBy t height (pos*2) s++hashedBy t height (pos*2+1) l.2)
              else (l.1,l.1)::hashedBy t height (pos*2) s
          | _,_ => []

/-- The pairs that are hashed when the matches of a tree are extracted. -/
def hashedPairs (t : CPartialMerkleTree) : List (Uint256 × Uint256) :=
  hashedBy hash t (t.treeHeight 32 0) 0 ⟨false,0,0,[]⟩

/-- `MAX_BLOCK_SIZE(10000000)`, by the height at which Sapling is activated. -/
def maxBlockSize (saplinght : Int) : Nat :=
  if (10000000 : Int)≤0 ∨ (0<saplinght ∧ saplinght≤10000000) then 4194304 else 2000000

end Definitions

section Heights

theorem calcTreeWidth_eq (t : CPartialMerkleTree) (height : Nat) :
    t.calcTreeWidth height=MerkleTree.width t.nTransactions height := rfl

theorem treeHeight_eq (t : CPartialMerkleTree) (rounds nHeight : Nat) :
    t.treeHeight rounds nHeight=
      nHeight+MerkleTree.depth rounds (MerkleTree.width t.nTransactions nHeight) := by
  induction rounds generalizing nHeight with
  | zero => rfl
  | succ rounds ih =>
    rw [CPartialMerkleTree.treeHeight,MerkleTree.depth,calcTreeWidth_eq]
    split_ifs with hlong
    · rw [ih,MerkleTree.width_succ]
      omega
    · rfl

/-- The loop for the height stops at the root. -/
theorem treeHeight_stops {t : CPartialMerkleTree} (h : t.nTransactions≤2^32) :
    t.calcTreeWidth (t.treeHeight 32 0)≤1 := by
  rw [treeHeight_eq,Nat.zero_add,MerkleTree.width_zero,calcTreeWidth_eq]
  exact MerkleTree.width_depth h

end Heights

section Packing

/-- The first bits of a byte that is packed. -/
theorem packByte_upTo (vBits : List Bool) (k n j : Nat) (hn : n≤8) :
    ((List.range n).foldl (fun b j => if vBits.getD (8*k+j) false then b ||| (1#8<<<j) else b)
      0#8).getLsbD j=(decide (j<n) && vBits.getD (8*k+j) false) := by
  induction n with
  | zero => simp
  | succ n ih =>
    have hplace : (1#8<<<n).getLsbD j=decide (j=n) := by
      rw [BitVec.getLsbD_shiftLeft,BitVec.getLsbD_one,← Bool.decide_and,Bool.eq_iff_iff]
      simp only [Bool.and_eq_true,Bool.not_eq_true',decide_eq_true_eq,decide_eq_false_iff_not]
      omega
    rw [List.range_succ,List.foldl_append,List.foldl_cons,List.foldl_nil]
    rcases Nat.lt_trichotomy j n with hlt | rfl | hgt
    · have hne : decide (j=n)=false := decide_eq_false (by omega)
      split_ifs
      · rw [BitVec.getLsbD_or,ih (by omega),hplace,hne,Bool.or_false,decide_eq_true hlt,
          decide_eq_true (by omega : j<n+1)]
      · rw [ih (by omega),decide_eq_true hlt,decide_eq_true (by omega : j<n+1)]
    · split_ifs with hbit
      · rw [BitVec.getLsbD_or,hplace,hbit]
        simp
      · rw [ih (by omega),(Bool.not_eq_true _).mp hbit]
        simp
    · have hne : decide (j=n)=false := decide_eq_false (by omega)
      split_ifs
      · rw [BitVec.getLsbD_or,ih (by omega),hplace,hne,decide_eq_false (by omega : ¬j<n),
          decide_eq_false (by omega : ¬j<n+1),Bool.or_false]
      · rw [ih (by omega),decide_eq_false (by omega : ¬j<n),decide_eq_false (by omega : ¬j<n+1)]

theorem packByte_getLsbD (vBits : List Bool) (k : Nat) {j : Nat} (hj : j<8) :
    (packByte vBits k).getLsbD j=vBits.getD (8*k+j) false := by
  rw [packByte,packByte_upTo _ _ _ _ (le_refl 8),decide_eq_true hj,Bool.true_and]

/-- Blocks of eight, one after another. -/
theorem flatMap_blocks {α : Type} (f : Nat → α) (m : Nat) :
    (List.range m).flatMap (fun k => (List.range 8).map fun j => f (8*k+j))=
      (List.range (8*m)).map f := by
  induction m with
  | zero => rfl
  | succ m ih =>
    rw [List.range_succ (n := m),List.flatMap_append,ih,List.flatMap_singleton,Nat.mul_succ,
      List.range_add,List.map_append,List.map_map]
    rfl

theorem range_getD (vBits : List Bool) (extra : Nat) :
    (List.range (vBits.length+extra)).map (vBits.getD · false)=
      vBits++List.replicate extra false := by
  apply List.ext_getElem
  · simp
  · intro i hi hi'
    rw [List.getElem_map,List.getElem_range,List.getElem_append]
    split_ifs with hlt
    · rw [List.getD_eq_getElem _ _ hlt]
    · rw [List.getD_eq_default _ _ (by omega),List.getElem_replicate]

/-- Unpacking gives back the bits, padded to bytes. -/
theorem bitsOf_packBits (vBits : List Bool) :
    bitsOf (packBits vBits)=
      vBits++List.replicate (8*((vBits.length+7)/8)-vBits.length) false := by
  have hlen : 8*((vBits.length+7)/8)=
      vBits.length+(8*((vBits.length+7)/8)-vBits.length) := by omega
  have hbytes : bitsOf (packBits vBits)=(List.range ((vBits.length+7)/8)).flatMap
      fun k => (List.range 8).map fun j => vBits.getD (8*k+j) false := by
    rw [bitsOf,packBits,List.flatMap_map]
    refine List.flatMap_congr fun k _ => ?_
    refine List.map_congr_left fun j hj => ?_
    exact packByte_getLsbD vBits k (List.mem_range.mp hj)
  rw [hbytes,flatMap_blocks (vBits.getD · false),hlen,range_getD,Nat.add_sub_cancel_left]

/-- A tree that fits is read back with its padding. -/
theorem reads_partialMerkleTree {t : CPartialMerkleTree} (hn : t.nTransactions<2^32)
    (hhash : t.vHash.length≤MAX_SIZE) (hbits : t.vBits.length≤MAX_SIZE) :
    Reads readPartialMerkleTree (writePartialMerkleTree t)
      ⟨t.nTransactions,bitsOf (packBits t.vBits),t.vHash⟩ := by
  have hcount : (BitVec.ofNat 32 t.nTransactions).toNat=t.nTransactions := by
    rw [BitVec.toNat_ofNat,Nat.mod_eq_of_lt hn]
  have hpacked : (packBits t.vBits).length≤MAX_SIZE := by
    rw [packBits,List.length_map,List.length_range]
    omega
  have hbytes : Reads readBytes (writeCompactSize (packBits t.vBits).length++packBits t.vBits)
      (packBits t.vBits) :=
    (reads_compactSize hpacked).bind (Reads.bytes _)
  have hvector : Reads (readVector (Reader.word 256)) (writeVector toBytes t.vHash) t.vHash :=
    reads_vector hhash fun h _ => Reads.word (by decide) h
  have hread : Reads readPartialMerkleTree (writePartialMerkleTree t)
      ⟨(BitVec.ofNat 32 t.nTransactions).toNat,bitsOf (packBits t.vBits),t.vHash⟩ := by
    refine (Reads.word (by decide) (BitVec.ofNat 32 t.nTransactions)).bind (hvector.bind ?_)
    exact hbytes.map fun vBytes =>
      (⟨(BitVec.ofNat 32 t.nTransactions).toNat,bitsOf vBytes,t.vHash⟩ : CPartialMerkleTree)
  rwa [hcount] at hread

end Packing

section Places

theorem placesBelow_zero {n pos : Nat} (h : pos<n) : placesBelow n 0 pos=[pos] := by
  rw [placesBelow,pow_zero,Nat.mul_one,Nat.min_eq_left (by omega)]
  rfl

/-- The places below a node are those below its children. -/
theorem placesBelow_succ (n h pos : Nat) :
    placesBelow n (h+1) pos=placesBelow n h (pos*2)++placesBelow n h (pos*2+1) := by
  have hpow : 2^(h+1)=2^h*2 := pow_succ 2 h
  have hleft : pos*2^(h+1)=pos*2*2^h := by rw [hpow]; ring
  have hright : (pos*2+1)*2^h=pos*2*2^h+2^h := by ring
  unfold placesBelow
  rw [hleft,hright,hpow]
  generalize pos*2*2^h=s
  generalize 2^h=w
  by_cases hfull : w≤n-s
  · have hlen : min (w*2) (n-s)=w+min w (n-(s+w)) := by omega
    rw [Nat.min_eq_left hfull,hlen,List.range'_append_1]
  · have hlen : min (w*2) (n-s)=min w (n-s) := by omega
    have hnone : min w (n-(s+w))=0 := by omega
    rw [hlen,hnone,List.range'_zero,List.append_nil]

theorem placesBelow_none {n h pos : Nat} (hpos : ¬pos<MerkleTree.width n h) :
    placesBelow n h pos=[] := by
  rw [MerkleTree.lt_width_iff] at hpos
  rw [placesBelow,Nat.sub_eq_zero_of_le (by omega),Nat.min_zero]
  rfl

theorem placesBelow_pos {n h pos : Nat} (hpos : pos<MerkleTree.width n h) :
    0<(placesBelow n h pos).length := by
  have hpow := Nat.two_pow_pos h
  rw [MerkleTree.lt_width_iff] at hpos
  rw [placesBelow,List.length_range']
  omega

theorem placesBelow_root {n h : Nat} (hroot : MerkleTree.width n h≤1) :
    placesBelow n h 0=List.range n := by
  have hone : ¬1<MerkleTree.width n h := by omega
  rw [MerkleTree.lt_width_iff] at hone
  rw [placesBelow,Nat.zero_mul,Nat.sub_zero,Nat.min_eq_right (by omega),List.range_eq_range']

end Places

section Nodes

variable {hash : Uint256 → Uint256 → Uint256} {vTxid : List Uint256} {vMatch : List Bool}

/-- The node of the tree over the txids. -/
abbrev nodeAt (hash : Uint256 → Uint256 → Uint256) (vTxid : List Uint256) (height pos : Nat) :
    Uint256 :=
  (MerkleTree.levelAt hash height vTxid).getD pos 0

/-- The txids at the places that the mask selects. -/
def matchesAt (vTxid : List Uint256) (vMatch : List Bool) (places : List Nat) : List Uint256 :=
  (places.filter fun p => vMatch.getD p false).map fun p => vTxid.getD p 0

theorem matchesAt_append (places places' : List Nat) :
    matchesAt vTxid vMatch (places++places')=
      matchesAt vTxid vMatch places++matchesAt vTxid vMatch places' := by
  rw [matchesAt,List.filter_append,List.map_append]
  rfl

theorem matchesAt_nil {places : List Nat}
    (h : (places.any fun p => vMatch.getD p false)=false) : matchesAt vTxid vMatch places=[] := by
  rw [List.any_eq_false] at h
  rw [matchesAt,List.filter_eq_nil_iff.mpr h]
  rfl

/-- A node is the hash of its children, the last one with itself. -/
theorem nodeAt_succ {h pos : Nat} (hpos : pos<MerkleTree.width vTxid.length (h+1)) :
    nodeAt hash vTxid (h+1) pos=hash (nodeAt hash vTxid h (pos*2))
      (if pos*2+1<MerkleTree.width vTxid.length h then nodeAt hash vTxid h (pos*2+1)
        else nodeAt hash vTxid h (pos*2)) := by
  have hnode := @MerkleTree.levelAt_succ_getD _ hash 0 _ _ _ hpos
  rw [MerkleTree.width_succ] at hpos
  have hleft : 2*pos=pos*2 := by omega
  rw [hleft] at hnode
  rw [nodeAt,hnode]
  split_ifs with hlt
  · rw [Nat.min_eq_left (by omega)]
  · have hmin : min (pos*2+1) (MerkleTree.width vTxid.length h-1)=pos*2 := by omega
    rw [hmin]

theorem calcHash_eq {t : CPartialMerkleTree} (hn : t.nTransactions=vTxid.length) {h pos : Nat}
    (hpos : pos<MerkleTree.width vTxid.length h) :
    calcHash hash vTxid t h pos=some (nodeAt hash vTxid h pos) := by
  induction h generalizing pos with
  | zero =>
    rw [MerkleTree.width_zero] at hpos
    rw [calcHash,nodeAt,MerkleTree.levelAt,List.getD_eq_getElem _ _ hpos,
      List.getElem?_eq_getElem hpos]
  | succ h ih =>
    rw [calcHash,nodeAt_succ hpos,calcTreeWidth_eq,hn]
    rw [MerkleTree.width_succ] at hpos
    rw [ih (by omega),Option.bind_some]
    split_ifs with hlt
    · rw [ih hlt]
      rfl
    · rfl

/-- What the walk below a node leaves in the tree, and that reading takes the same way. -/
structure Piece (hash : Uint256 → Uint256 → Uint256) (vTxid : List Uint256) (vMatch : List Bool)
    (height pos : Nat) (bits : List Bool) (hashes : List Uint256) : Prop where
  built : ∀t : CPartialMerkleTree,t.nTransactions=vTxid.length →
    traverseAndBuild hash vTxid vMatch height pos t=
      some {t with vBits := t.vBits++bits, vHash := t.vHash++hashes}
  few : hashes.length≤(placesBelow vTxid.length height pos).length
  covered : hashes.length≤bits.length
  small : bits.length<2^(height+1)
  extracted : ∀(t : CPartialMerkleTree) (bits₀ bits₁ : List Bool) (hashes₀ hashes₁ : List Uint256)
      (m : List Uint256),t.nTransactions=vTxid.length → t.vBits=bits₀++(bits++bits₁) →
      t.vHash=hashes₀++(hashes++hashes₁) →
    t.traverseAndExtract hash height pos ⟨false,bits₀.length,hashes₀.length,m⟩=
      (nodeAt hash vTxid height pos,
        ⟨false,bits₀.length+bits.length,hashes₀.length+hashes.length,
          m++matchesAt vTxid vMatch (placesBelow vTxid.length height pos)⟩)

/-- The walk stops where nothing is selected. -/
theorem piece_stop {height pos : Nat} (hpos : pos<MerkleTree.width vTxid.length height)
    (hnone : ((placesBelow vTxid.length height pos).any fun p => vMatch.getD p false)=false) :
    Piece hash vTxid vMatch height pos [false] [nodeAt hash vTxid height pos] where
  built := by
    rintro ⟨n,vBits,vHash⟩ hn
    cases hn
    have hnode := @calcHash_eq hash vTxid ⟨vTxid.length,vBits++[false],vHash⟩ rfl _ _ hpos
    unfold traverseAndBuild
    simp only [hnone]
    cases height <;> simp only [hnode,Option.map_some]
  few := placesBelow_pos hpos
  covered := le_refl 1
  small := by
    have hpow := Nat.two_pow_pos height
    rw [List.length_singleton,pow_succ]
    omega
  extracted := by
    intro t bits₀ bits₁ hashes₀ hashes₁ m hn hbits hhash
    have hbit : t.vBits[bits₀.length]?=some false := by rw [hbits]; simp
    have hread : t.vHash[hashes₀.length]?=some (nodeAt hash vTxid height pos) := by
      rw [hhash]; simp
    rw [matchesAt_nil hnone,List.append_nil]
    cases height <;>
      simp only [CPartialMerkleTree.traverseAndExtract,hbit,hread,List.length_singleton,
        Bool.false_eq_true,and_false,if_false]

/-- A selected txid. -/
theorem piece_leaf {pos : Nat} (hpos : pos<vTxid.length) (hsome : vMatch.getD pos false=true) :
    Piece hash vTxid vMatch 0 pos [true] [nodeAt hash vTxid 0 pos] where
  built := by
    rintro ⟨n,vBits,vHash⟩ hn
    cases hn
    have hwidth : pos<MerkleTree.width vTxid.length 0 := by
      rw [MerkleTree.width_zero]
      exact hpos
    have hnode := @calcHash_eq hash vTxid ⟨vTxid.length,vBits++[true],vHash⟩ rfl _ _ hwidth
    simp only [traverseAndBuild,placesBelow_zero hpos,List.any_cons,List.any_nil,hsome,
      Bool.or_false,hnode,Option.map_some]
  few := by
    rw [placesBelow_zero hpos]
    exact le_refl 1
  covered := le_refl 1
  small := by decide
  extracted := by
    intro t bits₀ bits₁ hashes₀ hashes₁ m hn hbits hhash
    have hbit : t.vBits[bits₀.length]?=some true := by rw [hbits]; simp
    have hread : t.vHash[hashes₀.length]?=some (nodeAt hash vTxid 0 pos) := by rw [hhash]; simp
    have hmatch : matchesAt vTxid vMatch [pos]=[nodeAt hash vTxid 0 pos] := by
      have hkept : [pos].filter (fun p => vMatch.getD p false)=[pos] := by
        rw [List.filter_cons,if_pos hsome,List.filter_nil]
      rw [matchesAt,hkept]
      rfl
    rw [placesBelow_zero hpos,hmatch]
    simp only [CPartialMerkleTree.traverseAndExtract,hbit,hread,List.length_singleton,and_self,
      if_true]

/-- A node with two children, of which one is selected from. -/
theorem piece_both {height pos : Nat} {bits bits' : List Bool} {hashes hashes' : List Uint256}
    (hsome : ((placesBelow vTxid.length (height+1) pos).any fun p => vMatch.getD p false)=true)
    (hright : pos*2+1<MerkleTree.width vTxid.length height)
    (hne : nodeAt hash vTxid height (pos*2+1)≠nodeAt hash vTxid height (pos*2))
    (hl : Piece hash vTxid vMatch height (pos*2) bits hashes)
    (hr : Piece hash vTxid vMatch height (pos*2+1) bits' hashes') :
    Piece hash vTxid vMatch (height+1) pos (true::(bits++bits')) (hashes++hashes') where
  built := by
    rintro ⟨n,vBits,vHash⟩ hn
    cases hn
    simp only [traverseAndBuild,hsome]
    rw [hl.built _ rfl,Option.bind_some]
    refine (if_pos hright).trans ((hr.built _ rfl).trans ?_)
    simp
  few := by
    rw [placesBelow_succ,List.length_append,List.length_append]
    exact Nat.add_le_add hl.few hr.few
  covered := by
    have hl' := hl.covered
    have hr' := hr.covered
    simp only [List.length_cons,List.length_append]
    omega
  small := by
    have hl' := hl.small
    have hr' := hr.small
    simp only [List.length_cons,List.length_append]
    rw [pow_succ]
    omega
  extracted := by
    intro t bits₀ bits₁ hashes₀ hashes₁ m hn hbits hhash
    have hbit : t.vBits[bits₀.length]?=some true := by rw [hbits]; simp
    have hleft := hl.extracted t (bits₀++[true]) (bits'++bits₁) hashes₀ (hashes'++hashes₁) m hn
      (by rw [hbits]; simp) (by rw [hhash]; simp)
    have hrest := hr.extracted t (bits₀++[true]++bits) bits₁ (hashes₀++hashes) hashes₁
      (m++matchesAt vTxid vMatch (placesBelow vTxid.length height (pos*2))) hn
      (by rw [hbits]; simp) (by rw [hhash]; simp)
    have hbelow : pos<MerkleTree.width vTxid.length (height+1) := by
      rw [MerkleTree.width_succ]
      omega
    simp only [List.length_append,List.length_singleton] at hleft hrest
    have hunequal : (nodeAt hash vTxid height (pos*2+1)==nodeAt hash vTxid height (pos*2))=false :=
      beq_eq_false_iff_ne.mpr hne
    simp only [CPartialMerkleTree.traverseAndExtract,hbit,hleft,calcTreeWidth_eq,hn,hright,if_true,
      hrest,hunequal,Bool.or_false]
    rw [nodeAt_succ hbelow,if_pos hright,placesBelow_succ,matchesAt_append,List.append_assoc]
    simp only [List.length_cons,List.length_append]
    congr 2 <;> omega

/-- A node with one child. -/
theorem piece_left {height pos : Nat} {bits : List Bool} {hashes : List Uint256}
    (hsome : ((placesBelow vTxid.length (height+1) pos).any fun p => vMatch.getD p false)=true)
    (hpos : pos<MerkleTree.width vTxid.length (height+1))
    (hright : ¬pos*2+1<MerkleTree.width vTxid.length height)
    (hl : Piece hash vTxid vMatch height (pos*2) bits hashes) :
    Piece hash vTxid vMatch (height+1) pos (true::bits) hashes where
  built := by
    rintro ⟨n,vBits,vHash⟩ hn
    cases hn
    simp only [traverseAndBuild,hsome]
    rw [hl.built _ rfl,Option.bind_some]
    refine (if_neg hright).trans ?_
    simp
  few := by
    rw [placesBelow_succ,placesBelow_none hright,List.append_nil]
    exact hl.few
  covered := Nat.le_succ_of_le hl.covered
  small := by
    have hl' := hl.small
    rw [List.length_cons,pow_succ]
    omega
  extracted := by
    intro t bits₀ bits₁ hashes₀ hashes₁ m hn hbits hhash
    have hbit : t.vBits[bits₀.length]?=some true := by rw [hbits]; simp
    have hleft := hl.extracted t (bits₀++[true]) bits₁ hashes₀ hashes₁ m hn
      (by rw [hbits]; simp) hhash
    simp only [List.length_append,List.length_singleton] at hleft
    have hwidth : ¬pos*2+1<t.calcTreeWidth height := by rwa [calcTreeWidth_eq,hn]
    unfold CPartialMerkleTree.traverseAndExtract
    simp only [hbit,hleft]
    rw [if_neg hwidth]
    rw [nodeAt_succ hpos,if_neg hright,placesBelow_succ,placesBelow_none hright,List.append_nil]
    simp only [List.length_cons]
    congr 2
    omega

/-- Below every node of a tree of different nodes. -/
theorem exists_piece (hdistinct : ∀height,1<MerkleTree.width vTxid.length height →
      (MerkleTree.levelAt hash height vTxid).Nodup) {height pos : Nat}
    (hpos : pos<MerkleTree.width vTxid.length height) :
    ∃bits hashes,Piece hash vTxid vMatch height pos bits hashes := by
  cases hany : (placesBelow vTxid.length height pos).any fun p => vMatch.getD p false with
  | false => exact ⟨_,_,piece_stop hpos hany⟩
  | true =>
    induction height generalizing pos with
    | zero =>
      rw [MerkleTree.width_zero] at hpos
      rw [placesBelow_zero hpos,List.any_cons,List.any_nil,Bool.or_false] at hany
      exact ⟨_,_,piece_leaf hpos hany⟩
    | succ height ih =>
      have hbelow : ∀pos,pos<MerkleTree.width vTxid.length height →
          ∃bits hashes,Piece hash vTxid vMatch height pos bits hashes := by
        intro pos hpos
        cases hsome : (placesBelow vTxid.length height pos).any fun p => vMatch.getD p false with
        | false => exact ⟨_,_,piece_stop hpos hsome⟩
        | true => exact ih hpos hsome
      have hleft : pos*2<MerkleTree.width vTxid.length height := by
        rw [MerkleTree.width_succ] at hpos
        omega
      obtain ⟨bits,hashes,hl⟩ := hbelow _ hleft
      by_cases hright : pos*2+1<MerkleTree.width vTxid.length height
      · obtain ⟨bits',hashes',hr⟩ := hbelow _ hright
        have hnodup := hdistinct height (by omega)
        refine ⟨_,_,piece_both hany hright (fun heq => ?_) hl hr⟩
        rw [← @MerkleTree.length_levelAt _ hash] at hleft hright
        rw [nodeAt,nodeAt,List.getD_eq_getElem _ _ hright,List.getD_eq_getElem _ _ hleft,
          hnodup.getElem_inj_iff] at heq
        omega
      · exact ⟨_,_,piece_left hany hpos hright hl⟩

end Nodes

theorem maxBlockSize_le (saplinght : Int) : maxBlockSize saplinght/60≤2^17 := by
  unfold maxBlockSize
  split_ifs <;> decide

section Complete

variable {hash : Uint256 → Uint256 → Uint256} {vTxid : List Uint256}

theorem treeHeight_eq_depth {t : CPartialMerkleTree} (hn : t.nTransactions=vTxid.length)
    (hsmall : vTxid.length≤2^17) :
    t.treeHeight 32 0=MerkleTree.depth vTxid.length vTxid.length := by
  have hpow : vTxid.length≤2^vTxid.length := Nat.le_of_lt Nat.lt_two_pow_self
  rw [treeHeight_eq,Nat.zero_add,MerkleTree.width_zero,hn]
  exact MerkleTree.depth_eq (le_trans hsmall (by decide)) hpow

theorem root_eq_nodeAt (hash : Uint256 → Uint256 → Uint256) (vTxid : List Uint256) :
    (buildMerkleTree hash vTxid).1=
      nodeAt hash vTxid (MerkleTree.depth vTxid.length vTxid.length) 0 := by
  rw [buildMerkleTree_eq]
  exact MerkleTree.root_eq_levelAt _ _ (Nat.le_succ _)

/-- The loop for the height ends early enough for its shifts. -/
theorem treeHeight_le {t : CPartialMerkleTree} (h : t.nTransactions≤2^17) :
    t.treeHeight 32 0≤17 := by
  rw [treeHeight_eq,Nat.zero_add,MerkleTree.width_zero,
    MerkleTree.depth_eq (le_trans h (by decide)) h]
  exact MerkleTree.depth_le 17 _

/-- A tree that was built and read back yields its root and its matches. -/
theorem extract_of_piece {saplinght : Int} {vMatch bits padding : List Bool} {hashes : List Uint256}
    (hne : vTxid≠[]) (hlen : vTxid.length ≤ maxBlockSize saplinght/60)
    (hpiece : Piece hash vTxid vMatch (MerkleTree.depth vTxid.length vTxid.length) 0 bits hashes)
    (hpadding : (bits.length+padding.length+7)/8=(bits.length+7)/8) :
    (⟨vTxid.length,bits++padding,hashes⟩ : CPartialMerkleTree).extractMatches hash
        (maxBlockSize saplinght)=
      ((buildMerkleTree hash vTxid).1,matchedTxids vTxid vMatch) := by
  have hsmall := le_trans hlen (maxBlockSize_le saplinght)
  have hpow : vTxid.length≤2^vTxid.length := Nat.le_of_lt Nat.lt_two_pow_self
  have hroot := placesBelow_root (MerkleTree.width_depth hpow)
  have hfew := hpiece.few
  rw [hroot,List.length_range] at hfew
  have hcovered := hpiece.covered
  have hcount : vTxid.length≠0 := fun hzero => hne (List.length_eq_zero_iff.mp hzero)
  have htree : ∀t : CPartialMerkleTree,t=⟨vTxid.length,bits++padding,hashes⟩ →
      t.traverseAndExtract hash (t.treeHeight 32 0) 0 ⟨false,0,0,[]⟩=
        ((buildMerkleTree hash vTxid).1,⟨false,bits.length,hashes.length,
          matchedTxids vTxid vMatch⟩) := by
    rintro t rfl
    have hread := hpiece.extracted ⟨vTxid.length,bits++padding,hashes⟩ [] padding [] [] [] rfl rfl
      (by rw [List.nil_append,List.append_nil])
    rw [@treeHeight_eq_depth vTxid _ rfl hsmall,root_eq_nodeAt]
    rw [hroot] at hread
    simp only [List.length_nil,Nat.zero_add,List.nil_append] at hread
    exact hread
  have hwalk := htree _ rfl
  unfold CPartialMerkleTree.extractMatches
  rw [hwalk]
  simp only [List.length_append]
  rw [if_neg hcount,if_neg (by omega),if_neg (by omega),if_neg (by omega),if_neg (by decide),
    if_neg (by omega),if_neg (fun h => h rfl)]

/-- Building, writing, reading and extracting. -/
theorem round_trip {saplinght : Int} (vMatch : List Bool) (hne : vTxid≠[])
    (hlen : vTxid.length ≤ maxBlockSize saplinght/60) (hnodup : vTxid.Nodup)
    (hfree : MerkleTree.CollisionFree hash (MerkleTree.hashed hash vTxid.length vTxid)) :
    ∃t t',ofTxids hash vTxid vMatch=some t ∧
      Reads readPartialMerkleTree (writePartialMerkleTree t) t' ∧
      t'.extractMatches hash (maxBlockSize saplinght)=
        ((buildMerkleTree hash vTxid).1,matchedTxids vTxid vMatch) := by
  have hsmall := le_trans hlen (maxBlockSize_le saplinght)
  have hroot : 0<MerkleTree.width vTxid.length (MerkleTree.depth vTxid.length vTxid.length) := by
    rw [MerkleTree.lt_width_iff,Nat.zero_mul]
    exact List.length_pos_iff.mpr hne
  have hdepth : MerkleTree.depth vTxid.length vTxid.length≤17 := by
    rw [MerkleTree.depth_eq (Nat.le_of_lt Nat.lt_two_pow_self) hsmall]
    exact MerkleTree.depth_le 17 _
  obtain ⟨bits,hashes,hpiece⟩ := @exists_piece hash vTxid vMatch
    (fun height => MerkleTree.levelAt_nodup (Nat.le_succ _) hnodup hfree height) _ _ hroot
  have hfew := hpiece.few
  rw [placesBelow,List.length_range',Nat.zero_mul,Nat.sub_zero] at hfew
  have hbits : bits.length<2^18 := by
    refine lt_of_lt_of_le hpiece.small (Nat.pow_le_pow_right (by decide) ?_)
    omega
  have hmax : MAX_SIZE=33554432 := rfl
  refine ⟨⟨vTxid.length,bits,hashes⟩,_,?_,
    reads_partialMerkleTree (t := ⟨vTxid.length,bits,hashes⟩) ?_ ?_ ?_,?_⟩
  · unfold ofTxids
    dsimp only
    rw [@treeHeight_eq_depth vTxid _ rfl hsmall,hpiece.built _ rfl]
    rfl
  · exact lt_of_le_of_lt hsmall (by decide)
  · dsimp only
    omega
  · dsimp only
    omega
  · dsimp only
    rw [bitsOf_packBits]
    refine extract_of_piece hne hlen hpiece ?_
    rw [List.length_replicate]
    omega

end Complete

section Sound

variable {hash : Uint256 → Uint256 → Uint256} {t : CPartialMerkleTree} {vTxid : List Uint256}

/-- A failure is not forgotten. -/
theorem fBad_of_fBad {height pos : Nat} {s : Traversal}
    (h : (t.traverseAndExtract hash height pos s).2.fBad=false) : s.fBad=false := by
  induction height generalizing pos s with
  | zero =>
    unfold CPartialMerkleTree.traverseAndExtract at h
    cases hbit : t.vBits[s.nBitsUsed]? with
    | none => simp [hbit] at h
    | some b =>
      cases hread : t.vHash[s.nHashUsed]? with
      | none => simp [hbit,hread] at h
      | some v => simpa [hbit,hread] using h
  | succ height ih =>
    unfold CPartialMerkleTree.traverseAndExtract at h
    cases hbit : t.vBits[s.nBitsUsed]? with
    | none => simp [hbit] at h
    | some b =>
      cases b with
      | false =>
        cases hread : t.vHash[s.nHashUsed]? with
        | none => simp [hbit,hread] at h
        | some v => simpa [hbit,hread] using h
      | true =>
        simp only [hbit] at h
        split_ifs at h with hright
        · rw [Bool.or_eq_false_iff] at h
          exact ih (s := {s with nBitsUsed := s.nBitsUsed+1}) (ih h.1)
        · exact ih (s := {s with nBitsUsed := s.nBitsUsed+1}) h

/-- Below a node with the hash of the tree every match is a leaf. -/
theorem matches_of_node {ps : List (Uint256 × Uint256)} (hn : t.nTransactions=vTxid.length)
    (hfree : MerkleTree.CollisionFree hash ps) {height : Nat}
    (hpairs : ∀h<height,MerkleTree.pairs (MerkleTree.levelAt hash h vTxid)⊆ps) {pos : Nat}
    {s : Traversal} (hpos : pos<MerkleTree.width vTxid.length height)
    (hhashed : hashedBy hash t height pos s⊆ps)
    (hgood : (t.traverseAndExtract hash height pos s).2.fBad=false)
    (hnode : (t.traverseAndExtract hash height pos s).1=nodeAt hash vTxid height pos) :
    ∀m∈(t.traverseAndExtract hash height pos s).2.vMatch,m∈s.vMatch ∨ m∈vTxid := by
  induction height generalizing pos s with
  | zero =>
    unfold CPartialMerkleTree.traverseAndExtract at hgood hnode ⊢
    cases hbit : t.vBits[s.nBitsUsed]? with
    | none => simp [hbit] at hgood
    | some b =>
      cases hread : t.vHash[s.nHashUsed]? with
      | none => simp [hbit,hread] at hgood
      | some v =>
        simp only [hbit,hread] at hnode ⊢
        rw [MerkleTree.width_zero] at hpos
        rw [nodeAt,MerkleTree.levelAt,List.getD_eq_getElem _ _ hpos] at hnode
        intro m hm
        split_ifs at hm
        · rcases List.mem_append.mp hm with hold | hnew
          · exact .inl hold
          · rw [List.mem_singleton.mp hnew,hnode]
            exact .inr (List.getElem_mem hpos)
        · exact .inl hm
  | succ height ih =>
    unfold CPartialMerkleTree.traverseAndExtract at hgood hnode ⊢
    unfold hashedBy at hhashed
    cases hbit : t.vBits[s.nBitsUsed]? with
    | none => simp [hbit] at hgood
    | some b =>
      cases b with
      | false =>
        cases hread : t.vHash[s.nHashUsed]? with
        | none => simp [hbit,hread] at hgood
        | some v =>
          simp only [hread]
          intro m hm
          exact .inl (by simpa using hm)
      | true =>
        simp only [hbit] at hgood hnode hhashed ⊢
        have hlow : ∀h<height,MerkleTree.pairs (MerkleTree.levelAt hash h vTxid)⊆ps :=
          fun h hh => hpairs h (Nat.lt_succ_of_lt hh)
        have hwidth : t.calcTreeWidth height=MerkleTree.width vTxid.length height := by
          rw [calcTreeWidth_eq,hn]
        have hleft : pos*2<MerkleTree.width vTxid.length height := by
          rw [MerkleTree.width_succ] at hpos
          omega
        have hchildren : (nodeAt hash vTxid height (pos*2),
            if pos*2+1<MerkleTree.width vTxid.length height then
              nodeAt hash vTxid height (pos*2+1) else nodeAt hash vTxid height (pos*2))∈ps := by
          rw [← @MerkleTree.length_levelAt _ hash] at hleft
          have hmem := @MerkleTree.children_mem_pairs _ 0
            (MerkleTree.levelAt hash height vTxid) pos (by omega)
          rw [MerkleTree.length_levelAt] at hmem hleft
          have hpair := hpairs height (Nat.lt_succ_self _) hmem
          have hcomm : 2*pos=pos*2 := by omega
          rw [hcomm] at hpair
          split_ifs with hlt
          · rwa [Nat.min_eq_left (by omega)] at hpair
          · have hmin : min (pos*2+1) (MerkleTree.width vTxid.length height-1)=pos*2 := by omega
            rwa [hmin] at hpair
        rw [nodeAt_succ hpos] at hnode
        rw [hwidth] at hgood hnode hhashed ⊢
        split_ifs at hgood hnode hhashed hchildren ⊢ with hright
        · rw [Bool.or_eq_false_iff] at hgood
          have hpair := hfree _ (hhashed (List.mem_cons_self ..)) _ hchildren hnode
          obtain ⟨hleftNode,hrightNode⟩ := Prod.mk.inj hpair
          have hrest := (List.cons_subset.mp hhashed).2
          obtain ⟨hhl,hhr⟩ := List.append_subset.mp hrest
          intro m hm
          rcases ih hlow hright hhr hgood.1 hrightNode m hm with hold | hnew
          · exact ih hlow hleft hhl (fBad_of_fBad hgood.1) hleftNode m hold
          · exact .inr hnew
        · have hpair := hfree _ (hhashed (List.mem_cons_self ..)) _ hchildren hnode
          obtain ⟨hleftNode,-⟩ := Prod.mk.inj hpair
          exact ih hlow hleft (List.cons_subset.mp hhashed).2 hgood hleftNode

/-- Extracted matches are leaves of the tree with the extracted root. -/
theorem mem_of_extracted {saplinght : Int} {vMatch : List Uint256}
    (hn : t.nTransactions=vTxid.length)
    (hfree : MerkleTree.CollisionFree hash
      (MerkleTree.hashed hash vTxid.length vTxid++hashedPairs hash t))
    (hextract : t.extractMatches hash (maxBlockSize saplinght)=
      ((buildMerkleTree hash vTxid).1,vMatch))
    (hnull : (buildMerkleTree hash vTxid).1≠0) :
    ∀m∈vMatch,m∈vTxid := by
  unfold CPartialMerkleTree.extractMatches at hextract
  dsimp only at hextract
  have hfailed : ∀{l : List Uint256},((0 : Uint256),l)≠((buildMerkleTree hash vTxid).1,vMatch) :=
    fun h => hnull (Prod.mk.inj h).1.symm
  split_ifs at hextract with hzero hmany hhashes hbits hbad hused hleft
  · exact absurd hextract hfailed
  · exact absurd hextract hfailed
  · exact absurd hextract hfailed
  · exact absurd hextract hfailed
  · exact absurd hextract hfailed
  · exact absurd hextract hfailed
  · exact absurd hextract hfailed
  · have hsmall : vTxid.length≤2^17 := by
      have hmax := maxBlockSize_le saplinght
      omega
    obtain ⟨hroot,hmatches⟩ := Prod.mk.inj hextract
    rw [root_eq_nodeAt,← treeHeight_eq_depth hn hsmall] at hroot
    have hpow : vTxid.length≤2^vTxid.length := Nat.le_of_lt Nat.lt_two_pow_self
    have hpairs : ∀h<t.treeHeight 32 0,MerkleTree.pairs (MerkleTree.levelAt hash h vTxid)⊆
        MerkleTree.hashed hash vTxid.length vTxid++hashedPairs hash t := by
      intro h hh
      rw [treeHeight_eq_depth hn hsmall] at hh
      have hsub := @MerkleTree.pairs_levelAt_subset _ hash _ _ _ (Nat.le_succ _)
        (MerkleTree.lt_depth hh)
      exact fun p hp => List.mem_append_left _ (hsub hp)
    have hpos : 0<MerkleTree.width vTxid.length (t.treeHeight 32 0) := by
      rw [MerkleTree.lt_width_iff,Nat.zero_mul]
      omega
    have hleaves := matches_of_node hn hfree hpairs hpos (List.subset_append_right _ _)
      ((Bool.not_eq_true _).mp hbad) hroot
    intro m hm
    rcases hleaves m (hmatches ▸ hm) with hnil | hmem
    · exact absurd hnil List.not_mem_nil
    · exact hmem

end Sound

/-- A partial tree that was built, written and read back yields root and matches; what any
partial tree with the root of a block yields are txids of it; the loop for the height ends. -/
theorem partial_tree_complete_sound (hash : Uint256 → Uint256 → Uint256) (saplinght : Int)
    (vTxid : List Uint256) :
    (vTxid≠[] → vTxid.length ≤ maxBlockSize saplinght/60 → vTxid.Nodup →
      MerkleTree.CollisionFree hash (MerkleTree.hashed hash vTxid.length vTxid) →
      ∀vMatch : List Bool,vMatch.length=vTxid.length →
        ∃t t',ofTxids hash vTxid vMatch=some t ∧
          Reads readPartialMerkleTree (writePartialMerkleTree t) t' ∧
          t'.extractMatches hash (maxBlockSize saplinght)=
            ((buildMerkleTree hash vTxid).1,matchedTxids vTxid vMatch)) ∧
      (∀(t : CPartialMerkleTree) (vMatch : List Uint256),t.nTransactions=vTxid.length →
        MerkleTree.CollisionFree hash
          (MerkleTree.hashed hash vTxid.length vTxid++hashedPairs hash t) →
        t.extractMatches hash (maxBlockSize saplinght)=((buildMerkleTree hash vTxid).1,vMatch) →
        (buildMerkleTree hash vTxid).1≠0 → ∀m∈vMatch,m∈vTxid) ∧
      ∀t : CPartialMerkleTree,t.nTransactions ≤ maxBlockSize saplinght/60 →
        t.treeHeight 32 0≤17 ∧ t.calcTreeWidth (t.treeHeight 32 0)≤1 := by
  refine ⟨fun hne hlen hnodup hfree vMatch _ => round_trip vMatch hne hlen hnodup hfree,
    fun t vMatch hn hfree hextract hnull => mem_of_extracted hn hfree hextract hnull,?_⟩
  intro t ht
  have hsmall := le_trans ht (maxBlockSize_le saplinght)
  exact ⟨treeHeight_le hsmall,treeHeight_stops (le_trans hsmall (by decide))⟩

theorem three_txids_read_back :
    (∃t t',ofTxids smallHash [1,2,3] [false,false,true]=some t ∧
      Reads readPartialMerkleTree (writePartialMerkleTree t) t' ∧
      t'.extractMatches smallHash (maxBlockSize 1)=
        ((buildMerkleTree smallHash [1,2,3]).1,matchedTxids [1,2,3] [false,false,true])) ∧
      ∀m∈matchedTxids [1,2,3] [false,false,true],m∈[(1 : Uint256),2,3] := by
  have hmain := partial_tree_complete_sound smallHash 1 [1,2,3]
  exact ⟨hmain.1 (by decide) (by decide) (by decide) (by decide +kernel) _ rfl,
    hmain.2.1 ⟨3,[true,false,true,true,false,false,false,false],
      [smallHash 1 2,3]⟩ _ rfl (by decide +kernel) (by decide +kernel) (by decide +kernel)⟩

/-- Without a txid the builder reads outside the list; and the null root, which stands for
failure, is the root of a block whose only txid is null. -/
theorem partial_tree_fails :
    ¬(∀vTxid : List Uint256,vTxid.length ≤ maxBlockSize 1/60 → vTxid.Nodup →
        MerkleTree.CollisionFree smallHash (MerkleTree.hashed smallHash vTxid.length vTxid) →
        ∀vMatch : List Bool,vMatch.length=vTxid.length →
          ∃t t',ofTxids smallHash vTxid vMatch=some t ∧
            Reads readPartialMerkleTree (writePartialMerkleTree t) t' ∧
            t'.extractMatches smallHash (maxBlockSize 1)=
              ((buildMerkleTree smallHash vTxid).1,matchedTxids vTxid vMatch)) ∧
      ¬(∀(vTxid : List Uint256) (t : CPartialMerkleTree) (vMatch : List Uint256),
        t.nTransactions=vTxid.length →
        MerkleTree.CollisionFree smallHash
          (MerkleTree.hashed smallHash vTxid.length vTxid++hashedPairs smallHash t) →
        t.extractMatches smallHash (maxBlockSize 1)=((buildMerkleTree smallHash vTxid).1,vMatch) →
        ∀m∈vMatch,m∈vTxid) := by
  constructor
  · intro hall
    have hempty : ofTxids smallHash [] []=none := by decide
    obtain ⟨t,t',ht,-⟩ := hall [] (by decide) (by decide) (by decide) [] rfl
    rw [hempty] at ht
    cases ht
  · intro hall
    have hmem := hall [0] ⟨1,true::List.replicate 15 false,[7]⟩ [7] rfl (by decide) (by decide)
    exact absurd (hmem 7 (List.mem_singleton_self _)) (by decide)

end Zdeex.Crosschain.MerkleMatches
