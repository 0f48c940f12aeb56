import Zdeex.Crosschain.CrossChainProof
import Zdeex.Cc.ImportPayload

namespace Zdeex.CrossChainProof

open Zdeex.Crosschain (MerkleBranch foldBranch safeCheckMerkleBranch)
open Zdeex.Cc (writeMerkleBranch readMerkleBranch reads_merkleBranch indexBack)
open Zdeex.Framework

section Definitions

variable (hash : Uint256 → Uint256 → Uint256)

/-- The nodes so far, and whether a level has ended with two identical hashes. -/
structure TreeState where
  vMerkleTree : List Uint256
  mutated : Bool
  deriving DecidableEq

/-- One round of the inner loop of `BuildMerkleTree`, with `i=2*round`. -/
def hashRound (nSize j : Nat) (s : TreeState) (round : Nat) : TreeState :=
  let i := 2*round
  let i2 := min (i+1) (nSize-1)
  let left := s.vMerkleTree.getD (j+i) 0
  let right := s.vMerkleTree.getD (j+i2) 0
  ⟨s.vMerkleTree++[hash left right],
    s.mutated || decide (i2=i+1 ∧ i2+1=nSize ∧ left=right)⟩

def hashLevel (nSize j : Nat) (s : TreeState) : TreeState :=
  (List.range ((nSize+1)/2)).foldl (hashRound hash nSize j) s

/-- The outer loop, from the level with `nSize` nodes that begins at `j`. -/
def treeLoop : Nat → Nat → Nat → TreeState → TreeState
  | 0,_,_,s => s
  | rounds+1,nSize,j,s =>
      if 1 < nSize then treeLoop rounds ((nSize+1)/2) (j+nSize) (hashLevel hash nSize j s) else s

/-- The root with the tree it is built from. -/
def buildMerkleTree (leaves : List Uint256) : Uint256 × TreeState :=
  let s := treeLoop hash leaves.length leaves.length 0 ⟨leaves,false⟩
  (s.vMerkleTree.getLastD 0,s)

/-- The loop of `GetMerkleBranch`. -/
def branchLoop (vMerkleTree : List Uint256) : Nat → Nat → Nat → Nat → List Uint256
  | 0,_,_,_ => []
  | rounds+1,nSize,j,nIndex =>
      if 1 < nSize then
        vMerkleTree.getD (j+min (nIndex^^^1) (nSize-1)) 0::
          branchLoop vMerkleTree rounds ((nSize+1)/2) (j+nSize) (nIndex/2)
      else []

def getMerkleBranch (nIndex nLeaves : Nat) (vMerkleTree : List Uint256) : List Uint256 :=
  branchLoop vMerkleTree nLeaves nLeaves 0 nIndex

def checkMerkleBranch (h : Uint256) (vMerkleBranch : List Uint256) (nIndex : Int) : Uint256 :=
  if nIndex= -1 then 0 else foldBranch hash vMerkleBranch nIndex h

end Definitions

section Tree

variable {hash : Uint256 → Uint256 → Uint256}

/-- The level that a tree is built on begins at `j`, and is its end. -/
structure EndsWith (s : TreeState) (j : Nat) (before level : List Uint256) : Prop where
  tree : s.vMerkleTree=before++level
  begins : j=before.length

/-- The inner loop after some of its rounds. -/
theorem foldl_hashRound (hash : Uint256 → Uint256 → Uint256) {s : TreeState} {j : Nat} {before level : List Uint256}
    (hs : EndsWith s j before level) (rounds : Nat) (hrounds : rounds≤(level.length+1)/2) :
    (List.range rounds).foldl (hashRound hash level.length j) s=
      ⟨before++level++(MerkleTree.up hash level).take rounds,
        s.mutated || decide (MerkleTree.EndTwins 0 level ∧ level.length≤2*rounds)⟩ := by
  obtain ⟨htree,rfl⟩ := hs
  induction rounds with
  | zero =>
    have hno : ¬(MerkleTree.EndTwins 0 level ∧ level.length≤2*0) := by
      rintro ⟨⟨hlong,-⟩,hshort⟩
      omega
    rw [decide_eq_false hno,Bool.or_false,List.take_zero,List.append_nil,← htree]
    rfl
  | succ rounds ih =>
    have hlt : 2*rounds<level.length := by omega
    have hread : ∀k < level.length,
        (before++level++(MerkleTree.up hash level).take rounds).getD (before.length+k) 0=
          level.getD k 0 := by
      intro k hk
      rw [List.append_assoc,List.getD_append_right _ _ _ _ (by omega),Nat.add_sub_cancel_left,
        List.getD_append _ _ _ _ hk]
    have hnode : (MerkleTree.up hash level).getD (2*rounds/2) 0=_ :=
      MerkleTree.up_getD level (2*rounds) hlt
    rw [if_neg (by omega),Nat.mul_div_cancel_left _ (by decide)] at hnode
    have hup : rounds<(MerkleTree.up hash level).length := by
      rw [MerkleTree.length_up]
      omega
    rw [List.range_succ,List.foldl_append,ih (by omega),List.foldl_cons,List.foldl_nil,hashRound]
    dsimp only
    rw [hread _ hlt,hread _ (by omega),← hnode,List.append_assoc,
      List.getD_eq_getElem _ _ hup,← List.take_succ_eq_append_getElem hup,Bool.or_assoc]
    congr 2
    rw [← Bool.decide_or,decide_eq_decide]
    by_cases hlast : level.length=2*rounds+2
    · have hmin : min (2*rounds+1) (level.length-1)=2*rounds+1 := by omega
      have h₂ : level.length-2=2*rounds := by omega
      have h₁ : level.length-1=2*rounds+1 := by omega
      unfold MerkleTree.EndTwins
      rw [hmin,h₂,h₁]
      constructor
      · rintro (⟨-,hshort⟩ | ⟨-,-,heq⟩)
        · omega
        · exact ⟨⟨by omega,by omega,heq⟩,by omega⟩
      · rintro ⟨⟨-,-,heq⟩,-⟩
        exact .inr ⟨rfl,by omega,heq⟩
    · constructor
      · rintro (⟨htwins,hshort⟩ | ⟨hsecond,hend,-⟩)
        · exact ⟨htwins,by omega⟩
        · omega
      · rintro ⟨⟨hlong,heven,heq⟩,hshort⟩
        exact .inl ⟨⟨hlong,heven,heq⟩,by omega⟩

theorem hashLevel_eq {s : TreeState} {j : Nat} {before level : List Uint256}
    (hs : EndsWith s j before level) : hashLevel hash level.length j s=
      ⟨before++level++MerkleTree.up hash level,
        s.mutated || decide (MerkleTree.EndTwins 0 level)⟩ := by
  have hrounds := foldl_hashRound hash hs ((level.length+1)/2) le_rfl
  have hall : MerkleTree.EndTwins 0 level ∧ level.length≤2*((level.length+1)/2) ↔
      MerkleTree.EndTwins 0 level := and_iff_left (by omega)
  rw [List.take_of_length_le (by rw [MerkleTree.length_up])] at hrounds
  simp only [hall] at hrounds
  exact hrounds

/-- The vector of all nodes holds level after level. -/
theorem treeLoop_eq (hash : Uint256 → Uint256 → Uint256) (rounds : Nat) {s : TreeState} {j : Nat} {before level : List Uint256}
    (hs : EndsWith s j before level) : treeLoop hash rounds level.length j s=
      ⟨before++MerkleTree.build hash rounds level,
        s.mutated || MerkleTree.mutated hash 0 rounds level⟩ := by
  induction rounds generalizing s j before level with
  | zero =>
    rw [MerkleTree.build,MerkleTree.mutated,Bool.or_false,← hs.tree]
    rfl
  | succ rounds ih =>
    rw [treeLoop,MerkleTree.build,MerkleTree.mutated]
    split_ifs with hlong
    · have hnext : EndsWith (hashLevel hash level.length j s) (j+level.length) (before++level)
          (MerkleTree.up hash level) := by
        rw [hashLevel_eq hs]
        exact ⟨rfl,by rw [hs.begins,List.length_append]⟩
      have hrest := ih hnext
      rw [MerkleTree.length_up] at hrest
      rw [hrest,hashLevel_eq hs,List.append_assoc,Bool.or_assoc]
    · rw [Bool.or_false,← hs.tree]

theorem buildMerkleTree_eq (leaves : List Uint256) : buildMerkleTree hash leaves=
    (MerkleTree.root hash 0 leaves.length leaves,
      ⟨MerkleTree.build hash leaves.length leaves,
        MerkleTree.mutated hash 0 leaves.length leaves⟩) := by
  have hloop := treeLoop_eq hash leaves.length
    (⟨rfl,rfl⟩ : EndsWith ⟨leaves,false⟩ 0 [] leaves)
  rw [List.nil_append,Bool.false_or] at hloop
  unfold buildMerkleTree
  dsimp only
  rw [hloop,MerkleTree.build_getLastD _ _ (by omega)]

theorem branchLoop_eq (vMerkleTree : List Uint256) (rounds nSize j nIndex : Nat) :
    branchLoop vMerkleTree rounds nSize j nIndex=
      MerkleTree.branch 0 vMerkleTree rounds nSize j nIndex := by
  induction rounds generalizing nSize j nIndex with
  | zero => rfl
  | succ rounds ih => rw [branchLoop,MerkleTree.branch,ih]

theorem getMerkleBranch_buildMerkleTree {leaves : List Uint256} {i : Nat} (hi : i<leaves.length) :
    getMerkleBranch i leaves.length (buildMerkleTree hash leaves).2.vMerkleTree=
      MerkleTree.siblings hash 0 leaves.length leaves i := by
  rw [getMerkleBranch,branchLoop_eq,buildMerkleTree_eq]
  exact MerkleTree.branch_eq [] leaves.length leaves i hi

end Tree

section Branches

/-- The index is an `int`. -/
def IntIndex (b : MerkleBranch) : Prop := -2^31≤b.nIndex ∧ b.nIndex<2^31

theorem indexBack_eq_iff (nIndex : Int) : indexBack nIndex=nIndex ↔ 0≤nIndex := by
  unfold indexBack
  split_ifs <;> omega

theorem readMerkleBranch_sized {bs rest : List Byte} {b : MerkleBranch}
    (h : readMerkleBranch bs=some (b,rest)) : b.branch.length≤MAX_SIZE := by
  obtain ⟨_,_,-,h⟩ := Reader.bind_eq_some h
  obtain ⟨_,_,hvector,h⟩ := Reader.bind_eq_some h
  obtain ⟨rfl,-⟩ := Prod.mk.inj (Option.some.inj h)
  exact readVector_sized hvector

/-- Exactly the branches without a negative index, and not too long for a stream, survive. -/
theorem reads_merkleBranch_iff {b : MerkleBranch} (hb : IntIndex b) :
    Reads readMerkleBranch (writeMerkleBranch b) b ↔
      0≤b.nIndex ∧ b.branch.length≤MAX_SIZE := by
  have hback : ∀hlen : b.branch.length≤MAX_SIZE,
      Reads readMerkleBranch (writeMerkleBranch b) ⟨indexBack b.nIndex,b.branch⟩ :=
    reads_merkleBranch hb.1 hb.2
  constructor
  · intro hread
    have hlen := readMerkleBranch_sized (hread [])
    have heq := congrArg MerkleBranch.nIndex (hread.unique (hback hlen))
    exact ⟨(indexBack_eq_iff b.nIndex).mp heq.symm,hlen⟩
  · rintro ⟨hlow,hlen⟩
    have hread := hback hlen
    rwa [(indexBack_eq_iff b.nIndex).mpr hlow] at hread

/-- Branches verify, compose, and survive when their index is not negative. -/
theorem branches_verify_and_compose (hash : Uint256 → Uint256 → Uint256) :
    (∀(leaves : List Uint256) (i : Nat) (hi : i<leaves.length),
      checkMerkleBranch hash leaves[i]
          (getMerkleBranch i leaves.length (buildMerkleTree hash leaves).2.vMerkleTree) i=
        (buildMerkleTree hash leaves).1 ∧
      (leaves.Nodup →
        MerkleTree.CollisionFree hash (MerkleTree.hashed hash leaves.length leaves) →
        safeCheckMerkleBranch hash leaves[i]
            (getMerkleBranch i leaves.length (buildMerkleTree hash leaves).2.vMerkleTree) i=
          (buildMerkleTree hash leaves).1)) ∧
    (∀a b : MerkleBranch,IndexInRange a → IndexInRange b →
      a.branch.length+b.branch.length≤30 → ∀h,a.exec hash h≠0 →
        (appendBranch a b).exec hash h=b.exec hash (a.exec hash h)) ∧
    (∀b : MerkleBranch,IntIndex b →
      (Reads readMerkleBranch (writeMerkleBranch b) b ↔
        0≤b.nIndex ∧ b.branch.length≤MAX_SIZE)) := by
  refine ⟨fun leaves i hi => ?_,fun a b ha hb hdepth h hne => ?_,fun b => reads_merkleBranch_iff⟩
  · have hleaf : leaves[i]=leaves.getD i 0 := (List.getD_eq_getElem _ _ hi).symm
    have hroot : (buildMerkleTree hash leaves).1=MerkleTree.root hash 0 leaves.length leaves := by
      rw [buildMerkleTree_eq]
    rw [getMerkleBranch_buildMerkleTree hi,hleaf,hroot]
    refine ⟨?_,safeCheck_siblings hi⟩
    have hindex : (i : Int)≠ -1 := by omega
    rw [checkMerkleBranch,if_neg hindex,foldBranch_eq_climb]
    exact MerkleTree.climb_siblings _ _ (by omega) _ hi
  · refine exec_append ha hb (by omega) fun hrejected => ?_
    rcases MerkleBranch.exec_cases hash a h with ⟨-,hzero⟩ | ⟨hvalid,-⟩
    · exact hne hzero
    · exact hvalid hrejected

def smallHash (a b : Uint256) : Uint256 := a*1000003+b*7+1

theorem three_leaves_verify :
    safeCheckMerkleBranch smallHash 3
        (getMerkleBranch 2 3 (buildMerkleTree smallHash [1,2,3]).2.vMerkleTree) 2=
      (buildMerkleTree smallHash [1,2,3]).1 ∧
    (appendBranch ⟨1,[9]⟩ ⟨0,[4]⟩).exec smallHash 5=
      MerkleBranch.exec smallHash ⟨0,[4]⟩ (MerkleBranch.exec smallHash ⟨1,[9]⟩ 5) ∧
    Reads readMerkleBranch (writeMerkleBranch ⟨300,[9]⟩) ⟨300,[9]⟩ := by
  obtain ⟨hverify,hcompose,hread⟩ := branches_verify_and_compose smallHash
  refine ⟨(hverify [1,2,3] 2 (by decide)).2 (by decide) (by decide +kernel),?_,?_⟩
  · exact hcompose ⟨1,[9]⟩ ⟨0,[4]⟩ ⟨by decide,by decide⟩ ⟨by decide,by decide⟩ (by decide) 5
      (by decide +kernel)
  · exact (hread ⟨300,[9]⟩ ⟨by decide,by decide⟩).mpr ⟨by decide,by decide⟩

/-- The error index comes back as 127. -/
theorem negative_index_lost : IntIndex ⟨-1,[]⟩ ∧
    Reads readMerkleBranch (writeMerkleBranch ⟨-1,[]⟩) ⟨127,[]⟩ ∧
    ¬Reads readMerkleBranch (writeMerkleBranch ⟨-1,[]⟩) ⟨-1,[]⟩ := by
  have hback : Reads readMerkleBranch (writeMerkleBranch ⟨-1,[]⟩) ⟨127,[]⟩ :=
    reads_merkleBranch (by decide) (by decide) (by decide)
  refine ⟨⟨by decide,by decide⟩,hback,fun hread => ?_⟩
  have heq := congrArg MerkleBranch.nIndex (hread.unique hback)
  exact absurd heq (by decide)

end Branches

end Zdeex.CrossChainProof
