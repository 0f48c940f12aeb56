import Zdeex.Framework.MerkleFrontier
import Zdeex.Primitives.Uint256

namespace Zdeex.Merkle

open Zdeex.Framework

/-- What the templates take from their `Hash` class: `combine`, `EmptyRoot` and
the bytes of a hash. -/
structure HashClass (H : Type) extends NodeHash H where
  bytes : H → List (BitVec 8)

structure MerklePath where
  authentication_path : List (List Bool)
  index : List Bool
  deriving DecidableEq

def convertBytesVectorToVector (bytes : List (BitVec 8)) : List Bool :=
  bytes.flatMap fun c => (List.range 8).map fun j => c.getLsbD (7-j)

/-- `parents` are collapsed left subtrees ordered toward the root. -/
structure IncrementalMerkleTree (H : Type) where
  left : Option H
  right : Option H
  parents : List (Option H)
  deriving DecidableEq

namespace IncrementalMerkleTree

variable {H : Type}

def new : IncrementalMerkleTree H := ⟨none,none,[]⟩

/-- For `depth=0` the subtraction in the source wraps, and no size matches. -/
def isComplete (t : IncrementalMerkleTree H) (depth : Nat) : Bool :=
  t.left.isSome && t.right.isSome && t.parents.length+1==depth && t.parents.all Option.isSome

section Append

variable (O : HashClass H) (Depth : Nat)

/-- The loop of `append`, with at most `n` more rounds from round `i` on. -/
def propagate : Nat → Nat → H → List (Option H) → List (Option H)
  | 0,_,_,parents => parents
  | _+1,_,combined,[] => [some combined]
  | _+1,_,combined,none::parents => some combined::parents
  | n+1,i,combined,some parent::parents =>
      none::propagate n (i+1) (O.combine parent combined (i+1)) parents

/-- The tree is returned also when the call throws. -/
def append (t : IncrementalMerkleTree H) (obj : H) :
    Except String Unit × IncrementalMerkleTree H :=
  if t.isComplete Depth then (.error "tree is full",t)
  else
    match t.left,t.right with
    | none,_ => (.ok (),{t with left := some obj})
    | some _,none => (.ok (),{t with right := some obj})
    | some left,some right =>
        (.ok (),⟨some obj,none,propagate O Depth 0 (O.combine left right 0) t.parents⟩)

/-- Appends until the first exception. -/
def appendAll : IncrementalMerkleTree H → List H → Except String Unit × IncrementalMerkleTree H
  | t,[] => (.ok (),t)
  | t,x::xs =>
      match t.append O Depth x with
      | (.ok _,t') => appendAll t' xs
      | (.error e,t') => (.error e,t')

end Append

def last (t : IncrementalMerkleTree H) : Except String H :=
  match t.right,t.left with
  | some right,_ => .ok right
  | none,some left => .ok left
  | none,none => .error "tree has no cursor"

/-- One test of `next_depth`: `none` is its `return`. -/
def skipHole (present : Bool) (skip : Nat) : Option Nat :=
  match present,skip with
  | true,skip => some skip
  | false,skip+1 => some skip
  | false,0 => none

def nextParentDepth : List (Option H) → Nat → Nat → Nat
  | [],d,skip => d+skip
  | parent::parents,d,skip =>
      match skipHole parent.isSome skip with
      | none => d
      | some skip => nextParentDepth parents (d+1) skip

def nextDepth (t : IncrementalMerkleTree H) (skip : Nat) : Nat :=
  match skipHole t.left.isSome skip with
  | none => 0
  | some skip =>
      match skipHole t.right.isSome skip with
      | none => 0
      | some skip => nextParentDepth t.parents 1 skip

section Root

variable (O : HashClass H)

def rootParents : List (Option H) → Nat → H → List H → H × Nat × List H
  | [],d,root,filler => (root,d,filler)
  | some parent::parents,d,root,filler =>
      rootParents parents (d+1) (O.combine parent root d) filler
  | none::parents,d,root,filler =>
      let f := O.next filler d
      rootParents parents (d+1) (O.combine root f.1 d) f.2

/-- The `while` loop of `root`, for `n` rounds. -/
def rootAbove : Nat → Nat → H → List H → H
  | 0,_,root,_ => root
  | n+1,d,root,filler =>
      let f := O.next filler d
      rootAbove n (d+1) (O.combine root f.1 d) f.2

def rootAt (t : IncrementalMerkleTree H) (depth : Nat) (filler_hashes : List H) : H :=
  let l := match t.left with
    | some left => (left,filler_hashes)
    | none => O.next filler_hashes 0
  let r := match t.right with
    | some right => (right,l.2)
    | none => O.next l.2 0
  let p := rootParents O t.parents 1 (O.combine l.1 r.1 0) r.2
  rootAbove O (depth-p.2.1) p.2.1 p.1 p.2.2

def root (Depth : Nat) (t : IncrementalMerkleTree H) : H := t.rootAt O Depth []

def pathParents : List (Option H) → Nat → List H → List (Bool × H) × Nat × List H
  | [],d,filler => ([],d,filler)
  | some parent::parents,d,filler =>
      let r := pathParents parents (d+1) filler
      ((true,parent)::r.1,r.2)
  | none::parents,d,filler =>
      let f := O.next filler d
      let r := pathParents parents (d+1) f.2
      ((false,f.1)::r.1,r.2)

def pathAbove : Nat → Nat → List H → List (Bool × H)
  | 0,_,_ => []
  | n+1,d,filler =>
      let f := O.next filler d
      (false,f.1)::pathAbove n (d+1) f.2

/-- Siblings and their index bits, from the leaf upwards. -/
def pathSteps (Depth : Nat) (t : IncrementalMerkleTree H) (left : H) (filler_hashes : List H) :
    List (Bool × H) :=
  let f := match t.right with
    | some _ => ((true,left),filler_hashes)
    | none => ((false,(O.next filler_hashes 0).1),(O.next filler_hashes 0).2)
  let p := pathParents O t.parents 1 f.2
  f.1::p.1++pathAbove O (Depth-p.2.1) p.2.1 p.2.2

/-- The path is handed out from the root downwards. -/
def path (Depth : Nat) (t : IncrementalMerkleTree H) (filler_hashes : List H) :
    Except String MerklePath :=
  match t.left with
  | none => .error "can't create an authentication path for the beginning of the tree"
  | some left =>
      let steps := t.pathSteps O Depth left filler_hashes
      .ok ⟨(steps.map fun s => convertBytesVectorToVector (O.bytes s.2)).reverse,
        (steps.map Prod.fst).reverse⟩

end Root

end IncrementalMerkleTree

/-- Both hash classes are blobs of 32 bytes. -/
def uint256Bytes (h : Uint256) : List (BitVec 8) :=
  (List.range 32).map fun i => h.extractLsb' (8*i) 8

def addEmpty : Nat → Uint256
  | 0 => 1
  | d+1 => addEmpty d+2*addEmpty d+BitVec.ofNat 256 d

/-- A hash that is easy to evaluate. -/
def addHash : HashClass Uint256 where
  combine a b d := a+2*b+BitVec.ofNat 256 d
  empty := addEmpty
  bytes := uint256Bytes

theorem addHash_lawful : addHash.Lawful := fun _ => rfl

end Zdeex.Merkle
