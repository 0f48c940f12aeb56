import Mathlib.Tactic.Common
import Zdeex.Primitives.Uint256
import Zdeex.Primitives.Serialize

namespace Zdeex.Crosschain

open Zdeex.Framework

/-- A depth-first walk of a Merkle tree: a bit for every node that is visited and
a hash for every node where the walk stops. -/
structure CPartialMerkleTree where
  nTransactions : Nat
  vBits : List Bool
  vHash : List Uint256
  deriving DecidableEq

structure CBlockHeader where
  nVersion : BitVec 32
  hashPrevBlock : Uint256
  hashMerkleRoot : Uint256
  hashFinalSaplingRoot : Uint256
  nTime : BitVec 32
  nBits : BitVec 32
  nNonce : Uint256
  nSolution : List Byte
  deriving DecidableEq

structure CMerkleBlock where
  header : CBlockHeader
  txn : CPartialMerkleTree
  deriving DecidableEq

/-- What `TraverseAndExtract` changes on its way. -/
structure Traversal where
  fBad : Bool
  nBitsUsed : Nat
  nHashUsed : Nat
  vMatch : List Uint256
  deriving DecidableEq

namespace CPartialMerkleTree

variable (hash : Uint256 → Uint256 → Uint256) (maxBlockSize : Nat) (t : CPartialMerkleTree)

/-- Number of nodes at a height. -/
def calcTreeWidth (height : Nat) : Nat := (t.nTransactions+2^height-1)/2^height

/-- `while (CalcTreeWidth(nHeight) > 1) nHeight++`; the count has 32 bits. -/
def treeHeight : Nat → Nat → Nat
  | 0,nHeight => nHeight
  | rounds+1,nHeight =>
      if 1<t.calcTreeWidth nHeight then treeHeight rounds (nHeight+1) else nHeight

def traverseAndExtract : Nat → Nat → Traversal → Uint256 × Traversal
  | height,pos,s =>
      match t.vBits[s.nBitsUsed]? with
      | none => (0,{s with fBad := true})
      | some fParentOfMatch =>
          let s := {s with nBitsUsed := s.nBitsUsed+1}
          match height,fParentOfMatch with
          | height+1,true =>
              let l := traverseAndExtract height (pos*2) s
              if pos*2+1<t.calcTreeWidth height then
                let r := traverseAndExtract height (pos*2+1) l.2
                (hash l.1 r.1,{r.2 with fBad := r.2.fBad || r.1==l.1})
              else (hash l.1 l.1,l.2)
          | _,_ =>
              match t.vHash[s.nHashUsed]? with
              | none => (0,{s with fBad := true})
              | some h =>
                  (h,{s with
                    nHashUsed := s.nHashUsed+1
                    vMatch := if height=0 ∧ fParentOfMatch then s.vMatch++[h] else s.vMatch})

/-- The root, or null in case of failure, and the matches found on the way; the
checks before the walk leave no matches. -/
def extractMatches : Uint256 × List Uint256 :=
  if t.nTransactions=0 then (0,[])
  else if maxBlockSize/60<t.nTransactions then (0,[])
  else if t.nTransactions<t.vHash.length then (0,[])
  else if t.vBits.length<t.vHash.length then (0,[])
  else
    let r := t.traverseAndExtract hash (t.treeHeight 32 0) 0 ⟨false,0,0,[]⟩
    if r.2.fBad then (0,r.2.vMatch)
    else if (r.2.nBitsUsed+7)/8≠(t.vBits.length+7)/8 then (0,r.2.vMatch)
    else if r.2.nHashUsed≠t.vHash.length then (0,r.2.vMatch)
    else (r.1,r.2.vMatch)

end CPartialMerkleTree

def bitsOf (vBytes : List Byte) : List Bool := vBytes.flatMap fun b => (List.range 8).map b.getLsbD

def readPartialMerkleTree : Reader CPartialMerkleTree := do
  let nTransactions ← Reader.word 32
  let vHash ← readVector (Reader.word 256)
  let vBytes ← readBytes
  return ⟨nTransactions.toNat,bitsOf vBytes,vHash⟩

def readBlockHeader : Reader CBlockHeader := do
  let nVersion ← Reader.word 32
  let hashPrevBlock ← Reader.word 256
  let hashMerkleRoot ← Reader.word 256
  let hashFinalSaplingRoot ← Reader.word 256
  let nTime ← Reader.word 32
  let nBits ← Reader.word 32
  let nNonce ← Reader.word 256
  let nSolution ← readBytes
  return ⟨nVersion,hashPrevBlock,hashMerkleRoot,hashFinalSaplingRoot,nTime,nBits,nNonce,nSolution⟩

def readMerkleBlock : Reader CMerkleBlock := do
  let header ← readBlockHeader
  let txn ← readPartialMerkleTree
  return ⟨header,txn⟩

/-- `E_UNMARSHAL`: an exception or a rest that was not read is a failure. -/
def unmarshal {α : Type} (r : Reader α) (params : List Byte) : Option α :=
  match r params with
  | some (a,[]) => some a
  | _ => none

end Zdeex.Crosschain
