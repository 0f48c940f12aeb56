import Mathlib.Algebra.Order.BigOperators.Group.List
import Mathlib.Tactic.Linarith
import Zdeex.Framework.Lineage
import Zdeex.Pow.ArithUint256
import Zdeex.Validity.BlockStatus

namespace Zdeex.Validity

open Zdeex.Framework Zdeex.Pow

/-- `CBlockIndex` as far as the choice of the chain reads it; `pprev` is kept by the
forest of the index and `chainWork` is an `arith_uint256`. -/
structure CBlockIndex where
  nHeight : Nat
  chainWork : Nat
  nStatus : Status
  nTx : Nat
  nChainTx : Nat
  nSequenceId : Nat
  deriving DecidableEq

/-- `operator>` of `CChainPower`: sixteen bits of precision. -/
def CBlockIndex.morePower (e e' : CBlockIndex) : Bool :=
  let workDivisor := if e'.chainWork<e.chainWork then e.chainWork
    else if e'.chainWork≠0 then e'.chainWork else 1
  !decide (e.chainWork*2^16%2^256/workDivisor≤e'.chainWork*2^16%2^256/workDivisor)

def getBlockProof (nBits : BitVec 32) : Nat :=
  let c := setCompact nBits
  if c.fNegative || c.fOverflow || c.target=0 then 0
  else (~~~c.target/(c.target+1)+1).toNat

/-- The block index with the sets that are kept beside it. Blocks stand for their
pointers, the active chain begins with its tip. `bestTip` is not in the source: the
best tip since `InvalidateBlock` last put back every candidate. -/
structure ChainState (H : Type) where
  mapBlockIndex : Forest H
  index : H → CBlockIndex
  setBlockIndexCandidates : List H
  mapBlocksUnlinked : List (H × H)
  chainActive : List H
  nBlockSequenceId : Nat
  bestTip : Option H

/-- What `ConnectTip` answers for a block. -/
inductive Verdict where
  | connected (v : ConnectVerdict)
  | invalid (corruptionPossible : Bool)

/-- The surroundings of one round of the loop in `ActivateBestChain`; no block is
connected twice in a round. -/
structure Round (H : Type) where
  shutdownRequested : Bool
  fSkipdpow : Bool
  notarizedht : Int
  verdict : H → Verdict

variable {H : Type} [LinearOrder H]

/-- Is a block in a list of blocks. -/
def among (h : H) (hs : List H) : Bool := decide (h∈hs)

theorem among_iff {h : H} {hs : List H} : among h hs=true ↔ h∈hs := decide_eq_true_iff

namespace ChainState

/-- Before the first block, with ids from 1 on. -/
def empty : ChainState H :=
  { mapBlockIndex := [],index := fun _ => ⟨0,0,0,0,0,0⟩,setBlockIndexCandidates := [],
    mapBlocksUnlinked := [],chainActive := [],nBlockSequenceId := 1,bestTip := none }

variable (s : ChainState H)

def pprev (pindex : H) : Option H := Forest.parent s.mapBlockIndex pindex

/-- A block and what its `pprev` pointers lead to. -/
def lineage (pindex : H) : List H := Forest.lineage s.mapBlockIndex pindex

def tip : Option H := s.chainActive.head?

def status (pindex : H) : Status := (s.index pindex).nStatus

def nChainTx (pindex : H) : Nat := (s.index pindex).nChainTx

/-- `CBlockIndexWorkComparator`: is `pa` the worse one. Ids of linked blocks come in
the order of arrival; the order of `H` is that of the addresses. -/
def workComparator (pa pb : H) : Bool :=
  if (s.index pb).chainWork<(s.index pa).chainWork then false
  else if (s.index pa).chainWork<(s.index pb).chainWork then true
  else if (s.index pa).nSequenceId<(s.index pb).nSequenceId then false
  else if (s.index pb).nSequenceId<(s.index pa).nSequenceId then true
  else if pa<pb then false
  else decide (pb<pa)

def getAncestor (pindex : H) (nHeight : Nat) : Option H :=
  (s.lineage pindex).find? (fun a => (s.index a).nHeight=nHeight)

def setIndex (pindex : H) (e : CBlockIndex) : ChainState H :=
  {s with index := Function.update s.index pindex e}

/-- `|=` on the status of some blocks. -/
def orStatus (hs : List H) (flag : Status) : ChainState H :=
  {s with index := fun h => if h∈hs then {s.index h with nStatus := (s.index h).nStatus|||flag}
    else s.index h}

/-- `&=` on the status of some blocks. -/
def andStatus (hs : List H) (mask : Status) : ChainState H :=
  {s with index := fun h => if h∈hs then {s.index h with nStatus := (s.index h).nStatus&&&mask}
    else s.index h}

def eraseCandidates (hs : List H) : ChainState H :=
  {s with setBlockIndexCandidates := s.setBlockIndexCandidates.filter (fun h => decide (h∉hs))}

def insertCandidates (hs : List H) : ChainState H :=
  {s with setBlockIndexCandidates := hs ∪ s.setBlockIndexCandidates}

/-- The tip has moved to where candidates may be dropped. -/
def raiseBestTip : ChainState H :=
  match s.tip,s.bestTip with
  | none,_ => s
  | some t,none => {s with bestTip := some t}
  | some t,some f => if s.workComparator t f then s else {s with bestTip := some t}

/-- `AddToBlockIndex`; a parent that is not in the index leaves `pprev` empty. -/
def addToBlockIndex (hash hashPrevBlock : H) (nBits : BitVec 32) : ChainState H :=
  if hash∈Forest.keys s.mapBlockIndex then s
  else
    let pprev := if hashPrevBlock∈Forest.keys s.mapBlockIndex then some hashPrevBlock else none
    let nHeight := match pprev with
      | none => 0
      | some p => (s.index p).nHeight+1
    let prevWork := match pprev with
      | none => 0
      | some p => (s.index p).chainWork
    {s with
      mapBlockIndex := (hash,pprev)::s.mapBlockIndex
      index := Function.update s.index hash
        ⟨nHeight,(prevWork+getBlockProof nBits)%2^256,Status.raiseValidity 0 BLOCK_VALID_TREE,0,0,0⟩}

/-- The transaction count and the id that a block gets once its parents are there. -/
def numberBlock (pindex : H) : ChainState H :=
  let e := s.index pindex
  let prevTx := match s.pprev pindex with
    | none => 0
    | some p => s.nChainTx p
  {s with
    index := Function.update s.index pindex
      {e with nChainTx := (prevTx+e.nTx)%2^32,nSequenceId := s.nBlockSequenceId}
    nBlockSequenceId := (s.nBlockSequenceId+1)%2^32}

/-- One pass of the loop in `ReceivedBlockTransactions`, with the blocks that waited
for this one. -/
def linkBlock (pindex : H) : ChainState H × List H :=
  let t := s.numberBlock pindex
  ({t with
      setBlockIndexCandidates :=
        if ∀p∈t.tip,t.workComparator pindex p=false then [pindex] ∪ t.setBlockIndexCandidates
        else t.setBlockIndexCandidates
      mapBlocksUnlinked := t.mapBlocksUnlinked.filter (fun x => decide (x.1≠pindex))},
    (s.mapBlocksUnlinked.filter (fun x => decide (x.1=pindex))).map Prod.snd)

/-- The loop itself; every pass takes a block from the queue or from the map. -/
def linkLoop : Nat → List H → ChainState H → Option (ChainState H)
  | _,[],s => some s
  | 0,_::_,_ => none
  | n+1,pindex::queue,s => linkLoop n (queue++(s.linkBlock pindex).2) (s.linkBlock pindex).1

/-- The part of `ReceivedBlockTransactions` before the linking. -/
def storeBlock (pindexNew : H) (vtxSize : Nat) : ChainState H :=
  let e := s.index pindexNew
  s.setIndex pindexNew {e with
    nTx := vtxSize
    nChainTx := 0
    nStatus := (e.nStatus|||BLOCK_HAVE_DATA).raiseValidity BLOCK_VALID_TRANSACTIONS}

def receivedBlockTransactions (pindexNew : H) (vtxSize : Nat) : Option (ChainState H) :=
  let t := s.storeBlock pindexNew vtxSize
  match t.pprev pindexNew with
  | none => linkLoop (t.mapBlocksUnlinked.length+1) [pindexNew] t
  | some p =>
      if t.nChainTx p≠0 then linkLoop (t.mapBlocksUnlinked.length+1) [pindexNew] t
      else if (t.status p).isValid BLOCK_VALID_TREE then
        some {t with mapBlocksUnlinked := t.mapBlocksUnlinked++[(p,pindexNew)]}
      else some t

/-- The greatest block of a set. -/
def rbegin : List H → Option H
  | [] => none
  | h::hs =>
      match rbegin hs with
      | none => some h
      | some b => if s.workComparator h b then some b else some h

/-- From a block back to the active chain. -/
def branch (pindex : H) : List H :=
  (s.lineage pindex).takeWhile (fun a => decide (a∉s.chainActive))

def usable (pindex : H) : Bool := !(s.status pindex).failed && (s.status pindex).haveData

/-- Removes the chain above an unusable block from the set. -/
def dropChain (pindexFailed : List H) (pindexTest : H) : ChainState H :=
  let t := if (s.status pindexTest).failed then s.orStatus pindexFailed BLOCK_FAILED_CHILD
    else {s with mapBlocksUnlinked :=
      s.mapBlocksUnlinked++pindexFailed.filterMap (fun h => (s.pprev h).map (fun p => (p,h)))}
  t.eraseCandidates (pindexFailed++[pindexTest])

/-- The assertion on the way back to the active chain. -/
def linkedUp (hs : List H) : Bool := hs.all (fun h => s.nChainTx h≠0 || (s.index h).nHeight=0)

def findMostWorkLoop : Nat → ChainState H → Option (ChainState H × Option H)
  | 0,_ => none
  | n+1,s =>
      match s.rbegin s.setBlockIndexCandidates with
      | none => some (s,none)
      | some pindexNew =>
          let path := s.branch pindexNew
          let good := path.takeWhile s.usable
          match path.dropWhile s.usable with
          | [] => if s.linkedUp good then some (s,some pindexNew) else none
          | pindexTest::_ =>
              if s.linkedUp (good++[pindexTest]) then findMostWorkLoop n (s.dropChain good pindexTest)
              else none

/-- `FindMostWorkChain`; every round removes a candidate. -/
def findMostWorkChain : Option (ChainState H × Option H) :=
  findMostWorkLoop (s.setBlockIndexCandidates.length+1) s

/-- The set without what is worse than a block. -/
def dropWorse (p : H) : ChainState H :=
  {s with setBlockIndexCandidates :=
    s.setBlockIndexCandidates.filter (fun h => !s.workComparator h p)}

/-- `PruneBlockIndexCandidates`, with its assertion. -/
def pruneBlockIndexCandidates : Option (ChainState H) :=
  match s.tip with
  | none => none
  | some p => if (s.dropWorse p).setBlockIndexCandidates=[] then none else some (s.dropWorse p)

/-- `InvalidBlockFound`, for a block that is not just damaged. -/
def invalidBlockFound (pindex : H) : ChainState H :=
  (s.orStatus [pindex] BLOCK_FAILED_VALID).eraseCandidates [pindex]

/-- The loop of `InvalidateBlock` over the active chain; disconnecting the last block
runs into a null pointer. -/
def invalidateLoop (pindex : H) : List H → ChainState H → Option (ChainState H)
  | [],s => some s
  | w::rest,s =>
      if pindex∈w::rest then
        if rest=[] then none
        else invalidateLoop pindex rest
          {(s.orStatus [w] BLOCK_FAILED_CHILD).eraseCandidates [w] with chainActive := rest}
      else some s

/-- The blocks that `InvalidateBlock` puts into the set for a tip. -/
def refill (t : H) : ChainState H :=
  {s.insertCandidates ((Forest.keys s.mapBlockIndex).filter (fun h =>
      (s.status h).isValid BLOCK_VALID_TRANSACTIONS && s.nChainTx h≠0 &&
        !s.workComparator h t)) with bestTip := some t}

def invalidateBlock (pindex : H) : Option (ChainState H) :=
  match invalidateLoop pindex s.chainActive (s.invalidBlockFound pindex) with
  | none => none
  | some s =>
      match s.tip with
      | none => none
      | some t => some (s.refill t)

/-- The blocks of which `ReconsiderBlock` clears the marks in its loop. -/
def reconsidered (pindex : H) : List H :=
  (Forest.keys s.mapBlockIndex).filter (fun h =>
    !(s.status h).isValid BLOCK_VALID_TRANSACTIONS &&
      decide (s.getAncestor h (s.index pindex).nHeight=some pindex))

/-- Those of them that may become candidates. -/
def reconsideredFit (pindex : H) : List H :=
  let t := s.andStatus (s.reconsidered pindex) (~~~BLOCK_FAILED_MASK)
  (s.reconsidered pindex).filter (fun h =>
    (t.status h).isValid BLOCK_VALID_TRANSACTIONS && t.nChainTx h≠0)

/-- `ReconsiderBlock`; comparing with a null tip is no return. -/
def reconsiderBlock (pindex : H) : Option (ChainState H) :=
  let t := s.andStatus (s.reconsidered pindex) (~~~BLOCK_FAILED_MASK)
  match t.tip with
  | none =>
      if s.reconsideredFit pindex=[] then
        some (t.andStatus (t.lineage pindex) (~~~BLOCK_FAILED_MASK))
      else none
  | some p =>
      let t := t.insertCandidates ((s.reconsideredFit pindex).filter (fun h => t.workComparator p h))
      some (t.andStatus (t.lineage pindex) (~~~BLOCK_FAILED_MASK))

/-- `ConnectTip` on a block that `ConnectBlock` accepts; the genesis block gets no
undo data. -/
def connectTip (pindexNew : H) (v : ConnectVerdict) : ChainState H :=
  let nStatus := match s.pprev pindexNew with
    | none => s.status pindexNew
    | some _ => IndexState.connectStatus (s.status pindexNew) v
  {s.setIndex pindexNew {s.index pindexNew with nStatus := nStatus} with
    chainActive := pindexNew::s.chainActive}

/-- The blocks to connect, from the fork on. A failure without a tip to go back to
ends in a null pointer. -/
def connectLoop (verdict : H → Verdict) (pindexOldTip : Option H) :
    List H → ChainState H → Option (ChainState H)
  | [],s => some s
  | pindexConnect::rest,s =>
      if s.pprev pindexConnect≠s.tip then none
      else
        match verdict pindexConnect with
        | .invalid corruptionPossible =>
            if s.chainActive=[] then none
            else if corruptionPossible then some s else some (s.invalidBlockFound pindexConnect)
        | .connected v =>
            match (s.connectTip pindexConnect v).raiseBestTip.pruneBlockIndexCandidates with
            | none => none
            | some s =>
                if ∀p∈pindexOldTip,(s.index pindexConnect).morePower (s.index p)=true then some s
                else connectLoop verdict pindexOldTip rest s

/-- `CChain::FindFork`. -/
def findFork (pindex : H) : Option H :=
  (s.lineage pindex).find? (fun a => decide (a∈s.chainActive))

/-- The way to the new block leaves the chain below the last notarized height. -/
def forksBelowNotarized (fSkipdpow : Bool) (notarizedht : Int) (pindexMostWork : H) : Bool :=
  match s.tip,s.findFork pindexMostWork with
  | some pindexOldTip,some pindexFork =>
      !fSkipdpow && decide (notarizedht<(s.index pindexOldTip).nHeight) &&
        decide (((s.index pindexFork).nHeight : Int)<notarizedht)
  | _,_ => false

/-- The reorganization is longer than `MAX_REORG_LENGTH`. -/
def reorgTooLong (maxReorg : Nat) (pindexMostWork : H) : Bool :=
  match s.tip,s.findFork pindexMostWork with
  | some pindexOldTip,some pindexFork =>
      decide ((maxReorg : Int)<(s.index pindexOldTip).nHeight-(s.index pindexFork).nHeight)
  | _,_ => false

/-- `ActivateBestChainStep` with its answer. A chain without a common block would
have to give up the genesis block, which runs into a null pointer. -/
def activateBestChainStep (maxReorg : Nat) (r : Round H) (pindexMostWork : H) :
    Option (ChainState H × Bool) :=
  if s.tip≠none ∧ s.findFork pindexMostWork=none then none
  else if s.forksBelowNotarized r.fSkipdpow r.notarizedht pindexMostWork then
    (s.invalidateBlock pindexMostWork).map (fun s => (s,false))
  else if s.reorgTooLong maxReorg pindexMostWork then some (s,false)
  else
    let path := (s.branch pindexMostWork).reverse
    let t := {s with chainActive :=
      s.chainActive.dropWhile (fun a => decide (some a≠s.findFork pindexMostWork))}
    (connectLoop r.verdict s.tip path t.raiseBestTip).map (fun s => (s,true))

/-- One round of the loop in `ActivateBestChain`; the flag says that the call
returns. -/
def activateBestChain (maxReorg : Nat) (r : Round H) : Option (ChainState H × Bool) :=
  if r.shutdownRequested then some (s,true)
  else
    match s.findMostWorkChain with
    | none => none
    | some (s,none) => some (s,true)
    | some (s,some pindexMostWork) =>
        if s.tip=some pindexMostWork then some (s,true)
        else
          match s.activateBestChainStep maxReorg r pindexMostWork with
          | none => none
          | some (s,true) => some (s,decide (s.tip=some pindexMostWork))
          | some (s,false) => some (s,true)

end ChainState

inductive ChainOp (H : Type) where
  | addToBlockIndex (hash hashPrevBlock : H) (nBits : BitVec 32)
  | receivedBlockTransactions (hash : H) (vtxSize : Nat)
  | activateBestChain (r : Round H)
  | invalidateBlock (hash : H)
  | reconsiderBlock (hash : H)

/-- One call, or one round of `ActivateBestChain`. The flag marks the end of
`ActivateBestChain`, `InvalidateBlock` and `ReconsiderBlock`; `none` is a call that
does not return or that no caller makes: `AcceptBlock` stores a block of the index
once, with its transactions and without a failure mark. -/
def chainCall (maxReorg : Nat) (s : ChainState H) : ChainOp H → Option (ChainState H × Bool)
  | .addToBlockIndex hash hashPrevBlock nBits =>
      some (s.addToBlockIndex hash hashPrevBlock nBits,false)
  | .receivedBlockTransactions hash vtxSize =>
      if hash∈Forest.keys s.mapBlockIndex ∧ (s.status hash).haveData=false ∧
          (s.status hash).failed=false ∧ 0<vtxSize then
        (s.receivedBlockTransactions hash vtxSize).map (fun s => (s,false))
      else none
  | .activateBestChain r => s.activateBestChain maxReorg r
  | .invalidateBlock hash =>
      if hash∈Forest.keys s.mapBlockIndex then (s.invalidateBlock hash).map (fun s => (s,true))
      else none
  | .reconsiderBlock hash =>
      if hash∈Forest.keys s.mapBlockIndex then (s.reconsiderBlock hash).map (fun s => (s,true))
      else none

def chainStep (maxReorg : Nat) (s : ChainState H) (op : ChainOp H) : Option (ChainState H) :=
  (chainCall maxReorg s op).map Prod.fst

end Zdeex.Validity
