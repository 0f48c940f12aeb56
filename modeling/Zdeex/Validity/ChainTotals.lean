import Mathlib.Data.List.Sort
import Mathlib.Data.Prod.Lex
import Zdeex.Block.Transaction
import Zdeex.Framework.Run
import Zdeex.Validity.Linking

namespace Zdeex.Validity

open Zdeex.Framework Zdeex.Block

/-- The statistics of `-zindex`. -/
inductive Stat where
  | notarizations
  | shieldedTx
  | shieldedOutputs
  | shieldedSpends
  | fullyShieldedTx
  | shieldingTx
  | deshieldingTx
  | payments
  | shieldedPayments
  | fullyShieldedPayments
  | shieldingPayments
  | deshieldingPayments
  deriving DecidableEq

/-- Adds to a counter of 32 bits. -/
def bump (c : Stat → Nat) (x : Stat) (n : Nat) : Stat → Nat :=
  Function.update c x ((c x+n)%2^32)

/-- Thirteen inputs, and an empty OP_RETURN after the only other output. -/
def looksNotarization (tx : CTransaction) : Bool :=
  tx.vin.length==13 &&
    match tx.vout with
    | [_,out] => out.scriptPubKey.head?==some 0x6a && out.nValue==0
    | _ => false

/-- One of several outputs is taken for change. -/
def withoutChange (n : Nat) : Nat := if 1<n then n-1 else n

def countShielded (c : Stat → Nat) (tx : CTransaction) : Stat → Nat :=
  let vin := tx.vin.length
  let vout := tx.vout.length
  let nShieldedSpends := tx.vShieldedSpend.length
  let nShieldedOutputs := tx.vShieldedOutput.length
  let c := bump c .shieldedTx 1
  let c := if vin=0 ∧ vout=0 then bump c .fullyShieldedTx 1
    else if 0<vin then bump c .shieldingTx 1
    else bump c .deshieldingTx 1
  let c := if 1≤nShieldedOutputs then
      let c := bump (bump c .shieldedPayments (withoutChange nShieldedOutputs)) .shieldedPayments vout
      if vin=0 ∧ vout=0 then bump c .fullyShieldedPayments (withoutChange nShieldedOutputs)
      else bump (bump c .shieldingPayments (withoutChange nShieldedOutputs)) .shieldedPayments vout
    else if 1≤nShieldedSpends then
      bump (bump c .shieldedPayments vout) .deshieldingPayments (withoutChange vout)
    else c
  bump c .payments (c .shieldedPayments)

/-- What a transaction adds to the counters of its block. The shielded payments of the
block so far are added to the payments once more for every shielded transaction. -/
def countTx (c : Stat → Nat) (tx : CTransaction) : Stat → Nat :=
  let c := if looksNotarization tx then bump c .notarizations 1 else c
  let c := if 0<tx.vShieldedSpend.length+tx.vShieldedOutput.length then countShielded c tx
    else bump c .payments (withoutChange tx.vout.length)
  bump (bump c .shieldedOutputs tx.vShieldedOutput.length) .shieldedSpends tx.vShieldedSpend.length

def countBlock (vtx : List CTransaction) : Stat → Nat := vtx.foldl countTx (fun _ => 0)

def int64 (x : Int) : Int := x.bmod (2^64)

/-- The change of the Sapling pool; the sign of `valueBalance` is inverted. -/
def saplingChange (vtx : List CTransaction) : Int :=
  vtx.foldl (fun saplingValue tx => int64 (saplingValue+int64 (-tx.valueBalance))) 0

/-- The block index with the values of each block, the totals of its chain and the
record that goes to zindex.dat. `zblock` is not in the source: the block that the record
was taken from. -/
structure TotalState (H : Type) where
  chain : ChainState H
  nSaplingValue : H → Int
  stat : H → Stat → Nat
  nChainSaplingValue : H → Option Int
  nChainStat : H → Stat → Int
  zstats : Stat → Int
  zblock : Option H

variable {H : Type} [LinearOrder H]

namespace TotalState

/-- A fresh database. -/
def empty : TotalState H :=
  { chain := .empty,nSaplingValue := fun _ => 0,stat := fun _ _ => 0,
    nChainSaplingValue := fun _ => none,nChainStat := fun _ _ => 0,zstats := fun _ => 0,
    zblock := none }

variable (fZindex : Bool) (s : TotalState H)

/-- Totals of a parent that are zero are taken from the record. -/
def loadZstats : Option H → TotalState H
  | none => s
  | some p =>
      {s with nChainStat := Function.update s.nChainStat p (fun x =>
        if s.nChainStat p x=0 then s.zstats x else s.nChainStat p x)}

/-- The statistics of a chain, and the record after it. -/
def sumStats (pindex : H) : TotalState H :=
  let own : Stat → Int := fun x =>
    let prev := match s.chain.pprev pindex with
      | none => 0
      | some p => s.nChainStat p x
    int64 (prev+s.stat pindex x)
  {s with nChainStat := Function.update s.nChainStat pindex own,zstats := own,zblock := some pindex}

def sumSapling (pindex : H) : TotalState H :=
  let own := match s.chain.pprev pindex with
    | none => some (s.nSaplingValue pindex)
    | some p => (s.nChainSaplingValue p).map (fun v => int64 (v+s.nSaplingValue pindex))
  {s with nChainSaplingValue := Function.update s.nChainSaplingValue pindex own}

/-- One pass of the loop in `ReceivedBlockTransactions`. -/
def linkBlock (pindex : H) : TotalState H :=
  let t := if fZindex then (s.loadZstats (s.chain.pprev pindex)).sumStats pindex else s
  {t.sumSapling pindex with chain := (s.chain.linkBlock pindex).1}

def linkLoop : Nat → List H → TotalState H → Option (TotalState H)
  | _,[],s => some s
  | 0,_::_,_ => none
  | n+1,pindex::queue,s => linkLoop n (queue++(s.chain.linkBlock pindex).2) (s.linkBlock fZindex pindex)

/-- The part of `ReceivedBlockTransactions` before the linking. -/
def storeBlock (pindexNew : H) (vtx : List CTransaction) : TotalState H :=
  {s with
    chain := s.chain.storeBlock pindexNew vtx.length
    nSaplingValue := Function.update s.nSaplingValue pindexNew (saplingChange vtx)
    nChainSaplingValue := Function.update s.nChainSaplingValue pindexNew none
    stat := if fZindex then Function.update s.stat pindexNew (countBlock vtx) else s.stat}

def receivedBlockTransactions (pindexNew : H) (vtx : List CTransaction) : Option (TotalState H) :=
  let t := s.storeBlock fZindex pindexNew vtx
  match t.chain.pprev pindexNew with
  | none => linkLoop fZindex (t.chain.mapBlocksUnlinked.length+1) [pindexNew] t
  | some p =>
      if t.chain.nChainTx p≠0 then
        linkLoop fZindex (t.chain.mapBlocksUnlinked.length+1) [pindexNew] t
      else if (t.chain.status p).isValid BLOCK_VALID_TREE then
        some {t with chain := {t.chain with
          mapBlocksUnlinked := t.chain.mapBlocksUnlinked++[(p,pindexNew)]}}
      else some t

end TotalState

/-- The totals that are kept in memory only. -/
structure Totals (H : Type) where
  nChainTx : H → Nat
  nChainSaplingValue : H → Option Int
  nChainStat : H → Stat → Int

namespace Totals

def none : Totals H := ⟨fun _ => 0,fun _ => .none,fun _ _ => 0⟩

/-- The list of assignments to a block above a linked one: deshielding totals are taken
from the shielded ones, and nothing is assigned to the spends. -/
def loadStats (t : Totals H) (stat : Stat → Nat) (pindex p : H) : Stat → Int
  | .deshieldingTx => int64 (t.nChainStat p .shieldedTx+stat .shieldedTx)
  | .deshieldingPayments => int64 (t.nChainStat p .shieldedPayments+stat .shieldedPayments)
  | .shieldedSpends => t.nChainStat pindex .shieldedSpends
  | x => int64 (t.nChainStat p x+stat x)

/-- The assignments to a root. -/
def loadRootStats (t : Totals H) (stat : Stat → Nat) (pindex : H) : Stat → Int
  | .fullyShieldedTx => t.nChainStat pindex .fullyShieldedTx
  | .shieldedSpends => t.nChainStat pindex .shieldedSpends
  | x => stat x

/-- The assignments to a block whose parent is not linked. -/
def clearStats (t : Totals H) (pindex : H) : Stat → Int
  | .shieldingTx => t.nChainStat pindex .shieldingTx
  | .shieldedSpends => t.nChainStat pindex .shieldedSpends
  | _ => 0

def assign (fZindex : Bool) (t : Totals H) (pindex : H) (nChainTx : Nat)
    (nChainSaplingValue : Option Int) (nChainStat : Stat → Int) : Totals H :=
  { nChainTx := Function.update t.nChainTx pindex nChainTx
    nChainSaplingValue := Function.update t.nChainSaplingValue pindex nChainSaplingValue
    nChainStat := if fZindex then Function.update t.nChainStat pindex nChainStat else t.nChainStat }

end Totals

namespace TotalState

/-- The statistics that `LoadBlockIndexGuts` reads from the record of a block. -/
def readStat (fZindex : Bool) (s : TotalState H) (pindex : H) : Stat → Nat :=
  if fZindex then s.stat pindex else fun _ => 0

/-- What `LoadBlockIndexDB` does with one block. -/
def loadBlock (fZindex : Bool) (s : TotalState H) (t : Totals H) (pindex : H) : Totals H :=
  if 0<(s.chain.index pindex).nTx then
    match s.chain.pprev pindex with
    | some p =>
        if t.nChainTx p≠0 then
          t.assign fZindex pindex ((t.nChainTx p+(s.chain.index pindex).nTx)%2^32)
            ((t.nChainSaplingValue p).map (fun v => int64 (v+s.nSaplingValue pindex)))
            (t.loadStats (s.readStat fZindex pindex) pindex p)
        else t.assign fZindex pindex 0 none (t.clearStats pindex)
    | none =>
        t.assign fZindex pindex (s.chain.index pindex).nTx (some (s.nSaplingValue pindex))
          (t.loadRootStats (s.readStat fZindex pindex) pindex)
  else t

/-- The order of `vSortedByHeight`. -/
def before (s : TotalState H) (a b : H) : Prop :=
  toLex ((s.chain.index a).nHeight,a)≤toLex ((s.chain.index b).nHeight,b)

instance (s : TotalState H) : DecidableRel s.before := fun _ _ => inferInstanceAs (Decidable (_≤_))

def vSortedByHeight (s : TotalState H) : List H :=
  (Forest.keys s.chain.mapBlockIndex).insertionSort s.before

/-- The totals from what is stored of each block, with the global `fZindex` as it is then. -/
def loadBlockIndexDB (fZindex : Bool) (s : TotalState H) : Totals H :=
  s.vSortedByHeight.foldl (s.loadBlock fZindex) .none

/-- The totals after a restart: the flag of the database is read behind the loop, which
still finds the initial value of the global. -/
def restart (s : TotalState H) : Totals H := s.loadBlockIndexDB false

end TotalState

/-- Headers and the data of blocks, as they arrive. -/
inductive TotalOp (H : Type) where
  | addToBlockIndex (hash hashPrevBlock : H) (nBits : BitVec 32)
  | receivedBlockTransactions (hash : H) (vtx : List CTransaction)

/-- One arrival; `AcceptBlock` stores a block of the index once and with its
transactions. -/
def totalStep (fZindex : Bool) (s : TotalState H) : TotalOp H → Option (TotalState H)
  | .addToBlockIndex hash hashPrevBlock nBits =>
      some {s with chain := s.chain.addToBlockIndex hash hashPrevBlock nBits}
  | .receivedBlockTransactions hash vtx =>
      if among hash (Forest.keys s.chain.mapBlockIndex) ∧ (s.chain.status hash).haveData=false ∧
          vtx≠[] then
        s.receivedBlockTransactions fZindex hash vtx
      else none

end Zdeex.Validity
