import Mathlib.Algebra.Order.BigOperators.Group.List
import Mathlib.Tactic.Linarith
import Zdeex.Block.Transaction
import Zdeex.Framework.OwnedIndex
import Zdeex.Framework.Run

namespace Zdeex.Mempool

open Zdeex.Framework Zdeex.Block Zdeex.Coins

/-- A transaction with its lock time and the `nSequence` of its inputs. -/
structure PoolTx extends CTransaction where
  nLockTime : Nat
  nSequence : List Nat
  deriving DecidableEq

/-- `CTxMemPoolEntry` without what only the fee estimates read. -/
structure CTxMemPoolEntry where
  tx : PoolTx
  nTxSize : Nat
  nUsageSize : Nat
  nTime : Int
  spendsCoinbase : Bool
  nBranchId : Nat
  deriving DecidableEq

/-- The transaction is given by its id, which is what a pointer into `mapTx` leads to. -/
structure CInPoint where
  ptx : Uint256
  n : Nat
  deriving DecidableEq

structure CMempoolAddressDeltaKey where
  type : Nat
  addressBytes : List UInt8
  txhash : Uint256
  index : Nat
  spending : Bool
  deriving DecidableEq

structure CMempoolAddressDelta where
  time : Int
  amount : Int
  prevhash : Uint256
  prevout : Nat
  deriving DecidableEq

structure CSpentIndexValue where
  txid : Uint256
  inputIndex : Nat
  blockHeight : Int
  satoshis : Int
  addressType : Nat
  addressHash : List UInt8
  deriving DecidableEq

inductive TxnOutType where
  | pubkeyhash
  | scripthash
  | multisig
  | other
  deriving DecidableEq

/-- What the indexes ask about scripts: `Solver`, `ExtractDestination` for scripts it
does not solve, the keys of a destination, and `Hash160`. -/
structure ScriptApi (D : Type) where
  solver : List UInt8 → Option (TxnOutType × List (List UInt8))
  extractDestination : List UInt8 → Option D
  getIndexKey : D → Bool → Option (List UInt8 × Nat)
  getKeyID : D → Option (List UInt8)
  isPayToCryptoCondition : List UInt8 → Bool
  hash160 : List UInt8 → List UInt8

/-- The maps of `CTxMemPool`. `mapTx` is in the order of arrival, while the source
walks it in the order of the ids. -/
structure CTxMemPool where
  mapTx : List CTxMemPoolEntry
  mapNextTx : COutPoint → Option CInPoint
  mapSaplingNullifiers : Uint256 → Option Uint256
  mapRecentlyAddedTx : List Uint256
  nRecentlyAddedSequence : Nat
  mapAddress : CMempoolAddressDeltaKey → Option CMempoolAddressDelta
  mapAddressInserted : Uint256 → Option (List CMempoolAddressDeltaKey)
  mapSpent : COutPoint → Option CSpentIndexValue
  mapSpentInserted : Uint256 → Option (List COutPoint)
  totalTxSize : Nat
  cachedInnerUsage : Nat

namespace PoolTx

variable (pegscc : Bool) (tx : PoolTx)

def outpoints : List COutPoint := tx.vin.map CTxIn.prevout

def nullifiers : List Uint256 := tx.vShieldedSpend.map SpendDescription.nullifier

/-- The inputs that go into `mapNextTx`, with their positions: none of an import, and
not the first one of a pegs import. -/
def indexedInputs : List (COutPoint × Nat) :=
  if tx.isCoinImport then []
  else tx.outpoints.zipIdx.filter (fun x => !(tx.isPegsImport pegscc && x.2==0))

def inPoints : List (COutPoint × CInPoint) :=
  (tx.indexedInputs pegscc).map (fun x => (x.1,⟨tx.hash,x.2⟩))

end PoolTx

namespace ScriptApi

variable {D : Type} (api : ScriptApi D)

/-- The script solves, or a destination can be extracted; with the type, the destination
in the second case, and the solutions. -/
def solved (script : List UInt8) : Option (TxnOutType × Option D × List (List UInt8)) :=
  match api.solver script with
  | some (txType,vSols) => some (txType,none,vSols)
  | none => (api.extractDestination script).map (fun vDest => (.other,some vDest,[]))

def addressHash (addr : List UInt8) : List UInt8 :=
  if addr.length=20 then addr else api.hash160 addr

/-- The key type and the solutions with the index key of a destination. -/
def indexKeys (script : List UInt8) (vDest : Option D) (vSols : List (List UInt8)) :
    Nat × List (List UInt8) :=
  match vDest with
  | none => (1,vSols)
  | some d =>
      match api.getIndexKey d (api.isPayToCryptoCondition script) with
      | some (hashBytes,keyType) => (keyType,vSols++[hashBytes])
      | none => (1,vSols)

/-- The index entries of a spent output. -/
def inputDeltas (e : CTxMemPoolEntry) (j : Nat) (o : COutPoint) (prevout : CTxOut) :
    List (CMempoolAddressDeltaKey × CMempoolAddressDelta) :=
  match api.solved prevout.scriptPubKey with
  | none => []
  | some (txType,vDest,vSols) =>
      let (keyType,vSols) := api.indexKeys prevout.scriptPubKey vDest vSols
      let keyType := if txType=.scripthash then 2 else keyType
      vSols.map (fun addr => (⟨keyType,api.addressHash addr,e.tx.hash,j,true⟩,
        ⟨e.nTime,prevout.nValue * -1,o.hash,o.n⟩))

/-- The index entries of a new output. -/
def outputDeltas (e : CTxMemPoolEntry) (k : Nat) (out : CTxOut) :
    List (CMempoolAddressDeltaKey × CMempoolAddressDelta) :=
  match api.solved out.scriptPubKey with
  | none => []
  | some (txType,vDest,vSols) =>
      if txType=.multisig then []
      else
        let (keyType,vSols) := api.indexKeys out.scriptPubKey vDest vSols
        let keyType := if txType=.scripthash then 2 else keyType
        vSols.map (fun addr => (⟨keyType,api.addressHash addr,e.tx.hash,k,false⟩,
          ⟨e.nTime,out.nValue,0,0⟩))

/-- The entries of the spent index for one input. -/
def spentValues (e : CTxMemPoolEntry) (j : Nat) (o : COutPoint) (prevout : CTxOut) :
    List (COutPoint × CSpentIndexValue) :=
  let unknown := [(o,⟨e.tx.hash,j,-1,prevout.nValue,0,List.replicate 20 0⟩)]
  match api.solved prevout.scriptPubKey with
  | none => unknown
  | some (txType,vDest,vSols) =>
      if txType=.multisig then unknown
      else
        let vSols := match vDest with
          | none => vSols
          | some d => vSols++(api.getKeyID d).toList
        let keyType := if txType=.scripthash then 2 else 1
        vSols.map (fun addr => (o,⟨e.tx.hash,j,-1,prevout.nValue,keyType,api.addressHash addr⟩))

/-- One part of an index for each input but the first one of a pegs import; an output
that is not in the view is a failed assertion. -/
def perInput {V : Type} (pegscc : Bool) (view : COutPoint → Option CTxOut) (tx : PoolTx)
    (f : Nat → COutPoint → CTxOut → List V) : Option (List V) :=
  (tx.outpoints.zipIdx.filter (fun x => !(tx.isPegsImport pegscc && x.2==0))).mapM
    (fun x => (view x.1).map (f x.2 x.1)) |>.map List.flatten

/-- What `addAddressIndex` inserts. -/
def addressEntries (pegscc : Bool) (view : COutPoint → Option CTxOut) (e : CTxMemPoolEntry) :
    Option (List (CMempoolAddressDeltaKey × CMempoolAddressDelta)) :=
  (perInput pegscc view e.tx (api.inputDeltas e)).map (fun inputs =>
    inputs++(e.tx.vout.zipIdx.map (fun x => api.outputDeltas e x.2 x.1)).flatten)

/-- What `addSpentIndex` inserts. -/
def spentEntries (pegscc : Bool) (view : COutPoint → Option CTxOut) (e : CTxMemPoolEntry) :
    Option (List (COutPoint × CSpentIndexValue)) :=
  perInput pegscc view e.tx (api.spentValues e)

end ScriptApi

namespace CTxMemPool

/-- The pool at the start. -/
def empty : CTxMemPool :=
  { mapTx := [],mapNextTx := fun _ => none,mapSaplingNullifiers := fun _ => none,
    mapRecentlyAddedTx := [],nRecentlyAddedSequence := 0,mapAddress := fun _ => none,
    mapAddressInserted := fun _ => none,mapSpent := fun _ => none,
    mapSpentInserted := fun _ => none,totalTxSize := 0,cachedInnerUsage := 0 }

variable (p : CTxMemPool)

def find (hash : Uint256) : Option CTxMemPoolEntry := p.mapTx.find? (fun e => e.tx.hash=hash)

/-- `addUnchecked`; an entry with the same id stays. -/
def addUnchecked (pegscc : Bool) (entry : CTxMemPoolEntry) : CTxMemPool :=
  let hash := entry.tx.hash
  let tx := (p.find hash).elim entry.tx CTxMemPoolEntry.tx
  {p with
    mapTx := if p.find hash=none then p.mapTx++[entry] else p.mapTx
    mapRecentlyAddedTx := if hash∈p.mapRecentlyAddedTx then p.mapRecentlyAddedTx
      else p.mapRecentlyAddedTx++[hash]
    nRecentlyAddedSequence := (p.nRecentlyAddedSequence+1)%2^64
    mapNextTx := writeAll p.mapNextTx (tx.inPoints pegscc)
    mapSaplingNullifiers := writeAll p.mapSaplingNullifiers (tx.nullifiers.map (fun nf => (nf,hash)))
    totalTxSize := (p.totalTxSize+entry.nTxSize)%2^64
    cachedInnerUsage := (p.cachedInnerUsage+entry.nUsageSize)%2^64}

def addAddressIndex {D : Type} (api : ScriptApi D) (pegscc : Bool)
    (view : COutPoint → Option CTxOut) (entry : CTxMemPoolEntry) : Option CTxMemPool :=
  (api.addressEntries pegscc view entry).map (fun inserted =>
    {p with
      mapAddress := insertAll p.mapAddress inserted
      mapAddressInserted := insertNew p.mapAddressInserted entry.tx.hash (inserted.map Prod.fst)})

def addSpentIndex {D : Type} (api : ScriptApi D) (pegscc : Bool)
    (view : COutPoint → Option CTxOut) (entry : CTxMemPoolEntry) : Option CTxMemPool :=
  (api.spentEntries pegscc view entry).map (fun inserted =>
    {p with
      mapSpent := insertAll p.mapSpent inserted
      mapSpentInserted := insertNew p.mapSpentInserted entry.tx.hash (inserted.map Prod.fst)})

def removeAddressIndex (txhash : Uint256) : CTxMemPool :=
  {p with
    mapAddress := (untrack p.mapAddress p.mapAddressInserted txhash).1
    mapAddressInserted := (untrack p.mapAddress p.mapAddressInserted txhash).2}

def removeSpentIndex (txhash : Uint256) : CTxMemPool :=
  {p with
    mapSpent := (untrack p.mapSpent p.mapSpentInserted txhash).1
    mapSpentInserted := (untrack p.mapSpent p.mapSpentInserted txhash).2}

/-- The transactions that spend the outputs of a transaction. -/
def spenders (hash : Uint256) (voutSize : Nat) : List Uint256 :=
  (List.range voutSize).filterMap (fun i => (p.mapNextTx ⟨hash,i⟩).map CInPoint.ptx)

/-- The body of the loop in `remove`, for an entry of the pool. -/
def removeEntry (e : CTxMemPoolEntry) : CTxMemPool :=
  let hash := e.tx.hash
  let q : CTxMemPool := {p with
    mapRecentlyAddedTx := p.mapRecentlyAddedTx.filter (fun h => h≠hash)
    mapNextTx := eraseAll p.mapNextTx e.tx.outpoints
    mapSaplingNullifiers := eraseAll p.mapSaplingNullifiers e.tx.nullifiers
    totalTxSize := (p.totalTxSize+(2^64-e.nTxSize%2^64))%2^64
    cachedInnerUsage := (p.cachedInnerUsage+(2^64-e.nUsageSize%2^64))%2^64
    mapTx := p.mapTx.filter (fun f => f.tx.hash≠hash)}
  (q.removeAddressIndex hash).removeSpentIndex hash

/-- The loop of `remove` over `txToRemove`; every pass takes an id from the queue, and
the spenders are queued once for each transaction of the pool. -/
def removeLoop (fRecursive : Bool) :
    Nat → List Uint256 → CTxMemPool × List PoolTx → Option (CTxMemPool × List PoolTx)
  | _,[],s => some s
  | 0,_::_,_ => none
  | n+1,hash::txToRemove,(p,removed) =>
      match p.find hash with
      | none => removeLoop fRecursive n txToRemove (p,removed)
      | some e =>
          let txToRemove := if fRecursive then txToRemove++p.spenders hash e.tx.vout.length
            else txToRemove
          removeLoop fRecursive n txToRemove (p.removeEntry e,removed++[e.tx])

/-- A bound for the passes of the loop. -/
def fuel (txToRemove : List Uint256) : Nat :=
  txToRemove.length+(p.mapTx.map (fun e => e.tx.vout.length)).sum

def remove (origTx : PoolTx) (fRecursive : Bool) (removed : List PoolTx) :
    Option (CTxMemPool × List PoolTx) :=
  let txToRemove := origTx.hash::
    (if fRecursive && (p.find origTx.hash).isNone then p.spenders origTx.hash origTx.vout.length
    else [])
  removeLoop fRecursive (p.fuel txToRemove) txToRemove (p,removed)

/-- Removes transactions one after the other, with their descendants. -/
def removeAll : List PoolTx → CTxMemPool → Option CTxMemPool
  | [],p => some p
  | tx::transactionsToRemove,p =>
      match p.remove tx true [] with
      | none => none
      | some (q,_) => removeAll transactionsToRemove q

/-- The pool transactions of a conflict, found through one of the two maps. -/
def removeConflict (tx : PoolTx) (found : Option Uint256) (s : CTxMemPool × List PoolTx) :
    Option (CTxMemPool × List PoolTx) :=
  match found.bind s.1.find with
  | none => some s
  | some txConflict =>
      if txConflict.tx.hash=tx.hash then some s else s.1.remove txConflict.tx true s.2

def removeConflictsIn (tx : PoolTx) :
    List COutPoint → CTxMemPool × List PoolTx → Option (CTxMemPool × List PoolTx)
  | [],s => some s
  | o::rest,s =>
      (removeConflict tx ((s.1.mapNextTx o).map CInPoint.ptx) s).bind (removeConflictsIn tx rest)

def removeConflictsShielded (tx : PoolTx) :
    List Uint256 → CTxMemPool × List PoolTx → Option (CTxMemPool × List PoolTx)
  | [],s => some s
  | nf::rest,s =>
      (removeConflict tx (s.1.mapSaplingNullifiers nf) s).bind (removeConflictsShielded tx rest)

def removeConflicts (tx : PoolTx) (removed : List PoolTx) : Option (CTxMemPool × List PoolTx) :=
  (removeConflictsIn tx tx.outpoints (p,removed)).bind (removeConflictsShielded tx tx.nullifiers)

/-- `removeForBlock` with the conflicts it reports. -/
def removeForBlock : List PoolTx → CTxMemPool × List PoolTx → Option (CTxMemPool × List PoolTx)
  | [],s => some s
  | tx::vtx,(p,conflicts) =>
      match p.remove tx false [] with
      | none => none
      | some (q,_) => (q.removeConflicts tx conflicts).bind (removeForBlock vtx)

/-- `removeExpired`: the list of transactions to remove is never filled. -/
def removeExpired (_ : Nat) : Option (CTxMemPool × List Uint256) :=
  let transactionsToRemove : List PoolTx := []
  (removeAll transactionsToRemove p).map (fun q => (q,transactionsToRemove.map (fun tx => tx.hash)))

def removeWithAnchor (invalidRoot : Uint256) : Option CTxMemPool :=
  removeAll ((p.mapTx.filter (fun e => e.tx.vShieldedSpend.any (fun d => d.anchor=invalidRoot))).map
    CTxMemPoolEntry.tx) p

def removeWithoutBranchId (nMemPoolBranchId : Nat) : Option CTxMemPool :=
  removeAll ((p.mapTx.filter (fun e => e.nBranchId≠nMemPoolBranchId)).map CTxMemPoolEntry.tx) p

def drainRecentlyAdded : CTxMemPool × List PoolTx × Nat :=
  ({p with mapRecentlyAddedTx := []},
    p.mapRecentlyAddedTx.filterMap (fun h => (p.find h).map CTxMemPoolEntry.tx),
    p.nRecentlyAddedSequence)

end CTxMemPool

/-- What `removeForReorg` and the checks of a transaction read of the chain: the next
height and its `GetMedianTimePast`, the coins and the rules for coinbases. -/
structure ChainTip where
  nMemPoolHeight : Int
  medianTimePast : Int
  hardforkActive : Bool
  accessCoins : Uint256 → Option CCoins
  COINBASE_MATURITY : Int
  blockUnlockTime : Int → Int
  ASSETCHAINS_TIMELOCKGTE : Int

def LOCKTIME_THRESHOLD : Int := 500000000

/-- An input that does not keep its transaction from being final. -/
def ChainTip.inputFinal (c : ChainTip) (nLockTime : Int) (nSequence : Nat) : Bool :=
  let after := if LOCKTIME_THRESHOLD≤nLockTime then decide (c.medianTimePast<nLockTime)
    else decide (c.nMemPoolHeight<nLockTime)
  if !c.hardforkActive && nSequence==0xfffffffe && after then true
  else if c.hardforkActive && nSequence==0xfffffffe && !after then true
  else nSequence==0xffffffff

/-- `CheckFinalTx` with `STANDARD_LOCKTIME_VERIFY_FLAGS`. -/
def ChainTip.checkFinalTx (c : ChainTip) (tx : PoolTx) : Bool :=
  tx.nLockTime==0 ||
    decide ((tx.nLockTime : Int)<
      (if (tx.nLockTime : Int)<LOCKTIME_THRESHOLD then c.nMemPoolHeight else c.medianTimePast)) ||
    tx.nSequence.all (c.inputFinal tx.nLockTime)

/-- `IsExpiredTx`. -/
def isExpiredTx (tx : PoolTx) (nBlockHeight : Int) : Bool :=
  if tx.nExpiryHeight=0 ∨ tx.isCoinBase=true then false
  else decide ((tx.nExpiryHeight : Int)<nBlockHeight%2^32)

/-- The test of `removeForReorg` on the coins of an input: missing, or a coinbase that
is immature and locked at once. -/
def ChainTip.evictsCoins (c : ChainTip) (coins : Option CCoins) : Bool :=
  match coins with
  | none => true
  | some coins =>
      coins.fCoinBase && decide (c.nMemPoolHeight-coins.nHeight<c.COINBASE_MATURITY) &&
        (decide (c.nMemPoolHeight<c.blockUnlockTime coins.nHeight) &&
          match coins.unspentOutput 0 with
          | none => false
          | some out => decide (c.ASSETCHAINS_TIMELOCKGTE≤out.nValue%2^64))

namespace CTxMemPool

/-- Whether `removeForReorg` picks an entry; inputs from the pool are passed over. -/
def failsReorg (p : CTxMemPool) (c : ChainTip) (e : CTxMemPoolEntry) : Bool :=
  if !c.checkFinalTx e.tx then true
  else e.spendsCoinbase && e.tx.outpoints.any (fun o =>
    (p.find o.hash).isNone && c.evictsCoins (c.accessCoins o.hash))

def removeForReorg (p : CTxMemPool) (c : ChainTip) : Option CTxMemPool :=
  removeAll ((p.mapTx.filter (fun e => p.failsReorg c e)).map CTxMemPoolEntry.tx) p

end CTxMemPool

/-- The calls on a pool. -/
inductive PoolOp where
  | addUnchecked (entry : CTxMemPoolEntry)
  | addAddressIndex (entry : CTxMemPoolEntry)
  | addSpentIndex (entry : CTxMemPoolEntry)
  | remove (tx : PoolTx) (fRecursive : Bool)
  | removeConflicts (tx : PoolTx)
  | removeForBlock (vtx : List PoolTx)
  | removeForReorg (tip : ChainTip)
  | removeWithAnchor (invalidRoot : Uint256)
  | removeWithoutBranchId (nMemPoolBranchId : Nat)
  | drainRecentlyAdded

/-- One call; `view` gives the outputs that transactions spend. -/
def poolStep {D : Type} (api : ScriptApi D) (pegscc : Bool) (view : COutPoint → Option CTxOut)
    (p : CTxMemPool) : PoolOp → Option CTxMemPool
  | .addUnchecked entry => some (p.addUnchecked pegscc entry)
  | .addAddressIndex entry => p.addAddressIndex api pegscc view entry
  | .addSpentIndex entry => p.addSpentIndex api pegscc view entry
  | .remove tx fRecursive => (p.remove tx fRecursive []).map Prod.fst
  | .removeConflicts tx => (p.removeConflicts tx []).map Prod.fst
  | .removeForBlock vtx => (CTxMemPool.removeForBlock vtx (p,[])).map Prod.fst
  | .removeForReorg tip => p.removeForReorg tip
  | .removeWithAnchor invalidRoot => p.removeWithAnchor invalidRoot
  | .removeWithoutBranchId nMemPoolBranchId => p.removeWithoutBranchId nMemPoolBranchId
  | .drainRecentlyAdded => some p.drainRecentlyAdded.1

end Zdeex.Mempool
