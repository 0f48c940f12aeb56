import Mathlib.Logic.Function.Basic
import Zdeex.Block.Undo

namespace Zdeex.Block

open Zdeex.Coins

structure CAddressIndexKey where
  type : Nat
  hashBytes : List UInt8
  blockHeight : Int
  txindex : Nat
  txhash : Uint256
  index : Nat
  spending : Bool
  deriving DecidableEq

structure CAddressUnspentKey where
  type : Nat
  hashBytes : List UInt8
  txhash : Uint256
  index : Nat
  deriving DecidableEq

structure CAddressUnspentValue where
  satoshis : Int
  script : List UInt8
  blockHeight : Int
  deriving DecidableEq

structure CSpentIndexKey where
  txid : Uint256
  outputIndex : Nat
  deriving DecidableEq

structure CSpentIndexValue where
  txid : Uint256
  inputIndex : Nat
  blockHeight : Int
  satoshis : Int
  addressType : Nat
  addressHash : List UInt8
  deriving DecidableEq

def CAddressUnspentValue.setNull : CAddressUnspentValue := ⟨-1,[],0⟩

def CAddressUnspentValue.isNull (value : CAddressUnspentValue) : Bool := value.satoshis== -1

/-- A `uint160` of zeros. -/
def nullHash160 : List UInt8 := List.replicate 20 0

def CSpentIndexValue.setNull : CSpentIndexValue := ⟨0,0,0,0,0,nullHash160⟩

def CSpentIndexValue.isNull (value : CSpentIndexValue) : Bool := value.txid.isNull

/-- The entries that one call collects for the three indexes. -/
structure IndexDelta where
  addressIndex : List (CAddressIndexKey × Int)
  addressUnspentIndex : List (CAddressUnspentKey × CAddressUnspentValue)
  spentIndex : List (CSpentIndexKey × CSpentIndexValue)
  deriving DecidableEq

namespace IndexDelta

def empty : IndexDelta := ⟨[],[],[]⟩

def append (a b : IndexDelta) : IndexDelta :=
  ⟨a.addressIndex++b.addressIndex,a.addressUnspentIndex++b.addressUnspentIndex,
    a.spentIndex++b.spentIndex⟩

def concat : List IndexDelta → IndexDelta := List.foldr append empty

end IndexDelta

/-- What the indexes need to know: the type of the address of a script, 0 when it has
none, with the hashes it pays to, and which indexes are kept. -/
structure IndexRules where
  getAddressType : List UInt8 → Nat × List (List UInt8)
  fAddressIndex : Bool
  fSpentIndex : Bool

section Delta

variable (R : IndexRules) (nHeight : Int) (i : Nat) (txhash : Uint256)

/-- Entries for each address of an output. -/
def forAddresses {K V : Type} (out : CTxOut) (entry : Nat → List UInt8 → K × V) : List (K × V) :=
  let keyType := (R.getAddressType out.scriptPubKey).1
  if keyType≠0 then (R.getAddressType out.scriptPubKey).2.map (entry keyType) else []

/-- Input `j` spends `prevout`, which is `out`. -/
def spendDelta (j : Nat) (prevout : COutPoint) (out : CTxOut) : IndexDelta where
  addressIndex := forAddresses R out fun keyType addrHash =>
    (⟨keyType,addrHash,nHeight,i,txhash,j,true⟩,-out.nValue)
  addressUnspentIndex := forAddresses R out fun keyType addrHash =>
    (⟨keyType,addrHash,prevout.hash,prevout.n⟩,CAddressUnspentValue.setNull)
  spentIndex :=
    if R.fSpentIndex ∧ (R.getAddressType out.scriptPubKey).1≠0 then
      [(⟨prevout.hash,prevout.n⟩,
        ⟨txhash,j,nHeight,out.nValue,(R.getAddressType out.scriptPubKey).1,
          (R.getAddressType out.scriptPubKey).2.getLastD nullHash160⟩)]
    else []

def receiveDelta (k : Nat) (out : CTxOut) : IndexDelta where
  addressIndex := forAddresses R out fun keyType addrHash =>
    (⟨keyType,addrHash,nHeight,i,txhash,k,false⟩,out.nValue)
  addressUnspentIndex := forAddresses R out fun keyType addrHash =>
    (⟨keyType,addrHash,txhash,k⟩,⟨out.nValue,out.scriptPubKey,nHeight⟩)
  spentIndex := []

/-- `DisconnectBlock` takes an output out of the indexes. -/
def unreceiveDelta (k : Nat) (out : CTxOut) : IndexDelta where
  addressIndex := forAddresses R out fun keyType addrHash =>
    (⟨keyType,addrHash,nHeight,i,txhash,k,false⟩,out.nValue)
  addressUnspentIndex := forAddresses R out fun keyType addrHash =>
    (⟨keyType,addrHash,txhash,k⟩,CAddressUnspentValue.setNull)
  spentIndex := []

/-- The output is found again at `prevout`; its height comes from the undo data. -/
def unspendDelta (j : Nat) (prevout : COutPoint) (out : CTxOut) (undoHeight : Nat) : IndexDelta where
  addressIndex := if R.fAddressIndex then forAddresses R out fun keyType addrHash =>
    (⟨keyType,addrHash,nHeight,i,txhash,j,true⟩,-out.nValue) else []
  addressUnspentIndex := if R.fAddressIndex then forAddresses R out fun keyType addrHash =>
    (⟨keyType,addrHash,prevout.hash,prevout.n⟩,⟨out.nValue,out.scriptPubKey,undoHeight⟩) else []
  spentIndex := if R.fSpentIndex then [(⟨prevout.hash,prevout.n⟩,CSpentIndexValue.setNull)] else []

end Delta

/-- The indexes in the block tree database. -/
structure IndexDb where
  address : CAddressIndexKey → Option Int
  addressUnspent : CAddressUnspentKey → Option CAddressUnspentValue
  spent : CSpentIndexKey → Option CSpentIndexValue

/-- A batch: every entry in turn is written, or erased when `stored` gives none. -/
def writeBatch {K V W : Type} [DecidableEq K] (stored : V → Option W) (vect : List (K × V))
    (db : K → Option W) : K → Option W :=
  vect.foldl (fun db kv => Function.update db kv.1 (stored kv.2)) db

def writeAddressIndex (vect : List (CAddressIndexKey × Int)) :=
  writeBatch (fun satoshis : Int => some satoshis) vect

def eraseAddressIndex (vect : List (CAddressIndexKey × Int)) :=
  writeBatch (fun _ : Int => (none : Option Int)) vect

def updateAddressUnspentIndex (vect : List (CAddressUnspentKey × CAddressUnspentValue)) :=
  writeBatch (fun value : CAddressUnspentValue => if value.isNull then none else some value) vect

def updateSpentIndex (vect : List (CSpentIndexKey × CSpentIndexValue)) :=
  writeBatch (fun value : CSpentIndexValue => if value.isNull then none else some value) vect

/-- Index writes at the end of `ConnectBlock`. -/
def IndexDb.connect (R : IndexRules) (delta : IndexDelta) (db : IndexDb) : IndexDb where
  address := if R.fAddressIndex then writeAddressIndex delta.addressIndex db.address else db.address
  addressUnspent :=
    if R.fAddressIndex then
      updateAddressUnspentIndex delta.addressUnspentIndex db.addressUnspent
    else db.addressUnspent
  spent := if R.fSpentIndex then updateSpentIndex delta.spentIndex db.spent else db.spent

/-- Index writes at the end of `DisconnectBlock`; the entries for the spent index are
not used. -/
def IndexDb.disconnect (R : IndexRules) (delta : IndexDelta) (db : IndexDb) : IndexDb where
  address := if R.fAddressIndex then eraseAddressIndex delta.addressIndex db.address else db.address
  addressUnspent :=
    if R.fAddressIndex then
      updateAddressUnspentIndex delta.addressUnspentIndex db.addressUnspent
    else db.addressUnspent
  spent := db.spent

end Zdeex.Block
