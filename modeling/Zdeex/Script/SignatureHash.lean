import Zdeex.Framework.Checks
import Zdeex.Framework.Traced
import Zdeex.Framework.Uncounted
import Zdeex.Primitives.TransactionFormat

namespace Zdeex.Sighash

open Zdeex.Framework
open Zdeex.Wire

section Source

/-- What is hashed, and by which of the two functions. -/
inductive Hashed
  | blake2b (personalization message : List Byte)
  | sha256d (message : List Byte)
deriving DecidableEq

inductive SigHashError
  | logicError | ioFailure | undefined
deriving DecidableEq

/-- A computation that hashes on its way. -/
abbrev Hashing := Traced Hashed SigHashError

def SIGHASH_NONE : BitVec 32 := 2
def SIGHASH_SINGLE : BitVec 32 := 3
def SIGHASH_ANYONECANPAY : BitVec 32 := 0x80

def NOT_AN_INPUT : Nat := 4294967295

def chars (cs : List Char) : List Byte := cs.map fun c => BitVec.ofNat 8 c.toNat

def ZCASH_PREVOUTS_HASH_PERSONALIZATION : List Byte :=
  chars ['Z','c','a','s','h','P','r','e','v','o','u','t','H','a','s','h']

def ZCASH_SEQUENCE_HASH_PERSONALIZATION : List Byte :=
  chars ['Z','c','a','s','h','S','e','q','u','e','n','c','H','a','s','h']

def ZCASH_OUTPUTS_HASH_PERSONALIZATION : List Byte :=
  chars ['Z','c','a','s','h','O','u','t','p','u','t','s','H','a','s','h']

def ZCASH_JOINSPLITS_HASH_PERSONALIZATION : List Byte :=
  chars ['Z','c','a','s','h','J','S','p','l','i','t','s','H','a','s','h']

def ZCASH_SHIELDED_SPENDS_HASH_PERSONALIZATION : List Byte :=
  chars ['Z','c','a','s','h','S','S','p','e','n','d','s','H','a','s','h']

def ZCASH_SHIELDED_OUTPUTS_HASH_PERSONALIZATION : List Byte :=
  chars ['Z','c','a','s','h','S','O','u','t','p','u','t','H','a','s','h']

/-- The arguments of `SignatureHash`, less the cache. -/
structure Args where
  scriptCode : List Byte
  txTo : CMutableTransaction
  nIn : Nat
  nHashType : BitVec 32
  amount : BitVec 64
  consensusBranchId : BitVec 32

namespace Args

variable (a : Args)

def fAnyoneCanPay : Bool := a.nHashType &&& SIGHASH_ANYONECANPAY≠0

def fHashSingle : Bool := a.nHashType &&& 0x1f=SIGHASH_SINGLE

def fHashNone : Bool := a.nHashType &&& 0x1f=SIGHASH_NONE

end Args

variable (hash : Hashed → Uint256)

/-- What a `CBLAKE2bWriter` gives for what was written into it. -/
def blake2b (personalization : List Byte) (written : Option (List Byte)) : Hashing Uint256 := do
  let message ← expect written SigHashError.ioFailure
  Traced.ask (.blake2b personalization message) (hash (.blake2b personalization message))

/-- A spend without its signature. -/
def unsignedSpend : Codec (Uint256 × Uint256 × Uint256 × Uint256 × Bytes 192) :=
  u256.pair <| u256.pair <| u256.pair <| u256.pair (bytes 192)

def getPrevoutHash (txTo : CMutableTransaction) : Hashing Uint256 :=
  blake2b hash ZCASH_PREVOUTS_HASH_PERSONALIZATION
    (outPoint.writeItems (txTo.vin.map CTxIn.prevout))

def getSequenceHash (txTo : CMutableTransaction) : Hashing Uint256 :=
  blake2b hash ZCASH_SEQUENCE_HASH_PERSONALIZATION (u32.writeItems (txTo.vin.map CTxIn.nSequence))

def getOutputsHash (vout : List CTxOut) : Hashing Uint256 :=
  blake2b hash ZCASH_OUTPUTS_HASH_PERSONALIZATION (txOut.writeItems vout)

/-- The bytes of the joinsplits and of their key. -/
def writeJoinSplits (header : BitVec 32) (p : List JSDescription × Uint256) :
    Option (List Byte) := do
  let e ← (jsDescription header).writeItems p.1
  let e' ← u256.write p.2
  return e++e'

def getJoinSplitsHash (txTo : CMutableTransaction) : Hashing Uint256 :=
  blake2b hash ZCASH_JOINSPLITS_HASH_PERSONALIZATION
    (writeJoinSplits (getHeader txTo.fOverwintered txTo.nVersion)
      (txTo.vjoinsplit,txTo.joinSplitPubKey))

def getShieldedSpendsHash (txTo : CMutableTransaction) : Hashing Uint256 :=
  blake2b hash ZCASH_SHIELDED_SPENDS_HASH_PERSONALIZATION
    (unsignedSpend.writeItems (txTo.vShieldedSpend.map fun s =>
      (s.cv,s.anchor,s.nullifier,s.rk,s.zkproof)))

def getShieldedOutputsHash (txTo : CMutableTransaction) : Hashing Uint256 :=
  blake2b hash ZCASH_SHIELDED_OUTPUTS_HASH_PERSONALIZATION
    (outputDescription.writeItems txTo.vShieldedOutput)

structure PrecomputedTransactionData where
  hashPrevouts : Uint256
  hashSequence : Uint256
  hashOutputs : Uint256
  hashJoinSplits : Uint256
  hashShieldedSpends : Uint256
  hashShieldedOutputs : Uint256

def PrecomputedTransactionData.of (txTo : CMutableTransaction) :
    Hashing PrecomputedTransactionData := do
  let hashPrevouts ← getPrevoutHash hash txTo
  let hashSequence ← getSequenceHash hash txTo
  let hashOutputs ← getOutputsHash hash txTo.vout
  let hashJoinSplits ← getJoinSplitsHash hash txTo
  let hashShieldedSpends ← getShieldedSpendsHash hash txTo
  let hashShieldedOutputs ← getShieldedOutputsHash hash txTo
  return ⟨hashPrevouts,hashSequence,hashOutputs,hashJoinSplits,hashShieldedSpends,
    hashShieldedOutputs⟩

/-- `SerializeInput`; the inputs that are not signed are blanked out. -/
def serializeInput (a : Args) (nInput : Nat) (txin : CTxIn) : CTxIn where
  prevout := txin.prevout
  scriptSig := if nInput≠a.nIn then [] else a.scriptCode
  nSequence := if nInput≠a.nIn && (a.fHashSingle || a.fHashNone) then 0 else txin.nSequence

/-- `CTxOut::SetNull`. -/
def CTxOut.null : CTxOut := ⟨-1,[]⟩

/-- What `CTransactionSignatureSerializer` writes, and the hash type behind it. -/
structure SproutFields where
  nVersion : BitVec 32
  vin : List CTxIn
  vout : List CTxOut
  nLockTime : BitVec 32
  vjoinsplit : List JSDescription
  joinSplitPubKey : Uint256 × Bytes 64
  nHashType : BitVec 32
deriving DecidableEq

def sproutFormat : Codec SproutFields :=
  (u32.andThen fun nVersion => (vector txIn).pair <| (vector txOut).pair <| u32.pair <|
    (Codec.when (2≤nVersion.toInt) (vector (jsDescription 0)) []).andThen fun vjoinsplit =>
    (Codec.when (2≤nVersion.toInt && !vjoinsplit.isEmpty) (u256.pair (bytes 64)) (0,0)).pair
      u32).shaped
  (fun (nVersion,vin,vout,nLockTime,vjoinsplit,joinSplitPubKey,nHashType) =>
    ⟨nVersion,vin,vout,nLockTime,vjoinsplit,joinSplitPubKey,nHashType⟩)
  (fun f => (f.nVersion,f.vin,f.vout,f.nLockTime,f.vjoinsplit,f.joinSplitPubKey,f.nHashType))
  (fun _ => rfl) (fun _ => rfl)

/-- `CTransactionSignatureSerializer`. -/
def sproutFields (a : Args) : SproutFields where
  nVersion := a.txTo.nVersion
  vin :=
    if a.fAnyoneCanPay then (a.txTo.vin[a.nIn]?.map (serializeInput a a.nIn)).toList
    else a.txTo.vin.mapIdx (serializeInput a)
  vout :=
    if a.fHashNone then []
    else if a.fHashSingle then
      List.replicate a.nIn CTxOut.null++[a.txTo.vout.getD a.nIn CTxOut.null]
    else a.txTo.vout
  nLockTime := a.txTo.nLockTime
  vjoinsplit := if 2≤a.txTo.nVersion.toInt then a.txTo.vjoinsplit else []
  joinSplitPubKey :=
    if 2≤a.txTo.nVersion.toInt && !a.txTo.vjoinsplit.isEmpty then (a.txTo.joinSplitPubKey,0)
    else (0,0)
  nHashType := a.nHashType

/-- The part of `SignatureHash` for transactions that are not overwintered. -/
def sproutHash (a : Args) : Hashing Uint256 := do
  reject (a.fHashSingle && decide (a.txTo.vout.length≤a.nIn)) SigHashError.logicError
  reject (a.fAnyoneCanPay && decide (a.txTo.vin.length≤a.nIn)) SigHashError.undefined
  let message ← expect (sproutFormat.write (sproutFields a)) SigHashError.ioFailure
  Traced.ask (.sha256d message) (hash (.sha256d message))

inductive SigVersion
  | SPROUT | OVERWINTER | SAPLING
deriving DecidableEq

def signatureHashVersion (txTo : CMutableTransaction) : SigVersion :=
  if txTo.fOverwintered then
    if txTo.nVersionGroupId=SAPLING_VERSION_GROUP_ID then .SAPLING else .OVERWINTER
  else .SPROUT

/-- A hash from the cache, if there is one. -/
def cached (cache : Option PrecomputedTransactionData)
    (field : PrecomputedTransactionData → Uint256) (compute : Hashing Uint256) :
    Hashing Uint256 :=
  match cache with
  | some cache => return field cache
  | none => compute

/-- The hashes of the parts; one that is not to be signed is left null. -/
def partHashes (cache : Option PrecomputedTransactionData) (a : Args) :
    Hashing PrecomputedTransactionData := do
  let tx := a.txTo
  let hashPrevouts ← (if !a.fAnyoneCanPay then
    cached cache (·.hashPrevouts) (getPrevoutHash hash tx) else pure 0)
  let hashSequence ← (if !a.fAnyoneCanPay && !a.fHashSingle && !a.fHashNone then
    cached cache (·.hashSequence) (getSequenceHash hash tx) else pure 0)
  let hashOutputs ← (if !a.fHashSingle && !a.fHashNone then
    cached cache (·.hashOutputs) (getOutputsHash hash tx.vout)
    else if a.fHashSingle then
      match tx.vout[a.nIn]? with
      | some txout => getOutputsHash hash [txout]
      | none => pure 0
    else pure 0)
  let hashJoinSplits ← (if !tx.vjoinsplit.isEmpty then
    cached cache (·.hashJoinSplits) (getJoinSplitsHash hash tx) else pure 0)
  let hashShieldedSpends ← (if !tx.vShieldedSpend.isEmpty then
    cached cache (·.hashShieldedSpends) (getShieldedSpendsHash hash tx) else pure 0)
  let hashShieldedOutputs ← (if !tx.vShieldedOutput.isEmpty then
    cached cache (·.hashShieldedOutputs) (getShieldedOutputsHash hash tx) else pure 0)
  return ⟨hashPrevouts,hashSequence,hashOutputs,hashJoinSplits,hashShieldedSpends,
    hashShieldedOutputs⟩

/-- The input that is signed, with the script and the amount of what it spends. -/
def signedInput : Codec (COutPoint × List Byte × BitVec 64 × BitVec 32) :=
  outPoint.pair <| script.pair <| u64.pair u32

/-- What is hashed at last, up to the input. -/
def preimage (sapling : Bool) : Codec (BitVec 32 × BitVec 32 × (Uint256 × Uint256 × Uint256 ×
    Uint256) × (Uint256 × Uint256) × BitVec 32 × BitVec 32 × BitVec 64 × BitVec 32) :=
  u32.pair <| u32.pair <| (u256.pair <| u256.pair <| u256.pair u256).pair <|
  (Codec.when sapling (u256.pair u256) (0,0)).pair <| u32.pair <| u32.pair <|
  (Codec.when sapling u64 0).pair u32

def inputBytes (a : Args) : Except SigHashError (List Byte) := do
  let txin ← expect a.txTo.vin[a.nIn]? .undefined
  expect (signedInput.write (txin.prevout,a.scriptCode,a.amount,txin.nSequence)) .ioFailure

def sigHashPersonalization (consensusBranchId : BitVec 32) : List Byte :=
  chars ['Z','c','a','s','h','S','i','g','H','a','s','h']++toBytes consensusBranchId

/-- The part of `SignatureHash` for the other ones. -/
def overwinterHash (cache : Option PrecomputedTransactionData) (sapling : Bool) (a : Args) :
    Hashing Uint256 := do
  let d ← partHashes hash cache a
  let e ← expect ((preimage sapling).write (getHeader a.txTo.fOverwintered a.txTo.nVersion,
    a.txTo.nVersionGroupId,
    (d.hashPrevouts,d.hashSequence,d.hashOutputs,d.hashJoinSplits),
    (d.hashShieldedSpends,d.hashShieldedOutputs),
    a.txTo.nLockTime,a.txTo.nExpiryHeight,a.txTo.valueBalance,a.nHashType)) SigHashError.ioFailure
  let input ← (if a.nIn≠NOT_AN_INPUT then inputBytes a else pure [])
  blake2b hash (sigHashPersonalization a.consensusBranchId) (some (e++input))

def signatureHash (cache : Option PrecomputedTransactionData) (a : Args) : Hashing Uint256 := do
  reject (a.txTo.vin.length≤a.nIn ∧ a.nIn≠NOT_AN_INPUT) SigHashError.logicError
  match signatureHashVersion a.txTo with
  | .SPROUT => sproutHash hash a
  | .OVERWINTER => overwinterHash hash cache false a
  | .SAPLING => overwinterHash hash cache true a

end Source

end Zdeex.Sighash
