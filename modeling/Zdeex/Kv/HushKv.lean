import Zdeex.Framework.Bytes
import Zdeex.Framework.KeyMap
import Zdeex.Framework.Run
import Zdeex.Primitives.Uint256

namespace Zdeex.Kv

open Zdeex.Framework

/-- An `int32_t`; comparisons go through `toInt`. -/
abbrev Height := BitVec 32

/-- An entry of `HUSH_KV`; `valuesize` is the length of the value. -/
structure HushKv where
  pubkey : Uint256
  value : List Byte
  height : Height
  flags : BitVec 32
  deriving DecidableEq

abbrev Store := KeyMap (List Byte) HushKv

/-- The chain's name and `hush_kvsigverify`, which takes the signed bytes, the
public key and the signature. -/
structure KvChain where
  SMART_CHAIN_SYMBOL : String
  hushKvsigverify : List Byte → Uint256 → Uint256 → Int

def HUSH_KVPROTECTED : BitVec 32 := 1

def HUSH_KVDURATION : Nat := 1440

def hushKvnumdays (flags : BitVec 32) : Nat := min (((flags>>>2) &&& 0x3ff).toNat+1) 365

def hushKvduration (flags : BitVec 32) : Height :=
  BitVec.ofNat 32 (hushKvnumdays flags*HUSH_KVDURATION)

/-- The product is an `int` that wraps; `none` is the division by zero of an empty
key. -/
def hushKvfee (flags : BitVec 32) (opretlen keylen : Nat) : Option (BitVec 64) :=
  let k := if keylen>32 then 32 else keylen
  if k=0 then none
  else
    let area := (BitVec.ofNat 32 opretlen*BitVec.ofNat 32 opretlen).sdiv (BitVec.ofNat 32 k)
    let fee := (BitVec.ofNat 32 (hushKvnumdays flags)*area).signExtend 64
    some (if fee.toNat<100000 then 100000 else fee)

/-- The entry has outlived its duration; the sum is an `int` that wraps. -/
def expired (current_height : Height) (e : HushKv) : Prop :=
  current_height.toInt>(e.height+hushKvduration e.flags).toInt

instance (current_height : Height) (e : HushKv) : Decidable (expired current_height e) :=
  inferInstanceAs (Decidable (_>_))

/-- The table after the search and the entry that it found. -/
def hushKvsearch (kv : Store) (current_height : Height) (key : List Byte) :
    Store × Option HushKv :=
  match kv.lookup key with
  | none => (kv,none)
  | some e => if expired current_height e then (kv.erase key,none) else (kv,some e)

section Message

variable (opretbuf : List Byte)

/-- `dragon_rwnum` at an offset. -/
def wordAt (w p : Nat) : BitVec w := ofBytes w ((opretbuf.drop p).take (w/8))

def keylen : Nat := (wordAt opretbuf 16 1).toNat

def valuesize : Nat := (wordAt opretbuf 16 3).toNat

def messageHeight : Height := wordAt opretbuf 32 5

def messageFlags : BitVec 32 := wordAt opretbuf 32 9

def messageKey : List Byte := (opretbuf.drop 13).take (keylen opretbuf)

def valueptr : List Byte := opretbuf.drop (13+keylen opretbuf)

def messageValue : List Byte := (valueptr opretbuf).take (valuesize opretbuf)

def coresize : Nat := 13+keylen opretbuf+valuesize opretbuf

def messagePubkey : Uint256 :=
  if opretbuf.length≥coresize opretbuf+32 then wordAt opretbuf 256 (coresize opretbuf) else 0

def messageSig : Uint256 :=
  if opretbuf.length=coresize opretbuf+64 then wordAt opretbuf 256 (coresize opretbuf+32)
  else 0

def sizeFits : Prop :=
  opretbuf.length=coresize opretbuf ∨ opretbuf.length=coresize opretbuf+32 ∨
    opretbuf.length=coresize opretbuf+64

instance : Decidable (sizeFits opretbuf) := inferInstanceAs (Decidable (_ ∨ _))

end Message

/-- `_unhex`; `none` is -1. -/
def unhex (ch : Byte) : Option Nat :=
  if 0x30 ≤ ch.toNat ∧ ch.toNat≤0x39 then some (ch.toNat-0x30)
  else if 0x61 ≤ ch.toNat ∧ ch.toNat≤0x66 then some (ch.toNat-0x61+10)
  else if 0x41 ≤ ch.toNat ∧ ch.toNat≤0x46 then some (ch.toNat-0x41+10)
  else none

/-- `is_hexstr` with a length of zero counts the leading digits. -/
def isHexstr (str : List Byte) : Nat := (str.takeWhile fun ch => (unhex ch).isSome).length

/-- `_decode_hex` of every pair of digits. -/
def decodeHex : List Byte → List Byte
  | hi::lo::str => BitVec.ofNat 8 (16*(unhex hi).getD 0+(unhex lo).getD 0)::decodeHex str
  | _ => []

/-- The bytes of `transfer:`. -/
def tstr : List Byte := [0x74,0x72,0x61,0x6e,0x73,0x66,0x65,0x72,0x3a]

/-- The key a `transfer:` value names; the string goes on behind the buffer. -/
def transferPubkey (str : List Byte) : Option Uint256 :=
  if str.take 9=tstr ∧ isHexstr (str.drop 9)=64 then
    some (ofBytes 256 (decodeHex ((str.drop 9).take 64)).reverse)
  else none

/-- One call of `hush_kvupdate`: the height of its block, the OP_RETURN with the
bytes that stand behind it in memory, and the amount paid. -/
structure KvCall where
  blockHeight : Height
  opretbuf : List Byte
  beyond : List Byte
  value : BitVec 64

/-- The call gets as far as the search in the table; `none` is a crash. -/
def KvCall.reaches (c : KvChain) (call : KvCall) : Option Bool :=
  if c.SMART_CHAIN_SYMBOL="" then some false
  else if keylen call.opretbuf+13 > call.opretbuf.length then some false
  else (hushKvfee (messageFlags call.opretbuf) call.opretbuf.length (keylen call.opretbuf)).map
    fun fee => call.value.toNat≥fee.toNat ∧ sizeFits call.opretbuf

/-- The signature is asked for and does not verify. -/
def refused (c : KvChain) (opretbuf : List Byte) : Option HushKv → Prop
  | none => False
  | some e => e.pubkey≠0 ∧
      c.hushKvsigverify (messageKey opretbuf++e.value) e.pubkey (messageSig opretbuf)<0

instance (c : KvChain) (opretbuf : List Byte) : (o : Option HushKv) →
    Decidable (refused c opretbuf o)
  | none => isFalse id
  | some _ => inferInstanceAs (Decidable (_ ∧ _))

/-- The entry that an accepted update leaves, from the one that the search found;
`flags` is what the search put in that variable. -/
def KvCall.written (call : KvCall) : Option HushKv → HushKv
  | none =>
      {pubkey := messagePubkey call.opretbuf,value := messageValue call.opretbuf,
       height := messageHeight call.opretbuf,flags := 0}
  | some ptr =>
      {pubkey := (transferPubkey (valueptr call.opretbuf++call.beyond)).getD
         (messagePubkey call.opretbuf),
       value := if ptr.flags &&& HUSH_KVPROTECTED=0 then messageValue call.opretbuf
         else ptr.value,
       height := messageHeight call.opretbuf,flags := ptr.flags}

/-- `hush_kvupdate` with the `height` of the message as the current height. -/
def hushKvupdate (c : KvChain) (kv : Store) (call : KvCall) : Option Store :=
  (call.reaches c).map fun reached =>
    if reached then
      let (kv,found) := hushKvsearch kv (messageHeight call.opretbuf) (messageKey call.opretbuf)
      if refused c call.opretbuf found then kv
      else kv.insert (messageKey call.opretbuf) (call.written found)
    else kv

end Zdeex.Kv
