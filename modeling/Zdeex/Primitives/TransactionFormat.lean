import Zdeex.Primitives.Serialize
import Zdeex.Primitives.Uint256

namespace Zdeex.Wire

open Zdeex.Framework

section Values

/-- A fixed array of bytes, as the number its memory image spells. -/
abbrev Bytes (n : Nat) := BitVec (8*n)

structure CompressedG1 where
  y_lsb : Bool
  x : BitVec 256
  deriving DecidableEq

structure CompressedG2 where
  y_gt : Bool
  x : BitVec 512
  deriving DecidableEq

structure PHGRProof where
  g_A : CompressedG1
  g_A_prime : CompressedG1
  g_B : CompressedG2
  g_B_prime : CompressedG1
  g_C : CompressedG1
  g_C_prime : CompressedG1
  g_K : CompressedG1
  g_H : CompressedG1
  deriving DecidableEq

inductive SproutProof where
  | phgr (proof : PHGRProof)
  | groth (proof : Bytes 192)
  deriving DecidableEq

def SproutProof.isGroth : SproutProof → Bool
  | .phgr _ => false
  | .groth _ => true

structure JSDescription where
  vpub_old : BitVec 64
  vpub_new : BitVec 64
  anchor : Uint256
  nullifiers : Uint256 × Uint256
  commitments : Uint256 × Uint256
  ephemeralKey : Uint256
  randomSeed : Uint256
  macs : Uint256 × Uint256
  proof : SproutProof
  ciphertexts : Bytes 601 × Bytes 601
  deriving DecidableEq

structure SpendDescription where
  cv : Uint256
  anchor : Uint256
  nullifier : Uint256
  rk : Uint256
  zkproof : Bytes 192
  spendAuthSig : Bytes 64
  deriving DecidableEq

structure OutputDescription where
  cv : Uint256
  cm : Uint256
  ephemeralKey : Uint256
  encCiphertext : Bytes 580
  outCiphertext : Bytes 80
  zkproof : Bytes 192
  deriving DecidableEq

structure COutPoint where
  hash : Uint256
  n : BitVec 32
  deriving DecidableEq

structure CTxIn where
  prevout : COutPoint
  scriptSig : List Byte
  nSequence : BitVec 32
  deriving DecidableEq

structure CTxOut where
  nValue : BitVec 64
  scriptPubKey : List Byte
  deriving DecidableEq

structure CMutableTransaction where
  fOverwintered : Bool
  nVersion : BitVec 32
  nVersionGroupId : BitVec 32
  vin : List CTxIn
  vout : List CTxOut
  nLockTime : BitVec 32
  nExpiryHeight : BitVec 32
  valueBalance : BitVec 64
  vShieldedSpend : List SpendDescription
  vShieldedOutput : List OutputDescription
  vjoinsplit : List JSDescription
  joinSplitPubKey : Uint256
  joinSplitSig : Bytes 64
  bindingSig : Bytes 64
  deriving DecidableEq

/-- The fields of a transaction and its hash, which is only kept in memory. -/
structure CTransaction extends CMutableTransaction where
  hash : Uint256
  deriving DecidableEq

/-- The empty constructor. -/
def CMutableTransaction.null : CMutableTransaction :=
  ⟨false,1,0,[],[],0,0,0,[],[],[],0,0,0⟩

end Values

section Parts

def u32 : Codec (BitVec 32) := Codec.word 32 (by decide)

def u64 : Codec (BitVec 64) := Codec.word 64 (by decide)

def u256 : Codec Uint256 := Codec.word 256 (by decide)

def bytes (n : Nat) : Codec (Bytes n) := Codec.word (8*n) (Nat.dvd_mul_right 8 n)

def compactSize : Codec Nat where
  write n := some (writeCompactSize n)
  read := readCompactSize
  Fits n := n≤MAX_SIZE
  reads_write := by
    intro n e hn he
    obtain rfl := Option.some.inj he
    exact reads_compactSize hn
  write_read h := ⟨_,rfl,(readCompactSize_eq_some h).2⟩
  fits_read h := (readCompactSize_eq_some h).1

def vector {α : Type} (A : Codec α) : Codec (List α) := Codec.counted compactSize A

def script : Codec (List Byte) := vector (Codec.word 8 (by decide))

/-- The first byte of a compressed point: a mask whose lowest bit is the sign. -/
def unpackSign (mask leadingByte : Byte) : Option Bool :=
  if leadingByte &&& ~~~1#8=mask then some (leadingByte.getLsbD 0) else none

def packSign (mask : Byte) (sign : Bool) : Byte := if sign then mask ||| 1#8 else mask

def compressedG1 : Codec CompressedG1 :=
  ((Codec.tag (packSign 0x02#8) (unpackSign 0x02#8) (by decide +kernel) (by decide +kernel)).pair
    (Codec.word 256 (by decide))).shaped (fun (y_lsb,x) => ⟨y_lsb,x⟩) (fun p => (p.y_lsb,p.x))
      (fun _ => rfl) (fun _ => rfl)

def compressedG2 : Codec CompressedG2 :=
  ((Codec.tag (packSign 0x0a#8) (unpackSign 0x0a#8) (by decide +kernel) (by decide +kernel)).pair
    (Codec.word 512 (by decide))).shaped (fun (y_gt,x) => ⟨y_gt,x⟩) (fun p => (p.y_gt,p.x))
      (fun _ => rfl) (fun _ => rfl)

def phgrProof : Codec PHGRProof :=
  (compressedG1.pair <| compressedG1.pair <| compressedG2.pair <| compressedG1.pair <|
    compressedG1.pair <| compressedG1.pair <| compressedG1.pair compressedG1).shaped
      (fun (g_A,g_A_prime,g_B,g_B_prime,g_C,g_C_prime,g_K,g_H) =>
        ⟨g_A,g_A_prime,g_B,g_B_prime,g_C,g_C_prime,g_K,g_H⟩)
      (fun p => (p.g_A,p.g_A_prime,p.g_B,p.g_B_prime,p.g_C,p.g_C_prime,p.g_K,p.g_H))
      (fun _ => rfl) (fun _ => rfl)

theorem phgrProof_fits (proof : PHGRProof) : phgrProof.Fits proof := by
  simp [phgrProof,compressedG1,compressedG2]

/-- A proof of the other kind makes the writer throw. -/
def sproutProof (useGroth : Bool) : Codec SproutProof where
  write
    | .phgr proof => if useGroth then none else phgrProof.write proof
    | .groth proof => if useGroth then (bytes 192).write proof else none
  read :=
    if useGroth then do return .groth (← (bytes 192).read)
    else do return .phgr (← phgrProof.read)
  Fits _ := True
  reads_write := by
    intro proof e _ he
    cases proof with
    | phgr proof =>
      cases useGroth with
      | true => cases he
      | false => exact (phgrProof.reads_write (phgrProof_fits proof) he).map SproutProof.phgr
    | groth proof =>
      cases useGroth with
      | true => exact ((bytes 192).reads_write trivial he).map SproutProof.groth
      | false => cases he
  write_read := by
    intro bs proof rest h
    cases useGroth with
    | true =>
      obtain ⟨p,bs',hp,hpure⟩ := Reader.bind_eq_some h
      obtain ⟨rfl,rfl⟩ := Prod.mk.inj (Option.some.inj hpure)
      exact (bytes 192).write_read hp
    | false =>
      obtain ⟨p,bs',hp,hpure⟩ := Reader.bind_eq_some h
      obtain ⟨rfl,rfl⟩ := Prod.mk.inj (Option.some.inj hpure)
      exact phgrProof.write_read hp
  fits_read _ := trivial

/-- The version of the stream is the header of the transaction. -/
def useGroth (header : BitVec 32) : Bool :=
  header.msb && decide (4≤(header &&& 0x7FFFFFFF#32).toNat)

def jsDescription (header : BitVec 32) : Codec JSDescription :=
  (u64.pair <| u64.pair <| u256.pair <| (u256.pair u256).pair <| (u256.pair u256).pair <|
    u256.pair <| u256.pair <| (u256.pair u256).pair <| (sproutProof (useGroth header)).pair
    ((bytes 601).pair (bytes 601))).shaped
      (fun (vpub_old,vpub_new,anchor,nullifiers,commitments,ephemeralKey,randomSeed,macs,proof,
        ciphertexts) => ⟨vpub_old,vpub_new,anchor,nullifiers,commitments,ephemeralKey,randomSeed,
          macs,proof,ciphertexts⟩)
      (fun j => (j.vpub_old,j.vpub_new,j.anchor,j.nullifiers,j.commitments,j.ephemeralKey,
        j.randomSeed,j.macs,j.proof,j.ciphertexts))
      (fun _ => rfl) (fun _ => rfl)

def spendDescription : Codec SpendDescription :=
  (u256.pair <| u256.pair <| u256.pair <| u256.pair <| (bytes 192).pair (bytes 64)).shaped
    (fun (cv,anchor,nullifier,rk,zkproof,spendAuthSig) =>
      ⟨cv,anchor,nullifier,rk,zkproof,spendAuthSig⟩)
    (fun s => (s.cv,s.anchor,s.nullifier,s.rk,s.zkproof,s.spendAuthSig))
    (fun _ => rfl) (fun _ => rfl)

def outputDescription : Codec OutputDescription :=
  (u256.pair <| u256.pair <| u256.pair <| (bytes 580).pair <| (bytes 80).pair (bytes 192)).shaped
    (fun (cv,cm,ephemeralKey,encCiphertext,outCiphertext,zkproof) =>
      ⟨cv,cm,ephemeralKey,encCiphertext,outCiphertext,zkproof⟩)
    (fun o => (o.cv,o.cm,o.ephemeralKey,o.encCiphertext,o.outCiphertext,o.zkproof))
    (fun _ => rfl) (fun _ => rfl)

def outPoint : Codec COutPoint :=
  (u256.pair u32).shaped (fun (hash,n) => ⟨hash,n⟩) (fun o => (o.hash,o.n))
    (fun _ => rfl) (fun _ => rfl)

def txIn : Codec CTxIn :=
  (outPoint.pair <| script.pair u32).shaped
    (fun (prevout,scriptSig,nSequence) => ⟨prevout,scriptSig,nSequence⟩)
    (fun i => (i.prevout,i.scriptSig,i.nSequence)) (fun _ => rfl) (fun _ => rfl)

def txOut : Codec CTxOut :=
  (u64.pair script).shaped (fun (nValue,scriptPubKey) => ⟨nValue,scriptPubKey⟩)
    (fun o => (o.nValue,o.scriptPubKey)) (fun _ => rfl) (fun _ => rfl)

end Parts

section Transaction

def OVERWINTER_VERSION_GROUP_ID : BitVec 32 := 0x03C48270#32

def SAPLING_VERSION_GROUP_ID : BitVec 32 := 0x892F2085#32

def OVERWINTER_TX_VERSION : BitVec 32 := 3#32

def SAPLING_TX_VERSION : BitVec 32 := 4#32

def getHeader (fOverwintered : Bool) (nVersion : BitVec 32) : BitVec 32 :=
  if fOverwintered then nVersion ||| 1#32 <<< 31 else nVersion

theorem and_mask_toNat (header : BitVec 32) :
    (header &&& 0x7FFFFFFF#32).toNat=header.toNat%2^31 := by
  rw [BitVec.toNat_and]
  exact Nat.and_two_pow_sub_one_eq_mod header.toNat 31

theorem getHeader_toNat {nVersion : BitVec 32} (h : nVersion.msb=false) (f : Bool) :
    (getHeader f nVersion).toNat=nVersion.toNat+if f then 2^31 else 0 := by
  have hlt : nVersion.toNat<2^31 := by
    rw [BitVec.msb_eq_false_iff_two_mul_lt] at h
    omega
  cases f with
  | false => rfl
  | true =>
    have hbit : (1#32 <<< 31).toNat=2^31*1 := by decide
    rw [getHeader,if_pos rfl,if_pos rfl,BitVec.toNat_or,hbit,Nat.or_comm,
      ← Nat.two_pow_add_eq_or_of_lt hlt]
    omega

theorem msb_eq_decide (header : BitVec 32) : header.msb=decide (2^31≤header.toNat) :=
  BitVec.msb_eq_decide header

theorem getHeader_unpack (header : BitVec 32) :
    getHeader header.msb (header &&& 0x7FFFFFFF#32)=header := by
  have hmask := and_mask_toNat header
  have hlt : header.toNat<2^32 := header.isLt
  have hmsb : (header &&& 0x7FFFFFFF#32).msb=false := by
    rw [msb_eq_decide,hmask,decide_eq_false_iff_not]
    omega
  apply BitVec.eq_of_toNat_eq
  rw [getHeader_toNat hmsb,hmask,msb_eq_decide]
  by_cases h : 2^31≤header.toNat
  · rw [decide_eq_true h,if_pos rfl]
    omega
  · rw [decide_eq_false h,if_neg (by decide)]
    omega

theorem unpack_getHeader {nVersion : BitVec 32} (h : nVersion.msb=false) (f : Bool) :
    (getHeader f nVersion).msb=f ∧ getHeader f nVersion &&& 0x7FFFFFFF#32=nVersion := by
  have hnat := getHeader_toNat h f
  have hlt : nVersion.toNat<2^31 := by
    rw [BitVec.msb_eq_false_iff_two_mul_lt] at h
    omega
  constructor
  · rw [msb_eq_decide,hnat]
    cases f with
    | false => simpa using hlt
    | true => simp
  · apply BitVec.eq_of_toNat_eq
    rw [and_mask_toNat,hnat]
    cases f <;> simp <;> omega

/-- The header holds the version and, in its highest bit, the overwinter flag. -/
def versionHeader : Codec (Bool × BitVec 32) where
  write p := some (toBytes (getHeader p.1 p.2))
  read := do
    let header ← u32.read
    return (header.msb,header &&& 0x7FFFFFFF#32)
  Fits p := p.2.msb=false
  reads_write := by
    rintro ⟨f,v⟩ e hv he
    obtain rfl := Option.some.inj he
    obtain ⟨hflag,hversion⟩ := unpack_getHeader hv f
    have hmap := (u32.reads_write (a := getHeader f v) trivial rfl).map
      fun header => (header.msb,header &&& 0x7FFFFFFF#32)
    rwa [hflag,hversion] at hmap
  write_read := by
    intro bs p rest h
    obtain ⟨header,bs',hheader,hpure⟩ := Reader.bind_eq_some h
    obtain ⟨rfl,rfl⟩ := Prod.mk.inj (Option.some.inj hpure)
    dsimp only
    rw [getHeader_unpack]
    exact u32.write_read hheader
  fits_read := by
    intro bs p rest h
    obtain ⟨header,bs',hheader,hpure⟩ := Reader.bind_eq_some h
    obtain ⟨rfl,rfl⟩ := Prod.mk.inj (Option.some.inj hpure)
    dsimp only
    rw [msb_eq_decide,and_mask_toNat,decide_eq_false_iff_not]
    omega

def isOverwinterV3 (fOverwintered : Bool) (nVersionGroupId nVersion : BitVec 32) : Bool :=
  fOverwintered && nVersionGroupId==OVERWINTER_VERSION_GROUP_ID && nVersion==OVERWINTER_TX_VERSION

def isSaplingV4 (fOverwintered : Bool) (nVersionGroupId nVersion : BitVec 32) : Bool :=
  fOverwintered && nVersionGroupId==SAPLING_VERSION_GROUP_ID && nVersion==SAPLING_TX_VERSION

/-- From the shielded parts on; `v4` says whether the format has the Sapling fields. -/
def shieldedOp (d : CMutableTransaction) (fOverwintered : Bool) (nVersion : BitVec 32) (v4 : Bool) :
    Codec (List SpendDescription × List OutputDescription × List JSDescription ×
      (Uint256 × Bytes 64) × Bytes 64) :=
  (Codec.when v4 (vector spendDescription) d.vShieldedSpend).andThen fun vShieldedSpend =>
  (Codec.when v4 (vector outputDescription) d.vShieldedOutput).andThen fun vShieldedOutput =>
  (Codec.when (2≤nVersion.toInt) (vector (jsDescription (getHeader fOverwintered nVersion)))
    d.vjoinsplit).andThen fun vjoinsplit =>
  (Codec.when (2≤nVersion.toInt && !vjoinsplit.isEmpty) (u256.pair (bytes 64))
    (d.joinSplitPubKey,d.joinSplitSig)).pair <|
  Codec.when (v4 && !(vShieldedSpend.isEmpty && vShieldedOutput.isEmpty)) (bytes 64) d.bindingSig

/-- What follows the version group; an unknown format throws. -/
def bodyOp (d : CMutableTransaction) (fOverwintered : Bool) (nVersion : BitVec 32) (v3 v4 : Bool) :
    Codec (Unit × List CTxIn × List CTxOut × BitVec 32 × BitVec 32 × BitVec 64 ×
      List SpendDescription × List OutputDescription × List JSDescription ×
      (Uint256 × Bytes 64) × Bytes 64) :=
  (Codec.require (!(fOverwintered && !(v3 || v4)))).pair <|
  (vector txIn).pair <| (vector txOut).pair <| u32.pair <|
  (Codec.when (v3 || v4) u32 d.nExpiryHeight).pair <| (Codec.when v4 u64 d.valueBalance).pair <|
  shieldedOp d fOverwintered nVersion v4

/-- The body that both classes have, into an object that holds `d` so far. -/
def serializationOp (d : CMutableTransaction) : Codec CMutableTransaction :=
  (versionHeader.andThen fun h =>
    (Codec.when h.1 u32 d.nVersionGroupId).andThen fun nVersionGroupId =>
    bodyOp d h.1 h.2 (isOverwinterV3 h.1 nVersionGroupId h.2)
      (isSaplingV4 h.1 nVersionGroupId h.2)).shaped
  (fun ((fOverwintered,nVersion),nVersionGroupId,_,vin,vout,nLockTime,nExpiryHeight,valueBalance,
      vShieldedSpend,vShieldedOutput,vjoinsplit,(joinSplitPubKey,joinSplitSig),bindingSig) =>
    ⟨fOverwintered,nVersion,nVersionGroupId,vin,vout,nLockTime,nExpiryHeight,valueBalance,
      vShieldedSpend,vShieldedOutput,vjoinsplit,joinSplitPubKey,joinSplitSig,bindingSig⟩)
  (fun t => ((t.fOverwintered,t.nVersion),t.nVersionGroupId,(),t.vin,t.vout,t.nLockTime,
    t.nExpiryHeight,t.valueBalance,t.vShieldedSpend,t.vShieldedOutput,t.vjoinsplit,
    (t.joinSplitPubKey,t.joinSplitSig),t.bindingSig))
  (fun _ => rfl) (fun _ => rfl)

namespace CMutableTransaction

def serialize (tx : CMutableTransaction) : Option (List Byte) := (serializationOp null).write tx

def unserialize (tx : CMutableTransaction) : Reader CMutableTransaction := (serializationOp tx).read

end CMutableTransaction

namespace CTransaction

variable (serializeHash : List Byte → Uint256)

def serialize (tx : CTransaction) : Option (List Byte) :=
  (serializationOp .null).write tx.toCMutableTransaction

/-- `UpdateHash` at the end writes the transaction once more. -/
def unserialize (tx : CTransaction) : Reader CTransaction := do
  let fields ← (serializationOp tx.toCMutableTransaction).read
  match (serializationOp .null).write fields with
  | none => Reader.fail
  | some e => return ⟨fields,serializeHash e⟩

/-- The empty constructor; its hash is not computed. -/
def null : CTransaction := ⟨.null,0⟩

end CTransaction

/-- What is written does not depend on the object that was read into. -/
theorem write_eq (d d' : CMutableTransaction) :
    (serializationOp d).write=(serializationOp d').write := by
  have hshielded : ∀f v v4,(shieldedOp d f v v4).write=(shieldedOp d' f v v4).write := by
    intro f v v4
    refine Codec.write_andThen (Codec.write_when ..) fun vShieldedSpend => ?_
    refine Codec.write_andThen (Codec.write_when ..) fun vShieldedOutput => ?_
    refine Codec.write_andThen (Codec.write_when ..) fun vjoinsplit => ?_
    exact Codec.write_andThen (Codec.write_when ..) fun _ => Codec.write_when ..
  have hbody : ∀f v v3 v4,(bodyOp d f v v3 v4).write=(bodyOp d' f v v3 v4).write := by
    intro f v v3 v4
    iterate 4 refine Codec.write_andThen rfl fun _ => ?_
    iterate 2 refine Codec.write_andThen (Codec.write_when ..) fun _ => ?_
    exact hshielded f v v4
  refine Codec.write_shaped (Codec.write_andThen rfl fun h => ?_)
  exact Codec.write_andThen (Codec.write_when ..) fun nVersionGroupId => hbody ..

end Transaction

section Lossless

@[simp] theorem fits_compactSize (n : Nat) : compactSize.Fits n ↔ n≤MAX_SIZE := Iff.rfl

@[simp] theorem fits_vector {α : Type} (A : Codec α) (as : List α) :
    (vector A).Fits as ↔ as.length≤MAX_SIZE ∧ ∀a∈as,A.Fits a := Iff.rfl

@[simp] theorem fits_u32 (x : BitVec 32) : u32.Fits x := trivial

@[simp] theorem fits_u64 (x : BitVec 64) : u64.Fits x := trivial

@[simp] theorem fits_u256 (x : Uint256) : u256.Fits x := trivial

@[simp] theorem fits_bytes {n : Nat} (x : Bytes n) : (bytes n).Fits x := trivial

@[simp] theorem fits_txIn (i : CTxIn) : txIn.Fits i ↔ i.scriptSig.length≤MAX_SIZE := by
  simp [txIn,outPoint,script]

@[simp] theorem fits_txOut (o : CTxOut) : txOut.Fits o ↔ o.scriptPubKey.length≤MAX_SIZE := by
  simp [txOut,script]

@[simp] theorem fits_spendDescription (s : SpendDescription) : spendDescription.Fits s := by
  simp [spendDescription]

@[simp] theorem fits_outputDescription (o : OutputDescription) : outputDescription.Fits o := by
  simp [outputDescription]

@[simp] theorem fits_sproutProof (g : Bool) (p : SproutProof) : (sproutProof g).Fits p := trivial

@[simp] theorem fits_jsDescription (header : BitVec 32) (j : JSDescription) :
    (jsDescription header).Fits j := by
  simp [jsDescription]

@[simp] theorem fits_versionHeader (p : Bool × BitVec 32) : versionHeader.Fits p ↔ p.2.msb=false :=
  Iff.rfl

namespace CMutableTransaction

variable (tx : CMutableTransaction)

def v3 : Bool := isOverwinterV3 tx.fOverwintered tx.nVersionGroupId tx.nVersion

def v4 : Bool := isSaplingV4 tx.fOverwintered tx.nVersionGroupId tx.nVersion

/-- The formats that the code knows: a version without the flag, or one of two groups. -/
def KnownFormat : Prop := (tx.fOverwintered=false ∧ tx.nVersion.msb=false) ∨ tx.v3=true ∨ tx.v4=true

/-- Fields that the format does not have are as the constructor leaves them. -/
structure DefaultsOutside : Prop where
  group : tx.fOverwintered=false → tx.nVersionGroupId=0
  expiry : (tx.v3 || tx.v4)=false → tx.nExpiryHeight=0
  sapling : tx.v4=false → tx.valueBalance=0 ∧ tx.vShieldedSpend=[] ∧ tx.vShieldedOutput=[]
  joinsplits : tx.nVersion.toInt<2 → tx.vjoinsplit=[]
  joinSplitKeys : tx.nVersion.toInt<2 ∨ tx.vjoinsplit=[] →
    tx.joinSplitPubKey=0 ∧ tx.joinSplitSig=0
  binding : tx.v4=false ∨ (tx.vShieldedSpend=[] ∧ tx.vShieldedOutput=[]) → tx.bindingSig=0

/-- No vector and no script is longer than `ReadCompactSize` lets through. -/
structure Sized : Prop where
  vin : tx.vin.length≤MAX_SIZE ∧ ∀i∈tx.vin,i.scriptSig.length≤MAX_SIZE
  vout : tx.vout.length≤MAX_SIZE ∧ ∀o∈tx.vout,o.scriptPubKey.length≤MAX_SIZE
  vShieldedSpend : tx.vShieldedSpend.length≤MAX_SIZE
  vShieldedOutput : tx.vShieldedOutput.length≤MAX_SIZE
  vjoinsplit : tx.vjoinsplit.length≤MAX_SIZE

theorem fits_iff : (serializationOp null).Fits tx ↔
    tx.nVersion.msb=false ∧ tx.DefaultsOutside ∧ tx.Sized := by
  have h3 : isOverwinterV3 tx.fOverwintered tx.nVersionGroupId tx.nVersion=tx.v3 := rfl
  have h4 : isSaplingV4 tx.fOverwintered tx.nVersionGroupId tx.nVersion=tx.v4 := rfl
  have hkeys : (decide (2≤tx.nVersion.toInt) && !tx.vjoinsplit.isEmpty)=false ↔
      tx.nVersion.toInt<2 ∨ tx.vjoinsplit=[] := by
    rw [Bool.and_eq_false_iff]
    simp
  have hbinding : (tx.v4 && !(tx.vShieldedSpend.isEmpty && tx.vShieldedOutput.isEmpty))=false ↔
      tx.v4=false ∨ (tx.vShieldedSpend=[] ∧ tx.vShieldedOutput=[]) := by
    rw [Bool.and_eq_false_iff]
    simp
  simp only [serializationOp,bodyOp,shieldedOp,Codec.fits_shaped,Codec.fits_andThen,
    Codec.fits_pair,Codec.fits_when,Codec.fits_require,fits_versionHeader,fits_vector,fits_txIn,
    fits_txOut,fits_u32,fits_u64,fits_u256,fits_bytes,fits_spendDescription,
    fits_outputDescription,fits_jsDescription,h3,h4,hkeys,hbinding,null,implies_true,and_true,
    true_and,decide_eq_true_eq,decide_eq_false_iff_not,not_le,Prod.mk.injEq]
  constructor
  · rintro ⟨hmsb,hgroup,hvin,hvout,hexpiry,hvalue,⟨hspend,hspend'⟩,⟨houtput,houtput'⟩,
      ⟨hjs,hjs'⟩,hkey,hbind⟩
    refine ⟨hmsb,⟨hgroup,hexpiry,fun h => ⟨hvalue h,hspend' h,houtput' h⟩,hjs',hkey,hbind⟩,
      hvin,hvout,?_,?_,?_⟩
    · cases h : tx.v4 with
      | true => exact hspend h
      | false => simp [hspend' h]
    · cases h : tx.v4 with
      | true => exact houtput h
      | false => simp [houtput' h]
    · by_cases h : 2≤tx.nVersion.toInt
      · exact hjs h
      · simp [hjs' (by omega)]
  · rintro ⟨hmsb,⟨hgroup,hexpiry,hsapling,hjs,hkey,hbind⟩,hvin,hvout,hspend,houtput,hsplit⟩
    exact ⟨hmsb,hgroup,hvin,hvout,hexpiry,fun h => (hsapling h).1,
      ⟨fun _ => hspend,fun h => (hsapling h).2.1⟩,⟨fun _ => houtput,fun h => (hsapling h).2.2⟩,
      ⟨fun _ => hsplit,hjs⟩,hkey,hbind⟩

/-- The proofs are of the kind that the format has. -/
def ProofKinds : Prop := 2≤tx.nVersion.toInt →
  ∀j∈tx.vjoinsplit,j.proof.isGroth=useGroth (getHeader tx.fOverwintered tx.nVersion)

end CMutableTransaction

section Writes

@[simp] theorem isSome_u32 (x : BitVec 32) : (u32.write x).isSome=true := rfl

@[simp] theorem isSome_u64 (x : BitVec 64) : (u64.write x).isSome=true := rfl

@[simp] theorem isSome_u256 (x : Uint256) : (u256.write x).isSome=true := rfl

@[simp] theorem isSome_bytes {n : Nat} (x : Bytes n) : ((bytes n).write x).isSome=true := rfl

@[simp] theorem isSome_compactSize (n : Nat) : (compactSize.write n).isSome=true := rfl

@[simp] theorem isSome_versionHeader (p : Bool × BitVec 32) :
    (versionHeader.write p).isSome=true := rfl

@[simp] theorem isSome_vector {α : Type} (A : Codec α) (as : List α) :
    ((vector A).write as).isSome=as.all fun a => (A.write a).isSome := by
  simp [vector]

@[simp] theorem isSome_txIn (i : CTxIn) : (txIn.write i).isSome=true := by
  simp [txIn,outPoint,script]

@[simp] theorem isSome_txOut (o : CTxOut) : (txOut.write o).isSome=true := by
  simp [txOut,script]

@[simp] theorem isSome_spendDescription (s : SpendDescription) :
    (spendDescription.write s).isSome=true := by
  simp [spendDescription]

@[simp] theorem isSome_outputDescription (o : OutputDescription) :
    (outputDescription.write o).isSome=true := by
  simp [outputDescription]

@[simp] theorem isSome_sproutProof (g : Bool) (p : SproutProof) :
    ((sproutProof g).write p).isSome=(p.isGroth==g) := by
  cases p with
  | phgr p => cases g <;> simp [sproutProof,SproutProof.isGroth,phgrProof,compressedG1,compressedG2]
  | groth p => cases g <;> simp [sproutProof,SproutProof.isGroth]

@[simp] theorem isSome_jsDescription (header : BitVec 32) (j : JSDescription) :
    ((jsDescription header).write j).isSome=(j.proof.isGroth==useGroth header) := by
  simp [jsDescription]

/-- A known format is written unless a proof is of the wrong kind. -/
theorem isSome_serialize_iff {tx : CMutableTransaction} (h : tx.KnownFormat) :
    tx.serialize.isSome=true ↔ tx.ProofKinds := by
  have h3 : isOverwinterV3 tx.fOverwintered tx.nVersionGroupId tx.nVersion=tx.v3 := rfl
  have h4 : isSaplingV4 tx.fOverwintered tx.nVersionGroupId tx.nVersion=tx.v4 := rfl
  have hknown : (!(tx.fOverwintered && !(tx.v3 || tx.v4)))=true := by
    rcases h with ⟨hflag,-⟩ | hv | hv <;> simp_all
  simp only [CMutableTransaction.serialize,CMutableTransaction.ProofKinds,serializationOp,bodyOp,
    shieldedOp,Codec.isSome_shaped,Codec.isSome_andThen,Codec.isSome_pair,Codec.isSome_when,
    Codec.isSome_require,h3,h4,hknown,isSome_versionHeader,isSome_vector,isSome_txIn,isSome_txOut,
    isSome_u32,isSome_u64,isSome_u256,isSome_bytes,isSome_spendDescription,
    isSome_outputDescription,isSome_jsDescription,Bool.and_true,Bool.or_true,Bool.true_and]
  rw [imp_iff_not_or,not_le]
  simp

end Writes

section Hashed

variable (serializeHash : List Byte → Uint256)

theorem CMutableTransaction.KnownFormat.version {tx : CMutableTransaction} (h : tx.KnownFormat) :
    tx.nVersion.msb=false := by
  rcases h with ⟨-,hmsb⟩ | hv | hv
  · exact hmsb
  · simp only [CMutableTransaction.v3,isOverwinterV3,Bool.and_eq_true,beq_iff_eq] at hv
    rw [hv.2]
    decide
  · simp only [CMutableTransaction.v4,isSaplingV4,Bool.and_eq_true,beq_iff_eq] at hv
    rw [hv.2]
    decide

/-- The fields come from the body, and the hash from the bytes that were taken. -/
theorem unserialize_eq_some {d tx : CTransaction} {bs rest : List Byte}
    (h : CTransaction.unserialize serializeHash d bs=some (tx,rest)) :
    (serializationOp d.toCMutableTransaction).read bs=some (tx.toCMutableTransaction,rest) ∧
      ∃e,tx.serialize=some e ∧ bs=e++rest ∧ tx.hash=serializeHash e := by
  obtain ⟨fields,bs',hread,hhash⟩ := Reader.bind_eq_some h
  obtain ⟨e,he,hbs⟩ := (serializationOp d.toCMutableTransaction).write_read hread
  rw [write_eq _ .null] at he
  rw [he] at hhash
  obtain ⟨rfl,rfl⟩ := Prod.mk.inj (Option.some.inj hhash)
  exact ⟨hread,e,he,hbs,rfl⟩

theorem unserialize_of_read {d : CTransaction} {fields : CMutableTransaction}
    {bs rest e : List Byte} (h : (serializationOp d.toCMutableTransaction).read bs=some (fields,rest))
    (he : fields.serialize=some e) :
    CTransaction.unserialize serializeHash d bs=some (⟨fields,serializeHash e⟩,rest) := by
  have hwrite : (serializationOp .null).write fields=some e := he
  change ((serializationOp d.toCMutableTransaction).read bs).bind _=_
  rw [h,Option.bind_some]
  dsimp only
  rw [hwrite]
  rfl

theorem wire_lossless :
    (∀(d tx : CTransaction) (bs rest : List Byte),
      CTransaction.unserialize serializeHash d bs=some (tx,rest) →
        ∃e,tx.serialize=some e ∧ bs=e++rest ∧ tx.hash=serializeHash e) ∧
    (∀(tx : CTransaction) (e : List Byte),tx.KnownFormat → tx.DefaultsOutside → tx.Sized →
      tx.serialize=some e → tx.hash=serializeHash e →
        Reads (CTransaction.unserialize serializeHash .null) e tx) ∧
    (∀tx : CTransaction,tx.KnownFormat → (tx.serialize.isSome=true ↔ tx.ProofKinds)) ∧
    (∀tx : CTransaction,tx.serialize=tx.toCMutableTransaction.serialize) ∧
    ∀(d : CTransaction) (bs : List Byte),
      (CTransaction.unserialize serializeHash d bs).map
        (fun p => (p.1.toCMutableTransaction,p.2))=d.toCMutableTransaction.unserialize bs := by
  refine ⟨fun d tx bs rest h => (unserialize_eq_some serializeHash h).2,?_,
    fun tx h => isSome_serialize_iff h,fun _ => rfl,?_⟩
  · intro tx e hknown hdefaults hsized he hhash rest
    have hfits := tx.fits_iff.mpr ⟨hknown.version,hdefaults,hsized⟩
    have hread := (serializationOp .null).reads_write hfits he rest
    have hall := unserialize_of_read serializeHash (d := .null) hread he
    rw [hall,← hhash]
  · intro d bs
    cases hread : (serializationOp d.toCMutableTransaction).read bs with
    | none =>
      have hnone : CTransaction.unserialize serializeHash d bs=none := by
        change ((serializationOp d.toCMutableTransaction).read bs).bind _=_
        rw [hread]
        rfl
      rw [hnone,CMutableTransaction.unserialize,hread]
      rfl
    | some p =>
      obtain ⟨fields,rest⟩ := p
      obtain ⟨e,he,-⟩ := (serializationOp d.toCMutableTransaction).write_read hread
      rw [write_eq _ .null] at he
      rw [unserialize_of_read serializeHash hread he,CMutableTransaction.unserialize,hread]
      rfl

end Hashed

/-- The deserialising constructor: it goes through the constructor from a temporary
`CMutableTransaction`, which does not take over `bindingSig`. -/
def CTransaction.deserialize (serializeHash : List Byte → Uint256) : Reader CTransaction := do
  let tx ← CMutableTransaction.unserialize .null
  match CMutableTransaction.serialize {tx with bindingSig := 0} with
  | none => Reader.fail
  | some e => return ⟨{tx with bindingSig := 0},serializeHash e⟩

theorem deserialize_eq_iff {serializeHash : List Byte → Uint256} {bs rest : List Byte}
    {tx : CTransaction} (h : CTransaction.unserialize serializeHash .null bs=some (tx,rest)) :
    CTransaction.deserialize serializeHash bs=some (tx,rest) ↔ tx.bindingSig=0 := by
  obtain ⟨hread,e,he,-,hhash⟩ := unserialize_eq_some serializeHash h
  constructor
  · intro hmoved
    obtain ⟨fields,bs',-,htail⟩ := Reader.bind_eq_some hmoved
    cases hwrite : CMutableTransaction.serialize {fields with bindingSig := 0} with
    | none =>
      rw [hwrite] at htail
      cases htail
    | some e' =>
      rw [hwrite] at htail
      obtain ⟨rfl,-⟩ := Prod.mk.inj (Option.some.inj htail)
      rfl
  · intro hzero
    have hsame : {tx.toCMutableTransaction with bindingSig := 0}=tx.toCMutableTransaction := by
      rw [← hzero]
    have hserialize : tx.toCMutableTransaction.serialize=some e := he
    change (CMutableTransaction.unserialize .null bs).bind _=_
    rw [CMutableTransaction.unserialize]
    have hread' : (serializationOp .null).read bs=some (tx.toCMutableTransaction,rest) := hread
    rw [hread',Option.bind_some]
    dsimp only
    rw [hsame,hserialize]
    change some ((⟨tx.toCMutableTransaction,serializeHash e⟩ : CTransaction),rest)=some (tx,rest)
    rw [← hhash]

/-- A Sapling transaction with one output. -/
def saplingExample : CTransaction :=
  ⟨⟨true,4#32,SAPLING_VERSION_GROUP_ID,[],[⟨5#64,[0x51#8]⟩],7#32,9#32,0,[],[],[],0,0,0⟩,0⟩

def saplingExampleBytes : List Byte :=
  [4,0,0,0x80,0x85,0x20,0x2F,0x89,0,1,5,0,0,0,0,0,0,0,1,0x51,7,0,0,0,9,0,0,0,0,0,0,0,0,0,0,0,0,0,0]

theorem sapling_example_lossless :
    saplingExample.serialize=some saplingExampleBytes ∧
    Reads (CTransaction.unserialize (fun _ => 0) .null) saplingExampleBytes saplingExample := by
  have hbytes : saplingExample.serialize=some saplingExampleBytes := by decide +kernel
  have hv4 : saplingExample.v4=true := by decide
  refine ⟨hbytes,(wire_lossless fun _ => 0).2.1 saplingExample saplingExampleBytes
    (.inr (.inr hv4)) ?_ ?_ hbytes rfl⟩
  · exact ⟨by decide,by simp [hv4],by simp [hv4],fun _ => rfl,fun _ => ⟨rfl,rfl⟩,fun _ => rfl⟩
  · exact ⟨by decide,by decide,by decide,by decide,by decide⟩

/-- A script one byte longer than `ReadCompactSize` lets through. -/
def oversized : CTransaction :=
  ⟨{CMutableTransaction.null with vout := [⟨0,List.replicate (MAX_SIZE+1) 0⟩]},0⟩

theorem oversized_not_read :
    ¬∀(serializeHash : List Byte → Uint256) (tx : CTransaction) (e : List Byte),
      tx.KnownFormat → tx.DefaultsOutside → tx.serialize=some e → tx.hash=serializeHash e →
        Reads (CTransaction.unserialize serializeHash .null) e tx := by
  intro hall
  have hknown : oversized.KnownFormat := .inl ⟨rfl,by decide⟩
  have hdefaults : oversized.DefaultsOutside :=
    ⟨fun _ => rfl,fun _ => rfl,fun _ => ⟨rfl,rfl,rfl⟩,fun _ => rfl,fun _ => ⟨rfl,rfl⟩,fun _ => rfl⟩
  have hsome : oversized.serialize.isSome=true := by
    apply (isSome_serialize_iff hknown).mpr
    intro _ j hj
    cases hj
  obtain ⟨e,he⟩ := Option.isSome_iff_exists.mp hsome
  have hread := hall (fun _ => 0) oversized e hknown hdefaults he rfl []
  have hfits := (serializationOp .null).fits_read (unserialize_eq_some (fun _ => 0) hread).1
  have hlong := (oversized.fits_iff.mp hfits).2.2.vout.2 _ (List.mem_singleton.mpr rfl)
  rw [List.length_replicate] at hlong
  omega

end Lossless

end Zdeex.Wire
