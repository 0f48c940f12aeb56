import Mathlib.Tactic.Common
import Zdeex.Primitives.Serialize
import Zdeex.Cc.Condition

namespace Zdeex.Cc

open Zdeex.Framework
open Zdeex.Script
open Zdeex.Crosschain

def OPRETID_ASSETSDATA : UInt8 := 0x12
def OPRETID_ROGUEGAMEDATA : UInt8 := 0x16
def OPRETID_FIRSTNONCCDATA : UInt8 := 0x80
def EVAL_ROGUE : UInt8 := 0x11

/-- A byte of the source's text. -/
def chr (c : Char) : UInt8 := UInt8.ofNat c.toNat

/-- Additional data with their ids. -/
abbrev Oprets := List (UInt8 × List UInt8)

/-- `E_UNMARSHAL` of script data. -/
def unmarshal8 {α : Type} (read : Reader α) (v : List UInt8) : Option α :=
  unmarshal read (v.map UInt8.toBitVec)

def readUInt8 : Reader UInt8 := do
  return UInt8.ofBitVec (← Reader.byte)

def readVector8 : Reader (List UInt8) := do
  return (← readBytes).map UInt8.ofBitVec

/-- `Unserialize` of a key: what was not read is what lay in memory before. -/
def readPubKey (stray : List UInt8) : Reader CPubKey := do
  let vch ← readVector8
  match vch with
  | [] => return []
  | chHeader::_ =>
      return if vch.length ≤ 65 then (vch++stray.drop vch.length).take (pubKeyLen chHeader) else []

def revuint256 (x : Uint256) : Uint256 := ofBytes 256 (toBytes x).reverse

/-- Rounds of the loop that reads ids and data to the end; an id without data at
the very end is dropped. -/
def opretsLoop : Nat → Reader Oprets
  | 0 => pure []
  | rounds+1 => fun ss =>
      match ss with
      | [] => some ([],[])
      | [_] => some ([],[])
      | opretId::ss => (do
          let vblob ← readVector8
          let rest ← opretsLoop rounds
          return (UInt8.ofBitVec opretId,vblob)::rest) ss

def readOprets : Reader Oprets := fun ss => opretsLoop ss.length ss

/-- The fields of a token creation. -/
structure TokenCreate where
  origpubkey : List UInt8
  name : List UInt8
  description : List UInt8
  oprets : Oprets
  deriving DecidableEq

def readTokenCreate : Reader TokenCreate := do
  let _ ← readUInt8
  let _ ← readUInt8
  let origpubkey ← readVector8
  let name ← readVector8
  let description ← readVector8
  let oprets ← readOprets
  return ⟨origpubkey,name,description,oprets⟩

/-- The data behind OP_RETURN, empty when there are none. -/
def opretData (scriptPubKey : List UInt8) : List UInt8 := (getOpReturnData scriptPubKey).getD []

def decodeTokenCreateOpRet (scriptPubKey : List UInt8) : Option TokenCreate :=
  let vopret := opretData scriptPubKey
  if 2<vopret.length ∧ vopret[0]?=some EVAL_TOKENS ∧ vopret[1]?=some (chr 'c') then
    unmarshal8 readTokenCreate vopret
  else none

/-- What every form of a transfer starts with. -/
structure TransferHead where
  tokenid : Uint256
  ccType : UInt8
  voutPubkey1 : CPubKey
  voutPubkey2 : CPubKey
  deriving DecidableEq

/-- A key that is read only in some types. -/
def readPubKeyIf (stray : List UInt8) (c : Bool) : Reader CPubKey :=
  if c then readPubKey stray else pure []

def readTransferHead (stray : List UInt8) : Reader TransferHead := do
  let _ ← readUInt8
  let _ ← readUInt8
  let tokenid ← Reader.word 256
  let ccType ← readUInt8
  let voutPubkey1 ← readPubKeyIf stray (1 ≤ ccType)
  let voutPubkey2 ← readPubKeyIf stray (ccType=2)
  return ⟨tokenid,ccType,voutPubkey1,voutPubkey2⟩

/-- Data without an id, when the stream is not at its end. -/
def readOldstyleData : Reader (List UInt8) := fun ss =>
  if ss=[] then some ([],[]) else readVector8 ss

/-- The first bytes of game and asset data that were written without an id. -/
def isOldstyle (voldstyledata : List UInt8) : Bool :=
  match voldstyledata with
  | evalcode::funcid::_ =>
      (evalcode==EVAL_ROGUE && ("RHQKG".toList.map chr).contains funcid) ||
      (evalcode==EVAL_ASSETS && ("sbSBxo".toList.map chr).contains funcid)
  | _ => false

structure TokenOpRet where
  funcId : UInt8
  tokenid : Uint256
  voutPubkeys : List CPubKey
  oprets : Oprets
  deriving DecidableEq

/-- The valid keys of the head, in order. -/
def TransferHead.voutPubkeys (head : TransferHead) : List CPubKey :=
  [head.voutPubkey1,head.voutPubkey2].filter (·≠[])

def oldstyleOprets (voldstyledata : List UInt8) : Oprets :=
  [(if voldstyledata[0]?=some EVAL_ROGUE then OPRETID_ROGUEGAMEDATA else OPRETID_ASSETSDATA,
    voldstyledata)]

/-- The data that a head is followed by: old style data first, then data with ids. -/
def decodeTransfer (stray vopret : List UInt8) : Option (TransferHead × Oprets) :=
  let oldstyle := unmarshal8 (do
    let head ← readTransferHead stray
    let voldstyledata ← readOldstyleData
    return (head,voldstyledata)) vopret
  let withIds := unmarshal8 (do
    let head ← readTransferHead stray
    let oprets ← readOprets
    return (head,oprets)) vopret
  match oldstyle with
  | some (head,voldstyledata) =>
      if isOldstyle voldstyledata then some (head,oldstyleOprets voldstyledata) else withIds
  | none => withIds

/-- `DecodeTokenOpRet`; the result 0 is `none`. A creation has no token id here. -/
def decodeTokenOpRet (stray scriptPubKey : List UInt8) : Option TokenOpRet :=
  let vopret := opretData scriptPubKey
  if 2<vopret.length ∧ vopret[0]?=some EVAL_TOKENS then
    if vopret[1]?=some (chr 'c') then
      match decodeTokenCreateOpRet scriptPubKey with
      | none => none
      | some create => some ⟨chr 'c',0,[],create.oprets⟩
    else if vopret[1]?=some (chr 't') then
      match decodeTransfer stray vopret with
      | none => none
      | some (head,oprets) =>
          if head.ccType ≤ 2 then
            some ⟨chr 't',revuint256 head.tokenid,head.voutPubkeys,oprets⟩
          else none
    else none
  else none

/-- The token data of another contract: the first with an id of contract data. -/
def filterOutNonCCOprets (oprets : Oprets) : List UInt8 :=
  match oprets.find? fun o => o.1<OPRETID_FIRSTNONCCDATA with
  | some o => o.2
  | none => []

/-- A creation is told from a transfer by its second byte. -/
theorem decodeTokenOpRet_cases {stray script : List UInt8} {r : TokenOpRet}
    (h : decodeTokenOpRet stray script=some r) :
    (r.funcId=chr 'c' ∧ r.tokenid=0 ∧ (opretData script)[1]?=some (chr 'c') ∧
      ∃create,decodeTokenCreateOpRet script=some create ∧ r.oprets=create.oprets) ∨
    (r.funcId=chr 't' ∧ (opretData script)[1]?=some (chr 't')) := by
  unfold decodeTokenOpRet at h
  dsimp only at h
  split_ifs at h with _ hc ht
  · cases hcreate : decodeTokenCreateOpRet script with
    | none =>
      rw [hcreate] at h
      cases h
    | some create =>
      rw [hcreate] at h
      obtain rfl := Option.some.inj h
      exact .inl ⟨rfl,rfl,hc,create,rfl,rfl⟩
  · cases htransfer : decodeTransfer stray (opretData script) with
    | none =>
      rw [htransfer] at h
      cases h
    | some p =>
      rw [htransfer] at h
      dsimp only at h
      split_ifs at h
      obtain rfl := Option.some.inj h
      exact .inr ⟨rfl,ht⟩

/-- The script of a transfer is not that of a creation. -/
theorem decodeTokenCreateOpRet_transfer {script : List UInt8}
    (h : (opretData script)[1]?=some (chr 't')) : decodeTokenCreateOpRet script=none := by
  unfold decodeTokenCreateOpRet
  dsimp only
  rw [if_neg]
  rintro ⟨-,-,hc⟩
  rw [h] at hc
  exact absurd hc (by decide)

/-- A creation of a token with this name and nothing else. -/
def createScript (name : UInt8) : List UInt8 := [0x6a,6,0xf2,0x63,0,1,name,0]

/-- The same with the key of the creator. -/
def createScriptBy (pk : CPubKey) (name : UInt8) : List UInt8 :=
  [0x6a,39,0xf2,0x63,33]++pk++[1,name,0]

/-- A transfer of the token with a small id. -/
def transferScript (tokenid : UInt8) : List UInt8 :=
  [0x6a,35,0xf2,0x74]++List.replicate 31 0++[tokenid,0]

/-- The same with the key of the receiver. -/
def transferScriptTo (tokenid : UInt8) (pk : CPubKey) : List UInt8 :=
  [0x6a,69,0xf2,0x74]++List.replicate 31 0++[tokenid,1,33]++pk

end Zdeex.Cc
