import Mathlib.Tactic.Common
import Zdeex.Crosschain.CheckMigration

namespace Zdeex.Cc

open Zdeex.Coins
open Zdeex.Block
open Zdeex.Script
open Zdeex.Crosschain

def EVAL_IMPORTPAYOUT : UInt8 := 0xe1
def EVAL_ASSETS : UInt8 := 0xe3
def EVAL_FAUCET : UInt8 := 0xe4
def EVAL_REWARDS : UInt8 := 0xe5

def OP_DROP : Nat := 0x75
def OP_CHECKCRYPTOCONDITION : Nat := 0xcc

/-- A C++ string. -/
def textOf (bytes : List UInt8) : String := String.ofList (bytes.map fun b => Char.ofNat b.toNat)

/-- The bytes of a public key; an invalid key has none. -/
abbrev CPubKey := List UInt8

/-- `GetLen`, by the first byte. -/
def pubKeyLen (chHeader : UInt8) : Nat :=
  if chHeader=2 ∨ chHeader=3 then 33
  else if chHeader=4 ∨ chHeader=6 ∨ chHeader=7 then 65
  else 0

def pubkey2pk : List UInt8 → CPubKey
  | [] => []
  | chHeader::vch =>
      if pubKeyLen chHeader=vch.length+1 then chHeader::vch else []

/-- A crypto-condition. -/
inductive CC where
  | eval (code : List UInt8)
  | secp256k1 (publicKey : List UInt8)
  | threshold (n : Nat) (subconditions : List CC)
  | prefixed (subcondition : CC)
  | leaf

mutual

/-- The nodes in the order of `cc_visit`. -/
def CC.nodes : CC → List CC
  | .eval code => [.eval code]
  | .secp256k1 publicKey => [.secp256k1 publicKey]
  | .threshold n subconditions => .threshold n subconditions::CC.childNodes subconditions
  | .prefixed subcondition => .prefixed subcondition::CC.nodes subcondition
  | .leaf => [.leaf]

def CC.childNodes : List CC → List CC
  | [] => []
  | c::cs => CC.nodes c++CC.childNodes cs

end

def CC.isEval (evalcode : UInt8) : CC → Bool
  | .eval code => code==[evalcode]
  | _ => false

def CC.publicKey? : CC → Option (List UInt8)
  | .secp256k1 publicKey => some publicKey
  | _ => none

/-- What the contracts read of the node, and the code they use to read keys,
conditions and addresses. The last two fields are what lies in memory where an
access goes past the end of a vector. -/
structure World where
  getTransaction : Uint256 → Option (CTransaction × Uint256)
  readFulfillment : List UInt8 → Option CC
  ccPubKey : CC → List UInt8
  unspendablePk : UInt8 → CPubKey
  unspendableCCaddr : UInt8 → String
  getScriptAddress : List UInt8 → Option String
  solves : List UInt8 → CPubKey → Bool
  burnPk : CPubKey
  strayPk : CPubKey
  strayOut : CTxOut

/-- The loop of `GetBalancedData`; every round takes at least one byte. -/
def balancedLoop : Nat → Nat → List UInt8 → Bool
  | _,netPushes,[] => netPushes==0
  | 0,_,_ => false
  | rounds+1,netPushes,pc =>
      match getOp pc with
      | none => false
      | some (opcode,data,pc) =>
          if opcode=OP_DROP then
            match netPushes with
            | 0 => false
            | netPushes+1 => balancedLoop rounds netPushes pc
          else if opcode=0 ∨ (0x51 ≤ opcode ∧ opcode ≤ 0x60) ∨
              (opcode ≤ OP_PUSHDATA4 ∧ data≠[]) then balancedLoop rounds (netPushes+1) pc
          else false

def getBalancedData (pc : List UInt8) : Bool := balancedLoop pc.length 0 pc

def isPayToCryptoCondition (script : List UInt8) : Bool :=
  match getOp script with
  | none => false
  | some (opcode,_,pc) =>
      if 0<opcode ∧ opcode<OP_PUSHDATA1 then
        match getOp pc with
        | none => false
        | some (opcode,_,pc) => opcode==OP_CHECKCRYPTOCONDITION && getBalancedData pc
      else false

/-- Little-endian length of a push. -/
def lengthBytes (width n : Nat) : List UInt8 := (Framework.bytesOf width n).map UInt8.ofBitVec

/-- What `<<` adds to a script for a vector. -/
def pushData (b : List UInt8) : List UInt8 :=
  (if b.length<OP_PUSHDATA1 then lengthBytes 1 b.length
  else if b.length ≤ 0xff then UInt8.ofNat OP_PUSHDATA1::lengthBytes 1 b.length
  else if b.length ≤ 0xffff then UInt8.ofNat OP_PUSHDATA2::lengthBytes 2 b.length
  else UInt8.ofNat OP_PUSHDATA4::lengthBytes 4 b.length)++b

/-- The threshold of a signature. -/
def sigCond (pks : List CPubKey) : CC := .threshold 1 (pks.map .secp256k1)

def makeCCcond1 (evalcode : UInt8) (pk : CPubKey) : CC :=
  .threshold 2 [.eval [evalcode],sigCond [pk]]

/-- The codes of a token condition; the codes of tokens and of nothing are not
written twice. -/
def tokensEvals (evalcode evalcode2 : UInt8) : List CC :=
  .eval [evalcode]::
    ((if evalcode≠EVAL_TOKENS then [.eval [EVAL_TOKENS]] else [])++
      (if evalcode2≠0 then [.eval [evalcode2]] else []))

def makeTokensCond (evalcode evalcode2 : UInt8) (pks : List CPubKey) : CC :=
  let thresholds := tokensEvals evalcode evalcode2++[sigCond pks]
  .threshold thresholds.length thresholds

def makeTokensCCcond1 (evalcode evalcode2 : UInt8) (pk : CPubKey) : CC :=
  makeTokensCond evalcode evalcode2 [pk]

def makeTokensCCcond1of2 (evalcode evalcode2 : UInt8) (pk1 pk2 : CPubKey) : CC :=
  makeTokensCond evalcode evalcode2 [pk1,pk2]

namespace World

variable (W : World)

def getCryptoCondition (scriptSig : List UInt8) : Option CC :=
  match getOp scriptSig with
  | none => none
  | some (_,ffbin,_) => W.readFulfillment ffbin.dropLast

def isCCInput (scriptSig : List UInt8) : Bool := (W.getCryptoCondition scriptSig).isSome

/-- The `ismyvin` of the contract with this code. -/
def ismyvin (evalcode : UInt8) (scriptSig : List UInt8) : Bool :=
  match W.getCryptoCondition scriptSig with
  | none => false
  | some cond => cond.nodes.any (CC.isEval evalcode)

def makeCC1vout (evalcode : UInt8) (nValue : Int) (pk : CPubKey) : CTxOut :=
  ⟨nValue,W.ccPubKey (makeCCcond1 evalcode pk)⟩

def makeTokensCC1vout (evalcode evalcode2 : UInt8) (nValue : Int) (pk : CPubKey) : CTxOut :=
  ⟨nValue,W.ccPubKey (makeTokensCCcond1 evalcode evalcode2 pk)⟩

def makeTokensCC1of2vout (evalcode evalcode2 : UInt8) (nValue : Int) (pk1 pk2 : CPubKey) :
    CTxOut :=
  ⟨nValue,W.ccPubKey (makeTokensCCcond1of2 evalcode evalcode2 pk1 pk2)⟩

/-- Outputs to the key of the token contract mark a token and carry none. -/
def isTokenMarkerVout (vout : CTxOut) : Bool :=
  vout==W.makeCC1vout EVAL_TOKENS vout.nValue (W.unspendablePk EVAL_TOKENS)

/-- The output at an index of a vector. -/
def voutAt (tx : CTransaction) (n : Nat) : CTxOut := tx.vout.getD n W.strayOut

/-- An address of a condition; an empty one is none. -/
def condAddress (cond : CC) : String := (W.getScriptAddress (W.ccPubKey cond)).getD ""

/-- A key that is not there is replaced by that of the contract. -/
def orUnspendable (evalcode : UInt8) (pk : CPubKey) : CPubKey :=
  if pk=[] then W.unspendablePk evalcode else pk

def getCCaddress (evalcode : UInt8) (pk : CPubKey) : String :=
  W.condAddress (makeCCcond1 evalcode (W.orUnspendable evalcode pk))

def getTokensCCaddress (evalcode additionalTokensEvalcode2 : UInt8) (pk : CPubKey) : String :=
  W.condAddress (makeTokensCCcond1 evalcode additionalTokensEvalcode2 (W.orUnspendable evalcode pk))

/-- `ConstrainVout`; no address and no value is not checked. -/
def constrainVout (vout : CTxOut) (CCflag : Bool) (cmpaddr : Option String) (nValue : Int) : Bool :=
  if isPayToCryptoCondition vout.scriptPubKey≠CCflag then false
  else if cmpaddr.isSome ∧ W.getScriptAddress vout.scriptPubKey≠cmpaddr then false
  else if nValue≠0 ∧ nValue≠vout.nValue then false
  else true

/-- Transactions are found by their ids, and their outputs are amounts. -/
structure Indexed : Prop where
  hash : ∀h tx b,W.getTransaction h=some (tx,b) → tx.hash=h
  vout : ∀h tx b,W.getTransaction h=some (tx,b) → ∀o∈tx.vout,0≤o.nValue
  null : W.getTransaction 0=none

theorem voutAt_nonneg {W : World} {tx : CTransaction} (htx : ∀o∈tx.vout,0≤o.nValue) {n : Nat}
    (hn : n<tx.vout.length) : 0≤(W.voutAt tx n).nValue := by
  rw [voutAt,List.getD_eq_getElem?_getD,List.getElem?_eq_getElem hn,Option.getD_some]
  exact htx _ (List.getElem_mem hn)

/-- The key with this number. -/
def keyOf (b : UInt8) : CPubKey := 2::b::List.replicate 31 0

/-- The codes and key numbers of a condition. -/
def labelOf (cond : CC) : List UInt8 :=
  cond.nodes.flatMap fun
    | .eval code => code
    | .secp256k1 (_::b::_) => [b]
    | _ => []

/-- Conditions whose script holds the codes and the numbers of the keys, fulfilled by
a code and a number. -/
def ofKeys (getTransaction : Uint256 → Option (CTransaction × Uint256)) : World where
  getTransaction := getTransaction
  readFulfillment ffbin :=
    match ffbin with
    | [evalcode,b] => some (makeCCcond1 evalcode (keyOf b))
    | _ => none
  ccPubKey cond := UInt8.ofNat (labelOf cond).length::labelOf cond++[0xcc]
  unspendablePk evalcode := keyOf evalcode
  unspendableCCaddr evalcode := textOf [2,evalcode,evalcode,0xcc]
  getScriptAddress script := some (textOf script)
  solves script pk := script==33::pk++[0xac]
  burnPk := keyOf 0xde
  strayPk := []
  strayOut := ⟨0,[]⟩

end World

/-- Finds transactions by their ids. -/
def indexOf (txs : List CTransaction) (h : Uint256) : Option (CTransaction × Uint256) :=
  (txs.find? fun tx => tx.hash==h).map fun tx => (tx,0)

theorem indexOf_some {txs : List CTransaction} {h b : Uint256} {tx : CTransaction}
    (hget : indexOf txs h=some (tx,b)) : tx∈txs ∧ tx.hash=h := by
  obtain ⟨t,ht,hpair⟩ := Option.map_eq_some_iff.mp hget
  obtain ⟨rfl,-⟩ := Prod.mk.inj hpair
  exact ⟨List.mem_of_find?_eq_some ht,by simpa using List.find?_some ht⟩

theorem World.indexed_ofKeys {txs : List CTransaction}
    (h : ∀tx∈txs,tx.hash≠0 ∧ ∀o∈tx.vout,0≤o.nValue) : (World.ofKeys (indexOf txs)).Indexed := by
  refine ⟨fun h tx b hget => (indexOf_some hget).2,
    fun k tx b hget => (h tx (indexOf_some hget).1).2,?_⟩
  cases hget : (World.ofKeys (indexOf txs)).getTransaction 0 with
  | none => rfl
  | some p =>
    obtain ⟨hmem,hhash⟩ := indexOf_some hget
    exact absurd hhash (h p.1 hmem).1

def plainTx (hash : Uint256) (vin : List CTxIn) (vout : List CTxOut) : CTransaction :=
  ⟨hash,true,4,SAPLING_VERSION_GROUP_ID,vin,vout,0,0,[],[],[]⟩

end Zdeex.Cc
