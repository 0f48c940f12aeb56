import Mathlib.Algebra.BigOperators.Group.List.Basic
import Mathlib.Algebra.Order.BigOperators.Group.List
import Mathlib.Tactic.Common
import Zdeex.Cc.TokenOpRet
import Zdeex.Framework.Judged

namespace Zdeex.Cc

open Zdeex.Framework
open Zdeex.Coins
open Zdeex.Block
open Zdeex.Crosschain

/-- The chain that runs the contracts, as far as they read it: times and heights of
blocks and of the tip, and the ids in the address index. -/
structure Site where
  SMART_CHAIN_SYMBOL : String
  height : Int
  MAX_MONEY : Int
  getBlockIndex : Uint256 → Option (Int × Int)
  lastTip : Int × Int
  hardforkActive : Bool
  addressTxids : Option String → Bool → List Uint256

/-- On one chain the token contract accepts everything, up to a height. -/
def Site.AcceptsAll (site : Site) : Prop := site.SMART_CHAIN_SYMBOL="ROGUE" ∧ site.height ≤ 12500

instance (site : Site) : Decidable site.AcceptsAll := inferInstanceAs (Decidable (_ ∧ _))

/-- A chain with this name at height 1000. -/
def Site.named (symbol : String) : Site :=
  ⟨symbol,1000,2100000000000000,fun h => if h=10 then some (1000,10) else none,(2000000,1000),true,
    fun _ _ => []⟩

namespace World

variable (W : World)

/-- Data of the creation that make a token non-fungible. -/
def getNonfungibleData (tokenid : Uint256) : List UInt8 :=
  match W.getTransaction tokenid with
  | none => []
  | some (tokenbasetx,_) =>
      match decodeTokenCreateOpRet (lastScript tokenbasetx) with
      | none => []
      | some create => getOpretBlob create.oprets OPRETID_NONFUNGIBLEDATA

/-- The loop of `ExtractTokensCCVinPubkeys`. The variable that holds the key is
not cleared between inputs. -/
def extractLoop : List CTxIn → CPubKey → List CPubKey
  | [],_ => []
  | vin::rest,pubkey =>
      if W.ismyvin EVAL_TOKENS vin.scriptSig then
        match W.getCryptoCondition vin.scriptSig with
        | none => extractLoop rest pubkey
        | some cond =>
            let pubkey := ((cond.nodes.findSome? CC.publicKey?).map pubkey2pk).getD pubkey
            (if pubkey≠[] then [pubkey] else [])++extractLoop rest pubkey
      else extractLoop rest pubkey

def extractTokensCCVinPubkeys (tx : CTransaction) : List CPubKey := W.extractLoop tx.vin []

def filterOutTokensUnspendablePk (pks : List CPubKey) : List CPubKey :=
  pks.filter (·≠W.unspendablePk EVAL_TOKENS)

/-- What one input adds to the normal inputs of a key. -/
def normalInput (pubkey : CPubKey) (vin : CTxIn) : Int :=
  if W.isCCInput vin.scriptSig then 0
  else
    match W.getTransaction vin.prevout.hash with
    | none => 0
    | some (vintx,_) =>
        let out := W.voutAt vintx vin.prevout.n
        if W.solves out.scriptPubKey pubkey then out.nValue else 0

def totalPubkeyNormalInputs (tx : CTransaction) (pubkey : CPubKey) : Int :=
  (tx.vin.map (W.normalInput pubkey)).sum

/-- The op_return of the transaction when it is one of this token. -/
def validateTokenOpret (tx : CTransaction) (tokenid : Uint256) : Option TokenOpRet :=
  if tx.vout=[] then none
  else
    match decodeTokenOpRet W.strayPk (lastScript tx) with
    | none => none
    | some r =>
        if r.funcId=chr 'c' then if tokenid≠0 ∧ tokenid=tx.hash then some r else none
        else if r.funcId=chr 't' then if tokenid≠0 ∧ tokenid=r.tokenid then some r else none
        else none

/-- The codes of a token output, of the token itself and of the other contract. -/
def tokenEvalCodes (vopretNonfungible vopretExtra : List UInt8) : UInt8 × UInt8 :=
  let evalCode1 := vopretNonfungible.headD EVAL_TOKENS
  let evalCode2 := vopretExtra.headD 0
  if evalCode1=EVAL_TOKENS ∧ evalCode2≠0 then (evalCode2,0) else (evalCode1,evalCode2)

section Vouts

variable (evalCodeNonfungible evalCode1 evalCode2 : UInt8) (nValue : Int)

/-- A form of output that is tried only under a condition. -/
def voutIf (c : Bool) (out : CTxOut) : List CTxOut := if c then [out] else []

/-- Outputs to one key, with both codes in both orders. -/
def threeEvalVouts (pk : CPubKey) : List CTxOut :=
  W.makeTokensCC1vout evalCode1 evalCode2 nValue pk::
    voutIf (evalCode2≠0) (W.makeTokensCC1vout evalCode2 evalCode1 nValue pk)

/-- Outputs to one key, with one code; non-fungible tokens do not become fungible. -/
def oneEvalVouts (pk : CPubKey) : List CTxOut :=
  voutIf (evalCodeNonfungible=0) (W.makeCC1vout EVAL_TOKENS nValue pk)++
    voutIf (evalCode1≠0) (W.makeTokensCC1vout evalCode1 0 nValue pk)++
    voutIf (evalCode2≠0) (W.makeTokensCC1vout evalCode2 0 nValue pk)

/-- The outputs that the keys of the op_return allow. -/
def opretVouts : List CPubKey → List CTxOut
  | [pk0] =>
      W.threeEvalVouts evalCode1 evalCode2 nValue pk0++
        W.oneEvalVouts evalCodeNonfungible evalCode1 evalCode2 nValue pk0
  | [pk0,pk1] =>
      W.threeEvalVouts evalCode1 evalCode2 nValue pk0++
        W.makeTokensCC1of2vout evalCode1 evalCode2 nValue pk0 pk1::
        W.threeEvalVouts evalCode1 evalCode2 nValue pk1++
        voutIf (evalCode2≠0) (W.makeTokensCC1of2vout evalCode2 evalCode1 nValue pk0 pk1)++
        W.oneEvalVouts evalCodeNonfungible evalCode1 evalCode2 nValue pk0++
        W.oneEvalVouts evalCodeNonfungible evalCode1 evalCode2 nValue pk1
  | _ => []

/-- Outputs that a key of the op_return shares with the key of a contract. The
first key is read even when there is none. -/
def globalVouts (evalcode : UInt8) (pks : List CPubKey) : List CTxOut :=
  W.makeTokensCC1of2vout evalcode 0 nValue (pks.headD W.strayPk) (W.unspendablePk evalcode)::
    match pks with
    | [_,pk1] => [W.makeTokensCC1of2vout evalcode 0 nValue pk1 (W.unspendablePk evalcode)]
    | _ => []

/-- Change to the key of an input. -/
def changeVouts (pk : CPubKey) : List CTxOut :=
  voutIf (evalCodeNonfungible=0) (W.makeCC1vout EVAL_TOKENS nValue pk)++
    W.threeEvalVouts evalCode1 evalCode2 nValue pk

end Vouts

/-- All forms of output that a transfer may have for an amount. -/
def testVouts (tx : CTransaction) (r : TokenOpRet) (reftokenid : Uint256) (nValue : Int) :
    List CTxOut :=
  let vopretNonfungible := W.getNonfungibleData reftokenid
  let evalCodeNonfungible := vopretNonfungible.headD 0
  let evalCodes := tokenEvalCodes vopretNonfungible (filterOutNonCCOprets r.oprets)
  let voutPubkeys := W.filterOutTokensUnspendablePk r.voutPubkeys
  let vinPubkeys := W.filterOutTokensUnspendablePk (W.extractTokensCCVinPubkeys tx)
  W.opretVouts evalCodeNonfungible evalCodes.1 evalCodes.2 nValue voutPubkeys++
    W.globalVouts nValue evalCodes.1 voutPubkeys++
    (if evalCodes.2≠0 then W.globalVouts nValue evalCodes.2 voutPubkeys else [])++
    vinPubkeys.flatMap (W.changeVouts evalCodeNonfungible evalCodes.1 evalCodes.2 nValue)

/-- Everything that a creation puts under conditions, markers apart. -/
def ccOutputs (tx : CTransaction) : Int :=
  ((tx.vout.filter fun vout =>
    isPayToCryptoCondition vout.scriptPubKey && !W.isTokenMarkerVout vout).map CTxOut.nValue).sum

/-- The tokens in an output of a creation. -/
def createdValue (tx : CTransaction) (out : CTxOut) : Int :=
  if W.isTokenMarkerVout out then 0
  else if tx.isCoinImport then out.nValue
  else
    match decodeTokenCreateOpRet (lastScript tx) with
    | none => 0
    | some create =>
        if W.ccOutputs tx ≤ W.totalPubkeyNormalInputs tx (pubkey2pk create.origpubkey) then
          out.nValue
        else 0

/-- The tokens in an output under a condition, by the op_return. -/
def opretValue (tx : CTransaction) (out : CTxOut) (reftokenid : Uint256) : Int :=
  match W.validateTokenOpret tx reftokenid with
  | none => 0
  | some r =>
      if r.funcId=chr 'c' then W.createdValue tx out
      else if out∈W.testVouts tx r reftokenid out.nValue then out.nValue else 0

/-- The last output holds the op_return; the others count when they are under a
condition. -/
def conditionVout? (tx : CTransaction) (v : Nat) : Option CTxOut :=
  (tx.vout.dropLast[v]?).filter fun out => isPayToCryptoCondition out.scriptPubKey

/-- `IsTokensvout` that does not look at the transaction as a whole. -/
def voutValue (tx : CTransaction) (v : Nat) (reftokenid : Uint256) : Int :=
  match conditionVout? tx v with
  | none => 0
  | some out => W.opretValue tx out reftokenid

/-- The inputs of `TokensExactAmounts`; `none` when a transaction is not found. -/
def tokenInputs (value : CTransaction → Nat → Judged Int) : List CTxIn → Int → Judged (Option Int)
  | [],inputs => pure (some inputs)
  | vin::rest,inputs =>
      if W.ismyvin EVAL_TOKENS vin.scriptSig then
        match W.getTransaction vin.prevout.hash with
        | none => do
            let _ ← invalid "always should find vin tx, but didnt"
            return none
        | some (vinTx,_) => do
            let tokenoshis ← value vinTx vin.prevout.n
            tokenInputs value rest (inputs+tokenoshis)
      else tokenInputs value rest inputs

def tokenOutputs (tx : CTransaction) (reftokenid : Uint256) : Int :=
  ((List.range (tx.vout.length-1)).map fun v => W.voutValue tx v reftokenid).sum

/-- `TokensExactAmounts` for a way to value the inputs: the amounts, unless a
transaction is not found. -/
def exactAmounts (value : CTransaction → Nat → Judged Int) (tx : CTransaction)
    (reftokenid : Uint256) : Judged (Option (Int × Int)) := do
  let inputs ← W.tokenInputs value tx.vin 0
  return inputs.map fun inputs => (inputs,W.tokenOutputs tx reftokenid)

/-- The amounts were found and agree. -/
def isEqual : Option (Int × Int) → Bool
  | none => false
  | some (inputs,outputs) => inputs==outputs

/-- `IsTokensvout`; when it goes deeper, a transaction whose amounts do not agree
has no tokens unless it is the creation. -/
def isTokensvout (goDeeper : Bool) (reftokenid : Uint256) (tx : CTransaction) (v : Nat) :
    Judged Int :=
  if goDeeper then
    match conditionVout? tx v with
    | none => pure 0
    | some out => do
        let amounts ← W.exactAmounts (fun vinTx n => pure (W.voutValue vinTx n reftokenid)) tx
          reftokenid
        return if isEqual amounts=false ∧ reftokenid≠tx.hash then 0
          else W.opretValue tx out reftokenid
  else pure (W.voutValue tx v reftokenid)

/-- `TokensExactAmounts` of both depths. -/
def tokensExactAmounts (goDeeper : Bool) (tx : CTransaction) (reftokenid : Uint256) :
    Judged (Option (Int × Int)) :=
  W.exactAmounts (W.isTokensvout goDeeper reftokenid) tx reftokenid

/-- The forms of an output to the burn key. -/
def burnVouts (evalCode evalCode2 : UInt8) (nValue : Int) : List CTxOut :=
  W.makeCC1vout EVAL_TOKENS nValue W.burnPk::W.threeEvalVouts evalCode evalCode2 nValue W.burnPk

/-- The loop of `HasBurnedTokensvouts`; the forms of earlier outputs are tried again. -/
def burnedLoop (evalCode evalCode2 : UInt8) : List CTxOut → List CTxOut → Int → Int
  | [],_,burnedAmount => burnedAmount
  | out::rest,testVouts,burnedAmount =>
      if isPayToCryptoCondition out.scriptPubKey then
        let testVouts := testVouts++W.burnVouts evalCode evalCode2 out.nValue
        burnedLoop evalCode evalCode2 rest testVouts
          (toCAmount (burnedAmount+testVouts.count out*out.nValue))
      else burnedLoop evalCode evalCode2 rest testVouts burnedAmount

def hasBurnedTokensvouts (tx : CTransaction) (reftokenid : Uint256) : Int :=
  match decodeTokenOpRet W.strayPk (lastScript tx) with
  | none => 0
  | some r =>
      let evalCodes := tokenEvalCodes (W.getNonfungibleData reftokenid)
        (filterOutNonCCOprets r.oprets)
      W.burnedLoop evalCodes.1 evalCodes.2 tx.vout [] 0

/-- Outputs of the key of the contract are spent by burns of non-fungible tokens only. -/
def spendsMarker (tx : CTransaction) (tokenid : Uint256) : Bool :=
  (W.extractTokensCCVinPubkeys tx).contains (W.unspendablePk EVAL_TOKENS) &&
    decide (0<W.hasBurnedTokensvouts tx tokenid) && W.getNonfungibleData tokenid==[]

/-- The end of `TokensValidate`, when the amounts are known. -/
def validateFuncid (tx : CTransaction) (r : TokenOpRet) (inputs : Int) : Judged Bool :=
  refuseIf (W.spendsMarker tx r.tokenid=true)
    "spending cc marker not supported for fungible tokens"
    (if r.funcId=chr 'c' then invalid "incorrect token funcid"
    else if r.funcId=chr 't' then
      refuseIf (inputs=0) "no token inputs for transfer" (pure true)
    else invalid "unexpected token funcid")

/-- The amounts of a transfer have to agree. -/
def validateAmounts (tx : CTransaction) (r : TokenOpRet) : Option (Int × Int) → Judged Bool
  | none => invalid "tokens cc inputs != cc outputs"
  | some (inputs,outputs) =>
      refuseIf (inputs≠outputs) "tokens cc inputs != cc outputs" (W.validateFuncid tx r inputs)

def tokensValidate (site : Site) (tx : CTransaction) : Judged Bool :=
  if site.AcceptsAll then pure true
  else refuseIf (tx.vout=[]) "no vouts" <|
    match decodeTokenOpRet W.strayPk (lastScript tx) with
    | none => invalid "TokenValidate: invalid opreturn payload"
    | some r =>
        refuseIf ((W.getTransaction r.tokenid).isNone) "cant find token create txid" <|
        if r.funcId=chr 'c' then W.validateFuncid tx r 0
        else refuseIf (r.tokenid=0) "illegal tokenid" do
          let amounts ← W.tokensExactAmounts true tx r.tokenid
          W.validateAmounts tx r amounts

theorem conditionVout?_some {tx : CTransaction} {v : Nat} {out : CTxOut}
    (h : conditionVout? tx v=some out) :
    tx.vout[v]?=some out ∧ isPayToCryptoCondition out.scriptPubKey=true := by
  unfold conditionVout? at h
  rw [Option.filter_eq_some_iff] at h
  obtain ⟨hget,hcc⟩ := h
  refine ⟨?_,hcc⟩
  obtain ⟨hlt,heq⟩ := List.getElem?_eq_some_iff.mp hget
  rw [List.length_dropLast] at hlt
  rw [List.getElem_dropLast] at heq
  rw [← heq]
  exact List.getElem?_eq_getElem (by omega)

end World

end Zdeex.Cc
