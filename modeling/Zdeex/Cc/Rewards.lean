import Mathlib.Tactic.Common
import Zdeex.Cc.Assets

namespace Zdeex.Cc

open Zdeex.Framework
open Zdeex.Coins
open Zdeex.Block
open Zdeex.Crosschain

def COIN : Int := 100000000
def REWARDSCC_MAXAPR : Int := COIN*25
def REWARDS_TXFEE : Int := 10000

/-- Parameters of a rewards plan, as 64-bit words. -/
structure RewardsFunding where
  sbits : BitVec 64
  APR : BitVec 64
  minseconds : BitVec 64
  maxseconds : BitVec 64
  mindeposit : BitVec 64
  deriving DecidableEq

structure RewardsOpRet where
  funcid : UInt8
  sbits : BitVec 64
  fundingtxid : Uint256
  deriving DecidableEq

/-- The two codes in front, then the parameters of a plan. -/
def readRewardsFunding : Reader (UInt8 × UInt8 × RewardsFunding) := do
  let e ← readUInt8
  let f ← readUInt8
  let sbits ← Reader.word 64
  let APR ← Reader.word 64
  let minseconds ← Reader.word 64
  let maxseconds ← Reader.word 64
  let mindeposit ← Reader.word 64
  return (e,f,⟨sbits,APR,minseconds,maxseconds,mindeposit⟩)

def readRewards : Reader (UInt8 × RewardsOpRet) := do
  let e ← readUInt8
  let f ← readUInt8
  let sbits ← Reader.word 64
  let fundingtxid ← Reader.word 256
  return (e,⟨f,sbits,fundingtxid⟩)

def decodeRewardsFundingOpRet (scriptPubKey : List UInt8) : Option RewardsFunding :=
  let vopret := opretData scriptPubKey
  if 2<vopret.length then
    match unmarshal8 readRewardsFunding vopret with
    | none => none
    | some (e,f,funding) => if e=EVAL_REWARDS ∧ f=chr 'F' then some funding else none
  else none

/-- `DecodeRewardsOpRet`; the funding transaction of a plan is named by its own id. -/
def decodeRewardsOpRet (txid : Uint256) (scriptPubKey : List UInt8) : Option RewardsOpRet :=
  let vopret := opretData scriptPubKey
  if 2<vopret.length ∧ vopret[0]?=some EVAL_REWARDS then
    if vopret[1]?=some (chr 'F') then
      (unmarshal8 readRewardsFunding vopret).map fun p => ⟨chr 'F',p.2.2.sbits,txid⟩
    else
      match unmarshal8 readRewards vopret with
      | none => none
      | some (e,r) =>
          if e=EVAL_REWARDS ∧ (r.funcid=chr 'L' ∨ r.funcid=chr 'U' ∨ r.funcid=chr 'A') then some r
          else none
  else none

/-- A 64-bit integer as `mpz_import` reads it. -/
def mpzSetLli (x : Int) : Int := x%2^64

/-- The first word that `mpz_export` writes, the most significant one. -/
def mpzGetUi2 (x : Int) : Int := if (x.natAbs : Int)<2^64 then x.natAbs else x.natAbs/2^64%2^64

namespace World

variable (W : World) (site : Site)

/-- `CCduration`: the number of blocks and seconds since a transaction. -/
def ccDuration (txid : Uint256) : Int × Int :=
  match W.getTransaction txid with
  | none => (0,0)
  | some (_,hashBlock) =>
      if hashBlock=0 then (0,0)
      else
        match site.getBlockIndex hashBlock with
        | none => (0,0)
        | some (txtime,txheight) =>
            if txtime=0 ∨ txheight ≤ 0 then (0,0)
            else if site.lastTip.1<txtime ∨ site.lastTip.2 ≤ txheight then (0,0)
            else (site.lastTip.2-txheight,site.lastTip.1-txtime)

/-- The reward before it is cut to the amount. -/
def rawReward (amount APR duration : Int) : Int :=
  if site.hardforkActive then
    mpzGetUi2 ((mpzSetLli amount*mpzSetLli duration*mpzSetLli APR).tdiv (COIN*100*365*24*3600))
  else
    (toCAmount ((toCAmount (amount*duration)).tdiv (365*24*3600)*APR.tdiv 1000000)).tdiv 10000%2^64

def rewardsCalc (amount : Int) (txid : Uint256) (APR minseconds maxseconds : Int) : Int :=
  let duration := (W.ccDuration site txid).2
  if duration < minseconds then 0
  else
    let reward := rawReward site amount APR (if maxseconds<duration then maxseconds else duration)
    if amount%2^64 < reward then amount%2^64 else reward

/-- The amount in an output of a plan, at the address of the contract. -/
def isRewardsvout (tx : CTransaction) (v : Nat) (refsbits : BitVec 64) (reffundingtxid : Uint256) :
    Int :=
  let out := W.voutAt tx v
  if isPayToCryptoCondition out.scriptPubKey then
    match decodeRewardsOpRet tx.hash (lastScript tx) with
    | none => 0
    | some r =>
        if r.sbits=refsbits ∧ (r.fundingtxid=reffundingtxid ∨ tx.hash=reffundingtxid) ∧
          W.getScriptAddress out.scriptPubKey=some (W.unspendableCCaddr EVAL_REWARDS) then out.nValue
        else 0
  else 0

/-- The inputs of `RewardsExactAmounts`. -/
def rewardsInputs (refsbits : BitVec 64) (reffundingtxid : Uint256) :
    List CTxIn → Int → Judged (Option Int)
  | [],inputs => pure (some inputs)
  | vin::rest,inputs =>
      if W.ismyvin EVAL_REWARDS vin.scriptSig then
        match W.getTransaction vin.prevout.hash with
        | none => fails "always should find vin, but didnt"
        | some (vinTx,hashBlock) =>
            failIf (hashBlock=0) "cant rewards from mempool"
              (rewardsInputs refsbits reffundingtxid rest
                (inputs+W.isRewardsvout vinTx vin.prevout.n refsbits reffundingtxid))
      else rewardsInputs refsbits reffundingtxid rest inputs

def rewardsOutputs (tx : CTransaction) (refsbits : BitVec 64) (reffundingtxid : Uint256) : Int :=
  ((List.range tx.vout.length).map fun v => W.isRewardsvout tx v refsbits reffundingtxid).sum

/-- Value of an input in the coins view. -/
def inputValue (vin : CTxIn) : Int :=
  match W.getTransaction vin.prevout.hash with
  | none => 0
  | some (vinTx,_) => (W.voutAt vinTx vin.prevout.n).nValue

/-- `GetValueIn` of a transaction that is no import and no coinbase. -/
def getValueIn (tx : CTransaction) : Int :=
  (tx.vin.map W.inputValue).sum+(tx.getShieldedValueIn site.MAX_MONEY).getD 0

/-- The fee is compared as an unsigned number. -/
def checkTxFee (tx : CTransaction) (txfee : Int) : Bool :=
  match tx.getValueOut site.MAX_MONEY with
  | none => false
  | some valueOut => decide ((W.getValueIn site tx-valueOut)%2^64 ≤ txfee)

/-- A deposit that goes back without a reward. -/
def validateRecover (tx vinTx : CTransaction) : Judged Bool :=
  let vout := W.voutAt tx
  refuseIf ((vout 1).nValue≠10000) "wrong marker vout value" <|
  refuseIf ((vout 1).scriptPubKey≠(vout 0).scriptPubKey)
    "unlock recover tx vout.1 mismatched scriptPubKey" <|
  refuseIf ((vout 0).scriptPubKey≠(W.voutAt vinTx 1).scriptPubKey)
    "unlock recover tx vout.0 mismatched scriptPubKey" <|
  refuseIf ((W.voutAt vinTx 0).nValue<(vout 0).nValue)
    "unlock recover tx vout.0 mismatched amounts" <|
  refuseIf (0<(vout 2).nValue) "unlock recover tx vout.1 nonz amount" (pure true)

/-- A deposit that goes back with a reward from the funding of the plan. -/
def validateReward (tx vinTx : CTransaction) (sbits : BitVec 64) (fundingtxid : Uint256)
    (reward : Int) : Judged Bool :=
  let vout := W.voutAt tx
  refuseIf (isPayToCryptoCondition (W.voutAt vinTx 0).scriptPubKey=false)
    "unlock tx vout.0 is normal output" <|
  refuseIf (tx.vout.length≠3) "unlock tx wrong number of vouts" <|
  refuseIf (isPayToCryptoCondition (vout 0).scriptPubKey=false)
    "unlock tx vout.0 is normal output" <|
  refuseIf (isPayToCryptoCondition (vout 1).scriptPubKey=true) "unlock tx vout.1 is CC output" <|
  refuseIf ((vout 1).scriptPubKey≠(W.voutAt vinTx 1).scriptPubKey)
    "unlock tx vout.1 mismatched scriptPubKey" <|
  whenSome false (W.rewardsInputs sbits fundingtxid tx.vin 0) fun inputs =>
    refuseIf (inputs≠W.rewardsOutputs tx sbits fundingtxid+(REWARDS_TXFEE+(vout 1).nValue))
      "mismatched inputs != outputs + txfee" <|
    refuseIf ((W.voutAt vinTx 0).nValue+reward<(vout 1).nValue)
      "unlock tx vout.1 isnt amount+reward" <|
    refuseIf (0<(vout 2).nValue) "unlock tx vout.2 isnt 0" (W.preventCC tx none (some 1))

/-- The first input; a transaction that is validated has one. -/
def vin0 (tx : CTransaction) : CTxIn := tx.vin.headD ⟨⟨0,0xFFFFFFFF⟩,[]⟩

/-- The reward that an unlock is entitled to. -/
def unlockReward (funding : RewardsFunding) (txid : Uint256) (vinTx : CTransaction) : Int :=
  W.rewardsCalc site (W.voutAt vinTx 0).nValue txid funding.APR.toInt funding.minseconds.toInt
    funding.maxseconds.toInt

def validateUnlock (tx : CTransaction) (fundingtxid : Uint256) (funding : RewardsFunding) :
    Judged Bool :=
  let txid := (vin0 tx).prevout.hash
  refuseIf (fundingtxid=txid) "cant unlock fundingtxid" <|
  match W.getTransaction txid with
  | none => invalid "always should find vin.0, but didnt"
  | some (vinTx,_) =>
      match decodeRewardsOpRet txid (lastScript vinTx) with
      | none => invalid "can only unlock locktxid"
      | some lock =>
          refuseIf (lock.funcid≠chr 'L') "can only unlock locktxid" <|
          refuseIf (fundingtxid≠lock.fundingtxid) "mismatched vinfundingtxid" <|
          refuseIf ((tx.vin.all fun vin => W.ismyvin EVAL_REWARDS vin.scriptSig)=false)
            "unexpected normal vin for unlock" <|
          refuseIf (W.checkTxFee site tx REWARDS_TXFEE=false) "txfee is too high" <|
          refuseIf (W.unlockReward site funding txid vinTx=0) "no eligible rewards" <|
          if tx.vin.length=1 ∧ isPayToCryptoCondition (W.voutAt tx 0).scriptPubKey=false then
            W.validateRecover tx vinTx
          else
            W.validateReward tx vinTx funding.sbits fundingtxid
              (W.unlockReward site funding txid vinTx)

/-- The parameters of a plan; for a funding transaction without outputs the name is still
that of the spending transaction and the rest is what was in memory. -/
def fundingOf (stray : RewardsFunding) (sbits : BitVec 64) (fundingTx : CTransaction) :
    Option RewardsFunding :=
  if fundingTx.vout=[] then some {stray with sbits := sbits}
  else decodeRewardsFundingOpRet (lastScript fundingTx)

def rewardsValidate (stray : RewardsFunding) (tx : CTransaction) : Judged Bool :=
  refuseIf (tx.vout=[]) "no vouts" <|
  match decodeRewardsOpRet tx.hash (lastScript tx) with
  | none => invalid "unexpected rewards missing funcid"
  | some r =>
      match W.getTransaction r.fundingtxid with
      | none => invalid "cant find fundingtxid"
      | some (fundingTx,_) =>
          match fundingOf stray r.sbits fundingTx with
          | none => invalid "fundingTx not valid"
          | some funding =>
              refuseIf (REWARDSCC_MAXAPR<funding.APR.toNat) "excessive APR" <|
              if r.funcid=chr 'F' then invalid "unexpected RewardsValidate for createfunding"
              else if r.funcid=chr 'A' then invalid "unexpected RewardsValidate for addfunding"
              else if r.funcid=chr 'L' then invalid "unexpected RewardsValidate for lock"
              else if r.funcid=chr 'U' then W.validateUnlock site tx r.fundingtxid funding
              else invalid "unexpected rewards funcid"

end World

end Zdeex.Cc
