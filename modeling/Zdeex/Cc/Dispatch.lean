import Mathlib.Tactic.Common
import Zdeex.Cc.Faucet
import Zdeex.Cc.ImportCoin

namespace Zdeex.Cc

open Zdeex.Framework
open Zdeex.Coins
open Zdeex.Block
open Zdeex.Crosschain

def EVAL_FIRSTUSER : UInt8 := 0x10
def EVAL_LASTUSER : UInt8 := 0x7f

/-- A node at the time of a call. The last three fields are contracts of other codes;
a code without a validator has `none`. -/
structure EvalNode where
  world : World
  site : Site
  importNode : ImportNode
  stray : RewardsFunding
  HUSH_CONNECTING : Int
  HUSH_CCACTIVATE : Int
  ASSETCHAINS_CC : Nat
  ASSETCHAINS_CCDISABLES : UInt8 → Bool
  mapHeightEvalActivate : UInt8 → Int
  cclibMatches : Bool
  cclibDispatch : UInt8 → List UInt8 → CTransaction → Judged Bool
  importPayout : List UInt8 → CTransaction → Judged Bool
  otherValidate : UInt8 → Option (CTransaction → Judged Bool)

namespace EvalNode

variable (N : EvalNode)

/-- The validator that `CCinit` sets. The asset contract works with the additional code
that is in its record after its own write. -/
def validate (e2 ecode : UInt8) : Option (CTransaction → Judged Bool) :=
  if ecode=EVAL_TOKENS then some (N.world.tokensValidate N.site)
  else if ecode=EVAL_ASSETS then
    some fun tx => N.world.assetsValidate (N.world.assetEvalcode2 e2 tx) tx
  else if ecode=EVAL_FAUCET then some (N.world.faucetValidate N.site)
  else if ecode=EVAL_REWARDS then some (N.world.rewardsValidate N.site N.stray)
  else N.otherValidate ecode

/-- The height without the bit that marks the mempool. -/
def connectingHeight : Int := N.HUSH_CONNECTING%2^30

/-- `ProcessCC`; a negative height is not checked. -/
def processCC (e2 ecode : UInt8) (paramsNull : List UInt8) (tx : CTransaction) : Judged Bool :=
  if N.HUSH_CONNECTING<0 then pure true
  else refuseIf (N.ASSETCHAINS_CC=0 ∨ N.connectingHeight<N.HUSH_CCACTIVATE)
    "CC are disabled or not active yet" <|
  match N.validate e2 ecode with
  | none => invalid "validation not supported for eval code"
  | some validate => refuseIf (paramsNull≠[]) "Cannot have params" (validate tx)

/-- The code is disabled, and its activation height is not reached. -/
def disabled (ecode : UInt8) : Bool :=
  N.ASSETCHAINS_CCDISABLES ecode &&
    decide (N.mapHeightEvalActivate ecode=0 ∨ N.site.height=0 ∨
      N.site.height<N.mapHeightEvalActivate ecode)

/-- `Eval::Dispatch` for a code with its parameters. `e2` is the additional code that
earlier calls have left in the record of the asset contract. -/
def dispatch (e2 : UInt8) (code : List UInt8) (tx : CTransaction) : Judged Bool :=
  match code with
  | [] => invalid "empty-eval"
  | ecode::vparams =>
      refuseIf (N.disabled ecode=true) "disabled-code, -ac_ccenables didnt include this ecode" <|
      if EVAL_FIRSTUSER ≤ ecode ∧ ecode ≤ EVAL_LASTUSER then
        if N.cclibMatches then N.cclibDispatch ecode vparams tx
        else invalid "mismatched -ac_cclib vs CClib_name"
      else if ecode=EVAL_IMPORTPAYOUT then N.importPayout vparams tx
      else if ecode=EVAL_IMPORTCOIN then N.world.importCoin N.importNode tx
      else N.processCC e2 ecode vparams tx

/-- The asset contract is called and reads the data of the transaction. -/
def readsAsset (code : List UInt8) (tx : CTransaction) : Bool :=
  code==[EVAL_ASSETS] && !N.disabled EVAL_ASSETS && decide (0 ≤ N.HUSH_CONNECTING) &&
    decide (¬(N.ASSETCHAINS_CC=0 ∨ N.connectingHeight<N.HUSH_CCACTIVATE)) &&
    decide (tx.vout≠[])

/-- The record of the asset contract after a call; nothing clears it. -/
def recordAfter (e2 : UInt8) (code : List UInt8) (tx : CTransaction) : UInt8 :=
  if N.readsAsset code tx then N.world.assetEvalcode2 e2 tx else e2

/-- `RunCCEval`, which decides by the state and not by the result. -/
def runCCEval (e2 : UInt8) (code : List UInt8) (tx : CTransaction) : Bool :=
  (N.dispatch e2 code tx none).2.isNone

end EvalNode

/-- A call of `Dispatch` in the life of a node. -/
structure EvalCall where
  node : EvalNode
  code : List UInt8
  tx : CTransaction

/-- What the calls leave in the record of the asset contract, from the first one on. -/
def recordOf (history : List EvalCall) : UInt8 :=
  history.foldl (fun e2 call => call.node.recordAfter e2 call.code call.tx) 0

/-- The verdict on a call after others. -/
def EvalCall.verdict (history : List EvalCall) (call : EvalCall) : Bool × Option String :=
  call.node.dispatch (recordOf history) call.code call.tx none

end Zdeex.Cc
