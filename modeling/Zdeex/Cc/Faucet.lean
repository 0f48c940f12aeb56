import Mathlib.Tactic.Common
import Zdeex.Cc.Rewards

namespace Zdeex.Cc

open Zdeex.Framework
open Zdeex.Coins
open Zdeex.Block

def FAUCETSIZE : Int := COIN/10
def FAUCET_TXFEE : Int := 10000

namespace World

variable (W : World) (site : Site)

/-- The amount in an output at the address of the faucet. -/
def isFaucetvout (tx : CTransaction) (v : Nat) : Int :=
  let out := W.voutAt tx v
  if isPayToCryptoCondition out.scriptPubKey then
    if W.getScriptAddress out.scriptPubKey=some (W.unspendableCCaddr EVAL_FAUCET) then out.nValue
    else 0
  else 0

/-- The inputs of `FaucetExactAmounts`. -/
def faucetInputs : List CTxIn → Int → Judged (Option Int)
  | [],inputs => pure (some inputs)
  | vin::rest,inputs =>
      if W.ismyvin EVAL_FAUCET vin.scriptSig then
        match W.getTransaction vin.prevout.hash with
        | none => fails "cant find vinTx"
        | some (vinTx,hashBlock) =>
            failIf (hashBlock=0) "cant faucet from mempool"
              (faucetInputs rest (inputs+W.isFaucetvout vinTx vin.prevout.n))
      else faucetInputs rest inputs

def faucetOutputs (tx : CTransaction) : Int :=
  ((List.range tx.vout.length).map (W.isFaucetvout tx)).sum

/-- `FaucetExactAmounts`, then what follows it. -/
def faucetExactAmounts (tx : CTransaction) (next : Judged Bool) : Judged Bool :=
  whenSome false (W.faucetInputs tx.vin 0) fun inputs =>
    refuseIf (inputs≠W.faucetOutputs tx+FAUCETSIZE+FAUCET_TXFEE)
      "mismatched inputs != outputs + FAUCETSIZE + txfee" next

/-- A transaction that is more than three blocks old. -/
def isOld (txid : Uint256) : Bool :=
  decide (0<(W.ccDuration site txid).2 ∧ 3<(W.ccDuration site txid).1)

/-- The rest of `FaucetValidate`; the first output may be change of the faucet. -/
def validateFaucetget (tx : CTransaction) : Judged Bool :=
  let i := if W.isFaucetvout tx 0≠0 then 1 else 0
  let out := W.voutAt tx i
  refuseIf (out.nValue≠FAUCETSIZE) "invalid faucet output" <|
  refuseIf (tx.hash.extractLsb' 0 8≠0 ∨ tx.hash.extractLsb' 248 8≠0) "invalid faucetget txid" <|
  refuseIf ((site.addressTxids (W.getScriptAddress out.scriptPubKey)
    (isPayToCryptoCondition out.scriptPubKey)).any (W.isOld site)=true)
    "faucet is only for brand new addresses" (W.preventCC tx none (some (i+1)))

/-- `FaucetValidate`; its loop over the inputs looks at the first one every time. -/
def faucetValidate (tx : CTransaction) : Judged Bool :=
  refuseIf (tx.vout=[]) "no vouts" <|
  refuseIf ((tx.vin.any fun _ => W.isCCInput (vin0 tx).scriptSig==false)=true)
    "illegal normal vini" <|
  W.faucetExactAmounts tx (W.validateFaucetget site tx)

end World

end Zdeex.Cc
