import Mathlib.Tactic.Common
import Zdeex.Block.ConnectBlock
import Zdeex.Cc.Tokens

namespace Zdeex.Cc

open Zdeex.Framework
open Zdeex.Coins
open Zdeex.Block
open Zdeex.Crosschain

/-- The data of an asset transaction. -/
structure AssetOpRet where
  funcid : UInt8
  assetid : Uint256
  assetid2 : Uint256
  price : Int
  origpubkey : List UInt8
  deriving DecidableEq

def readInt64 : Reader Int := do
  return (← Reader.word 64).toInt

/-- The data of orders and fills. -/
def readOrder : Reader (Int × List UInt8) := do
  let _ ← readUInt8
  let _ ← readUInt8
  let price ← readInt64
  let origpubkey ← readVector8
  return (price,origpubkey)

/-- The data of exchanges. -/
def readExchange : Reader (Uint256 × Int × List UInt8) := do
  let _ ← readUInt8
  let _ ← readUInt8
  let assetid2 ← Reader.word 256
  let price ← readInt64
  let origpubkey ← readVector8
  return (assetid2,price,origpubkey)

def decodeAssetData (assetid : Uint256) (vopretAssets : List UInt8) : Option AssetOpRet :=
  match vopretAssets with
  | evalcode::funcid::rest =>
      if evalcode≠EVAL_ASSETS then none
      else if funcid=chr 'x' ∨ funcid=chr 'o' then
        if rest=[] then some ⟨funcid,assetid,0,0,[]⟩ else none
      else if funcid=chr 's' ∨ funcid=chr 'b' ∨ funcid=chr 'S' ∨ funcid=chr 'B' then
        (unmarshal8 readOrder vopretAssets).map fun p => ⟨funcid,assetid,0,p.1,p.2⟩
      else if funcid=chr 'E' ∨ funcid=chr 'e' then
        (unmarshal8 readExchange vopretAssets).map fun p =>
          ⟨funcid,assetid,revuint256 p.1,p.2.1,p.2.2⟩
      else none
  | _ => none

/-- `DecodeAssetTokenOpRet`: the asset data in a token op_return. -/
def decodeAssetTokenOpRet (stray scriptPubKey : List UInt8) : Option AssetOpRet :=
  match decodeTokenOpRet stray scriptPubKey with
  | none => none
  | some r => decodeAssetData r.tokenid (getOpretBlob r.oprets OPRETID_ASSETSDATA)

/-- The checks that both kinds of fills share; `units` and `nValue` are what is paid
and what is on the books. The price of the remainder is only printed. -/
def validateRemainder (remaining_units remaining_nValue orig_nValue received_nValue paidunits
    totalunits : Int) : Bool :=
  if orig_nValue=0 ∨ received_nValue=0 ∨ paidunits=0 ∨ totalunits=0 then false
  else if totalunits≠toCAmount (remaining_units+paidunits) then false
  else if orig_nValue≠toCAmount (remaining_nValue+received_nValue) then false
  else true

/-- Coins on the books, filled with tokens. -/
def validateBidRemainder (remaining_units remaining_nValue orig_nValue received_nValue paidunits
    totalunits : Int) : Bool :=
  validateRemainder remaining_units remaining_nValue orig_nValue received_nValue paidunits
      totalunits &&
    !decide (received_nValue.tdiv paidunits<orig_nValue.tdiv totalunits)

/-- Tokens on the books, filled with coins. -/
def validateAskRemainder (remaining_nValue remaining_assetoshis orig_assetoshis
    received_assetoshis paid_nValue total_nValue : Int) : Bool :=
  validateRemainder remaining_nValue remaining_assetoshis orig_assetoshis received_assetoshis
      paid_nValue total_nValue &&
    !decide (paid_nValue.tdiv received_assetoshis<total_nValue.tdiv orig_assetoshis)

namespace World

variable (W : World)

/-- `e2` is the additional code of non-fungible tokens in the contract's record. -/
def getAssetorigaddrs (e2 : UInt8) (vintx : CTransaction) : Option (String × String) :=
  match decodeAssetTokenOpRet W.strayPk (lastScript vintx) with
  | none => none
  | some r =>
      if r.funcid=chr 's' ∨ r.funcid=chr 'S' ∨ r.funcid=chr 'b' ∨ r.funcid=chr 'B' then
        let origCCaddr := W.getTokensCCaddress EVAL_TOKENS e2 (pubkey2pk r.origpubkey)
        if origCCaddr="" then none
        else (W.getScriptAddress (pushData r.origpubkey++[0xac])).map fun origNormalAddr =>
          (origCCaddr,origNormalAddr)
      else none

/-- The first output of an order is at the address that the kind of fill spends from. -/
def isOrderAddress (e2 funcid : UInt8) (script : List UInt8) : Bool :=
  let unspendableAddr :=
    if funcid=chr 'S' ∨ funcid=chr 'x' then
      W.getTokensCCaddress EVAL_ASSETS e2 (W.unspendablePk EVAL_ASSETS)
    else W.getCCaddress EVAL_ASSETS (W.unspendablePk EVAL_ASSETS)
  unspendableAddr≠"" ∧ W.getScriptAddress script=some unspendableAddr

/-- What `AssetValidateCCvin` finds at the second input. -/
structure CCvin where
  nValue : Int
  vinTx : CTransaction
  origCCaddr : String
  origaddr : String

def assetValidateCCvin (e2 funcid : UInt8) (tx : CTransaction) : Judged (Option CCvin) :=
  match tx.vin with
  | _::vin1::_ =>
      failIf (vin1.prevout.n≠0) "vin1 needs to be buyvin.vout[0]" <|
      match W.getTransaction vin1.prevout.hash with
      | none => fails "always should find CCvin, but didnt"
      | some (vinTx,_) =>
          failIf ((funcid=chr 'S' ∨ funcid=chr 'x' ∨ funcid=chr 'B' ∨ funcid=chr 'o') ∧
            W.isOrderAddress e2 funcid (W.voutAt vinTx 0).scriptPubKey=false)
            "invalid vin assets CCaddr" <|
          match W.getAssetorigaddrs e2 vinTx with
          | none => fails "couldnt get origaddr for buyvin"
          | some (origCCaddr,origaddr) =>
              failIf ((W.voutAt vinTx 0).nValue=0) "null value CCvin"
                (pure (some ⟨(W.voutAt vinTx 0).nValue,vinTx,origCCaddr,origaddr⟩))
  | _ => fails "not enough for CC vins"

/-- An order that is filled or canceled. -/
structure Order where
  nValue : Int
  price : Int
  origpubkey : List UInt8
  origCCaddr : String
  origaddr : String
  deriving DecidableEq

/-- The second half of `AssetValidateBuyvin`. -/
def buyvinOrder (refassetid : Uint256) (vin : CCvin) : Judged (Option Order) :=
  failIf (isPayToCryptoCondition (W.voutAt vin.vinTx 0).scriptPubKey=false)
    "invalid normal vout0 for buyvin" <|
  match decodeAssetTokenOpRet W.strayPk (lastScript vin.vinTx) with
  | none => fails "invalid opreturn for buyvin"
  | some r =>
      failIf (r.funcid=chr 'b' ∧
        isPayToCryptoCondition (W.voutAt vin.vinTx 1).scriptPubKey=false)
        "invalid normal vout1 for buyvin" <|
      failIf (r.funcid≠chr 'b' ∧ r.funcid≠chr 'B') "invalid opreturn for buyvin" <|
      failIf (refassetid≠r.assetid) "invalid assetid for buyvin"
        (pure (some ⟨vin.nValue,r.price,r.origpubkey,vin.origCCaddr,vin.origaddr⟩))

def assetValidateBuyvin (e2 funcid : UInt8) (tx : CTransaction) (refassetid : Uint256) :
    Judged (Option Order) :=
  whenSome none (W.assetValidateCCvin e2 funcid tx) (W.buyvinOrder refassetid)

/-- The op_return makes the output at this index one of the asset. -/
def validateAssetOpret (r : AssetOpRet) (v : Nat) (assetid : Uint256) : Bool :=
  if r.funcid≠chr 'E' then assetid≠0 ∧ r.assetid=assetid
  else (v<2 ∧ assetid≠0 ∧ r.assetid=assetid) ∨ (v=2 ∧ assetid≠0 ∧ r.assetid2=assetid)

/-- `IsAssetvout`, with the data that it decodes. -/
def isAssetvout (tx : CTransaction) (v : Nat) (refassetid : Uint256) : Option (Int × AssetOpRet) :=
  match conditionVout? tx v,decodeAssetTokenOpRet W.strayPk (lastScript tx) with
  | some out,some r => if validateAssetOpret r v refassetid then some (out.nValue,r) else none
  | _,_ => none

/-- The second half of `AssetValidateSellvin`. -/
def sellvinOrder (assetid : Uint256) (vin : CCvin) : Judged (Option Order) :=
  match W.isAssetvout vin.vinTx 0 assetid with
  | none => fails "invalid missing CC vout0 for sellvin"
  | some (assetoshis,r) =>
      failIf (assetoshis=0) "invalid missing CC vout0 for sellvin"
        (pure (some ⟨assetoshis,r.price,r.origpubkey,vin.origCCaddr,vin.origaddr⟩))

def assetValidateSellvin (e2 funcid : UInt8) (tx : CTransaction) (assetid : Uint256) :
    Judged (Option Order) :=
  whenSome none (W.assetValidateCCvin e2 funcid tx) (W.sellvinOrder assetid)

/-- `PreventCC`; a negative bound leaves a side unchecked, which is `none` here. -/
def preventCC (tx : CTransaction) (preventCCvins preventCCvouts : Option Nat) : Judged Bool :=
  refuseIf ((preventCCvins.elim [] tx.vin.drop).any (fun vin => W.isCCInput vin.scriptSig)=true)
    "invalid CC vin" <|
  refuseIf ((preventCCvouts.elim [] tx.vout.drop).any
    (fun out => isPayToCryptoCondition out.scriptPubKey)=true) "invalid CC vout" (pure true)

def cancelbuy (tx : CTransaction) (order : Order) : Judged Bool :=
  refuseIf (W.constrainVout (W.voutAt tx 0) false (some order.origaddr) order.nValue=false)
    "invalid refund for cancelbuy" (W.preventCC tx (some 3) (some 0))

/-- The fifth output is looked at before the number of outputs is known to allow it. -/
def fillbuy (tx : CTransaction) (r : AssetOpRet) (inputs : Int) (order : Order) : Judged Bool :=
  let vout := W.voutAt tx
  refuseIf (tx.vout.length<4) "not enough vouts for fillbuy" <|
  refuseIf (order.origpubkey≠r.origpubkey) "mismatched origpubkeys for fillbuy" <|
  refuseIf (order.nValue≠toCAmount ((vout 0).nValue+(vout 1).nValue))
    "locked value doesnt match vout0+1 fillbuy" <|
  if isPayToCryptoCondition (vout 4).scriptPubKey then
    refuseIf (W.constrainVout (vout 2) true (some order.origCCaddr) 0=false)
      "vout2 doesnt go to origpubkey fillbuy" <|
    refuseIf (inputs≠toCAmount ((vout 2).nValue+(vout 4).nValue))
      "asset inputs doesnt match vout2+3 fillbuy" (W.preventCC tx none (some 5))
  else
    refuseIf (W.constrainVout (vout 2) true (some order.origCCaddr) inputs=false)
      "vout2 doesnt match inputs fillbuy" <|
    refuseIf (W.constrainVout (vout 1) false none 0=false) "vout1 is CC for fillbuy" <|
    refuseIf (W.constrainVout (vout 3) true
      (some (W.getCCaddress EVAL_ASSETS (pubkey2pk r.origpubkey))) 10000=false)
      "invalid marker for original pubkey" <|
    refuseIf (validateBidRemainder r.price (vout 0).nValue order.nValue (vout 1).nValue
      (vout 2).nValue order.price=false) "mismatched remainder for fillbuy" <|
    refuseIf (r.price≠0 ∧
      W.constrainVout (vout 0) true (some (W.unspendableCCaddr EVAL_ASSETS)) 0=false)
      "mismatched vout0 AssetsCCaddr for fillbuy" (W.preventCC tx none (some 4))

def cancelsell (tx : CTransaction) (order : Order) : Judged Bool :=
  refuseIf (W.constrainVout (W.voutAt tx 0) true (some order.origCCaddr) order.nValue=false)
    "invalid vout for cancel" (W.preventCC tx (some 3) (some 1))

def fillsell (e2 : UInt8) (tx : CTransaction) (r : AssetOpRet) (order : Order) : Judged Bool :=
  let vout := W.voutAt tx
  refuseIf (tx.vout.length<4) "not enough vouts for fillask" <|
  refuseIf (order.origpubkey≠r.origpubkey) "mismatched origpubkeys for fillask" <|
  refuseIf (order.nValue≠toCAmount ((vout 0).nValue+(vout 1).nValue))
    "locked value doesnt match vout0+1 fillask" <|
  refuseIf (validateAskRemainder r.price (vout 0).nValue order.nValue (vout 1).nValue
    (vout 2).nValue order.price=false) "mismatched remainder for fillask" <|
  refuseIf (W.constrainVout (vout 1) true none 0=false) "normal vout1 for fillask" <|
  refuseIf (W.constrainVout (vout 2) false (some order.origaddr) 0=false)
    "normal vout1 for fillask" <|
  refuseIf (W.constrainVout (vout 3) true
    (some (W.getCCaddress EVAL_ASSETS (pubkey2pk r.origpubkey))) 10000=false)
    "invalid marker for original pubkey" <|
  refuseIf (r.price≠0 ∧ W.constrainVout (vout 0) true
    (some (W.getTokensCCaddress EVAL_ASSETS e2 (W.unspendablePk EVAL_ASSETS))) 0=false)
    "mismatched vout0 assets dual unspendable CCaddr for fill sell" (W.preventCC tx none none)

/-- The switch of `AssetsValidate`. -/
def validateAssetFuncid (e2 : UInt8) (tx : CTransaction) (r : AssetOpRet) (inputs : Int) :
    Judged Bool :=
  if r.funcid=chr 'b' then invalid "invalid asset funcid (b)"
  else if r.funcid=chr 'o' then
    whenSome false (W.assetValidateBuyvin e2 r.funcid tx r.assetid) (W.cancelbuy tx)
  else if r.funcid=chr 'B' then
    whenSome false (W.assetValidateBuyvin e2 r.funcid tx r.assetid) (W.fillbuy tx r inputs)
  else if r.funcid=chr 's' then invalid "invalid asset funcid (s)"
  else if r.funcid=chr 'x' then
    whenSome false (W.assetValidateSellvin e2 r.funcid tx r.assetid) (W.cancelsell tx)
  else if r.funcid=chr 'S' then
    whenSome false (W.assetValidateSellvin e2 r.funcid tx r.assetid) (W.fillsell e2 tx r)
  else if r.funcid=chr 'E' then invalid "unexpected assets fillexchange funcid"
  else invalid "unexpected assets funcid"

/-- The additional code after the data of the asset are read: a fungible asset leaves
what an earlier call has written. -/
def assetEvalcode2 (e2 : UInt8) (tx : CTransaction) : UInt8 :=
  match decodeAssetTokenOpRet W.strayPk (lastScript tx) with
  | none => e2
  | some r => (W.getNonfungibleData r.assetid).headD e2

/-- `AssetsValidate` with the additional code that it works with. -/
def assetsValidate (e2 : UInt8) (tx : CTransaction) : Judged Bool :=
  refuseIf (tx.vout=[]) "AssetValidate: no vouts" <|
  match decodeAssetTokenOpRet W.strayPk (lastScript tx) with
  | none => invalid "AssetValidate: invalid opreturn payload"
  | some r =>
      refuseIf (r.funcid≠chr 'o' ∧ r.funcid≠chr 'x' ∧ (W.getTransaction r.assetid).isNone)
        "cant find asset create txid" <|
      refuseIf (r.funcid≠chr 'o' ∧ r.funcid≠chr 'x' ∧ r.assetid2≠0 ∧
        (W.getTransaction r.assetid2).isNone) "cant find asset2 create txid" <|
      refuseIf ((tx.vin.head?.elim false fun vin => W.isCCInput vin.scriptSig)=true)
        "illegal asset vin0" <|
      refuseIf (tx.vout.length<2) "too few vouts" <|
      refuseIf (r.assetid=0) "illegal assetid" <|
      whenSome false (W.tokenInputs (fun vinTx n => pure (W.voutValue vinTx n r.assetid)) tx.vin 0)
        (W.validateAssetFuncid e2 tx r)

end World

end Zdeex.Cc
