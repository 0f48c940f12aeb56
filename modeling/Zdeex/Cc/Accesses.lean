import Zdeex.Cc.FillPrice
import Zdeex.Cc.TokenSupply
import Zdeex.Framework.Crashing

namespace Zdeex.Cc.Accesses

open Zdeex.Framework
open Zdeex.Framework.Crashing
open Zdeex.Coins
open Zdeex.Block
open Zdeex.Crosschain

variable (W : World)

section Tokens

def normalInput (pubkey : CPubKey) (vin : CTxIn) : Crashing Int :=
  if W.isCCInput vin.scriptSig then steady (pure 0)
  else
    match W.getTransaction vin.prevout.hash with
    | none => steady (pure 0)
    | some (vintx,_) =>
        needing (vin.prevout.n<vintx.vout.length) (steady (pure (W.normalInput pubkey vin)))

/-- `TotalPubkeyNormalInputs`. -/
def totalNormalInputs (pubkey : CPubKey) : List CTxIn → Crashing Int
  | [] => steady (pure 0)
  | vin::rest => do
      let value ← normalInput W pubkey vin
      let total ← totalNormalInputs pubkey rest
      return value+total

/-- The inputs of a creation are summed up before its output is looked at. -/
def createdValue (tx : CTransaction) (out : CTxOut) : Crashing Int :=
  if tx.isCoinImport then steady (pure (W.createdValue tx out))
  else
    match decodeTokenCreateOpRet (lastScript tx) with
    | none => steady (pure 0)
    | some create => do
        let normalInputs ← totalNormalInputs W (pubkey2pk create.origpubkey) tx.vin
        return if W.ccOutputs tx ≤ normalInputs then
          if W.isTokenMarkerVout out then 0 else out.nValue
        else 0

/-- `voutPubkeys[0]` is read for the outputs that a key shares with the one of a contract. -/
def opretValue (tx : CTransaction) (out : CTxOut) (reftokenid : Uint256) : Crashing Int :=
  match W.validateTokenOpret tx reftokenid with
  | none => steady (pure 0)
  | some r =>
      if r.funcId=chr 'c' then createdValue W tx out
      else
        let voutPubkeys := W.filterOutTokensUnspendablePk r.voutPubkeys
        needing (0<voutPubkeys.length)
          (steady (pure (if out∈W.testVouts tx r reftokenid out.nValue then out.nValue else 0)))

/-- `IsTokensvout` that does not go deeper; the index is checked first. -/
def voutValue (tx : CTransaction) (v : Nat) (reftokenid : Uint256) : Crashing Int :=
  match World.conditionVout? tx v with
  | none => steady (pure 0)
  | some out => opretValue W tx out reftokenid

/-- `logs` says that the value of each spent output is printed. -/
def tokenInputs (logs : Bool) (value : CTransaction → Nat → Crashing Int) :
    List CTxIn → Int → Crashing (Option Int)
  | [],inputs => steady (pure (some inputs))
  | vin::rest,inputs =>
      if W.ismyvin EVAL_TOKENS vin.scriptSig then
        match W.getTransaction vin.prevout.hash with
        | none => fails "always should find vin tx, but didnt"
        | some (vinTx,_) =>
            needing (logs=true → vin.prevout.n<vinTx.vout.length) do
              let tokenoshis ← value vinTx vin.prevout.n
              tokenInputs logs value rest (inputs+tokenoshis)
      else tokenInputs logs value rest inputs

def tokenOutputs (tx : CTransaction) (reftokenid : Uint256) : List Nat → Crashing Int
  | [] => steady (pure 0)
  | v::vs => do
      let tokenoshis ← voutValue W tx v reftokenid
      let outputs ← tokenOutputs tx reftokenid vs
      return tokenoshis+outputs

def exactAmounts (value : CTransaction → Nat → Crashing Int) (tx : CTransaction)
    (reftokenid : Uint256) : Crashing (Option (Int × Int)) :=
  whenSome none (tokenInputs W true value tx.vin 0) fun inputs => do
    let outputs ← tokenOutputs W tx reftokenid (List.range (tx.vout.length-1))
    return some (inputs,outputs)

def isTokensvout (goDeeper : Bool) (reftokenid : Uint256) (tx : CTransaction) (v : Nat) :
    Crashing Int :=
  if goDeeper then
    match World.conditionVout? tx v with
    | none => steady (pure 0)
    | some out => do
        let amounts ← exactAmounts W (fun vinTx n => voutValue W vinTx n reftokenid) tx reftokenid
        if World.isEqual amounts=false ∧ reftokenid≠tx.hash then steady (pure 0)
        else opretValue W tx out reftokenid
  else voutValue W tx v reftokenid

def tokensExactAmounts (goDeeper : Bool) (tx : CTransaction) (reftokenid : Uint256) :
    Crashing (Option (Int × Int)) :=
  exactAmounts W (isTokensvout W goDeeper reftokenid) tx reftokenid

def tokensValidate (site : Site) (tx : CTransaction) : Crashing Bool :=
  if site.AcceptsAll then steady (pure true)
  else refuseIf (tx.vout=[]) "no vouts" <|
    match decodeTokenOpRet W.strayPk (lastScript tx) with
    | none => invalid "TokenValidate: invalid opreturn payload"
    | some r =>
        refuseIf ((W.getTransaction r.tokenid).isNone) "cant find token create txid" <|
        if r.funcId=chr 'c' then steady (W.validateFuncid tx r 0)
        else refuseIf (r.tokenid=0) "illegal tokenid" do
          let amounts ← tokensExactAmounts W true tx r.tokenid
          steady (W.validateAmounts tx r amounts)

end Tokens

section Assets

def divide (a b : Int) : Crashing Int := needing (b≠0) (steady (pure (a.tdiv b)))

/-- The unit price of what remains is only printed. -/
def newunitprice (c : Prop) [Decidable c] (a b : Int) : Crashing Int :=
  if c then divide a b else steady (pure 0)

def validateBidRemainder (remaining_units remaining_nValue orig_nValue received_nValue paidunits
    totalunits : Int) : Crashing Bool :=
  if validateRemainder remaining_units remaining_nValue orig_nValue received_nValue paidunits
      totalunits=false then steady (pure false)
  else do
    let unitprice ← divide orig_nValue totalunits
    let recvunitprice ← divide received_nValue paidunits
    let _ ← newunitprice (remaining_units≠0) remaining_nValue remaining_units
    return !decide (recvunitprice<unitprice)

/-- What is tested is not what is divided by. -/
def validateAskRemainder (remaining_nValue remaining_assetoshis orig_assetoshis
    received_assetoshis paid_nValue total_nValue : Int) : Crashing Bool :=
  if validateRemainder remaining_nValue remaining_assetoshis orig_assetoshis received_assetoshis
      paid_nValue total_nValue=false then steady (pure false)
  else do
    let unitprice ← divide total_nValue orig_assetoshis
    let recvunitprice ← divide paid_nValue received_assetoshis
    let _ ← newunitprice (remaining_nValue≠0) remaining_nValue remaining_assetoshis
    return !decide (recvunitprice<unitprice)

/-- The funcids that spend an order. -/
def spendsOrder (funcid : UInt8) : Bool :=
  funcid=chr 'S' ∨ funcid=chr 'x' ∨ funcid=chr 'B' ∨ funcid=chr 'o'

def assetValidateCCvin (e2 funcid : UInt8) (tx : CTransaction) : Crashing (Option World.CCvin) :=
  match tx.vin with
  | _::vin1::_ =>
      failIf (vin1.prevout.n≠0) "vin1 needs to be buyvin.vout[0]" <|
      match W.getTransaction vin1.prevout.hash with
      | none => fails "always should find CCvin, but didnt"
      | some (vinTx,_) =>
          needing (spendsOrder funcid=true → 0<vinTx.vout.length) <|
          failIf ((funcid=chr 'S' ∨ funcid=chr 'x' ∨ funcid=chr 'B' ∨ funcid=chr 'o') ∧
            W.isOrderAddress e2 funcid (W.voutAt vinTx 0).scriptPubKey=false)
            "invalid vin assets CCaddr" <|
          match W.getAssetorigaddrs e2 vinTx with
          | none => fails "couldnt get origaddr for buyvin"
          | some (origCCaddr,origaddr) =>
              needing (0<vinTx.vout.length) <|
              failIf ((W.voutAt vinTx 0).nValue=0) "null value CCvin"
                (steady (pure (some ⟨(W.voutAt vinTx 0).nValue,vinTx,origCCaddr,origaddr⟩)))
  | _ => fails "not enough for CC vins"

def buyvinOrder (refassetid : Uint256) (vin : World.CCvin) : Crashing (Option World.Order) :=
  needing (0<vin.vinTx.vout.length) <|
  failIf (isPayToCryptoCondition (W.voutAt vin.vinTx 0).scriptPubKey=false)
    "invalid normal vout0 for buyvin" <|
  match decodeAssetTokenOpRet W.strayPk (lastScript vin.vinTx) with
  | none => fails "invalid opreturn for buyvin"
  | some r =>
      needing (r.funcid=chr 'b' → 1<vin.vinTx.vout.length) <|
      failIf (r.funcid=chr 'b' ∧
        isPayToCryptoCondition (W.voutAt vin.vinTx 1).scriptPubKey=false)
        "invalid normal vout1 for buyvin" <|
      failIf (r.funcid≠chr 'b' ∧ r.funcid≠chr 'B') "invalid opreturn for buyvin" <|
      failIf (refassetid≠r.assetid) "invalid assetid for buyvin"
        (steady (pure (some ⟨vin.nValue,r.price,r.origpubkey,vin.origCCaddr,vin.origaddr⟩)))

def assetValidateBuyvin (e2 funcid : UInt8) (tx : CTransaction) (refassetid : Uint256) :
    Crashing (Option World.Order) :=
  whenSome none (assetValidateCCvin W e2 funcid tx) (buyvinOrder W refassetid)

/-- `IsAssetvout` checks the index first. -/
def assetValidateSellvin (e2 funcid : UInt8) (tx : CTransaction) (assetid : Uint256) :
    Crashing (Option World.Order) :=
  whenSome none (assetValidateCCvin W e2 funcid tx) fun vin => steady (W.sellvinOrder assetid vin)

def fillbuy (tx : CTransaction) (r : AssetOpRet) (inputs : Int) (order : World.Order) :
    Crashing Bool :=
  let vout := W.voutAt tx
  refuseIf (tx.vout.length<4) "not enough vouts for fillbuy" <|
  refuseIf (order.origpubkey≠r.origpubkey) "mismatched origpubkeys for fillbuy" <|
  needing (1<tx.vout.length) <|
  refuseIf (order.nValue≠toCAmount ((vout 0).nValue+(vout 1).nValue))
    "locked value doesnt match vout0+1 fillbuy" <|
  needing (4<tx.vout.length) <|
  if isPayToCryptoCondition (vout 4).scriptPubKey then
    refuseIf (W.constrainVout (vout 2) true (some order.origCCaddr) 0=false)
      "vout2 doesnt go to origpubkey fillbuy" <|
    refuseIf (inputs≠toCAmount ((vout 2).nValue+(vout 4).nValue))
      "asset inputs doesnt match vout2+3 fillbuy" (steady (W.preventCC tx none (some 5)))
  else
    refuseIf (W.constrainVout (vout 2) true (some order.origCCaddr) inputs=false)
      "vout2 doesnt match inputs fillbuy" <|
    refuseIf (W.constrainVout (vout 1) false none 0=false) "vout1 is CC for fillbuy" <|
    refuseIf (W.constrainVout (vout 3) true
      (some (W.getCCaddress EVAL_ASSETS (pubkey2pk r.origpubkey))) 10000=false)
      "invalid marker for original pubkey" do
    let remainder ← validateBidRemainder r.price (vout 0).nValue order.nValue (vout 1).nValue
      (vout 2).nValue order.price
    refuseIf (remainder=false) "mismatched remainder for fillbuy" <|
      refuseIf (r.price≠0 ∧
        W.constrainVout (vout 0) true (some (W.unspendableCCaddr EVAL_ASSETS)) 0=false)
        "mismatched vout0 AssetsCCaddr for fillbuy" (steady (W.preventCC tx none (some 4)))

def fillsell (e2 : UInt8) (tx : CTransaction) (r : AssetOpRet) (order : World.Order) :
    Crashing Bool :=
  let vout := W.voutAt tx
  refuseIf (tx.vout.length<4) "not enough vouts for fillask" <|
  refuseIf (order.origpubkey≠r.origpubkey) "mismatched origpubkeys for fillask" <|
  needing (3<tx.vout.length) <|
  refuseIf (order.nValue≠toCAmount ((vout 0).nValue+(vout 1).nValue))
    "locked value doesnt match vout0+1 fillask" do
  let remainder ← validateAskRemainder r.price (vout 0).nValue order.nValue (vout 1).nValue
    (vout 2).nValue order.price
  refuseIf (remainder=false) "mismatched remainder for fillask" <|
    refuseIf (W.constrainVout (vout 1) true none 0=false) "normal vout1 for fillask" <|
    refuseIf (W.constrainVout (vout 2) false (some order.origaddr) 0=false)
      "normal vout1 for fillask" <|
    refuseIf (W.constrainVout (vout 3) true
      (some (W.getCCaddress EVAL_ASSETS (pubkey2pk r.origpubkey))) 10000=false)
      "invalid marker for original pubkey" <|
    refuseIf (r.price≠0 ∧ W.constrainVout (vout 0) true
      (some (W.getTokensCCaddress EVAL_ASSETS e2 (W.unspendablePk EVAL_ASSETS))) 0=false)
      "mismatched vout0 assets dual unspendable CCaddr for fill sell"
      (steady (W.preventCC tx none none))

def validateAssetFuncid (e2 : UInt8) (tx : CTransaction) (r : AssetOpRet) (inputs : Int) :
    Crashing Bool :=
  if r.funcid=chr 'b' then invalid "invalid asset funcid (b)"
  else if r.funcid=chr 'o' then
    whenSome false (assetValidateBuyvin W e2 r.funcid tx r.assetid) fun order =>
      needing (0<tx.vout.length) (steady (W.cancelbuy tx order))
  else if r.funcid=chr 'B' then
    whenSome false (assetValidateBuyvin W e2 r.funcid tx r.assetid) (fillbuy W tx r inputs)
  else if r.funcid=chr 's' then invalid "invalid asset funcid (s)"
  else if r.funcid=chr 'x' then
    whenSome false (assetValidateSellvin W e2 r.funcid tx r.assetid) fun order =>
      needing (0<tx.vout.length) (steady (W.cancelsell tx order))
  else if r.funcid=chr 'S' then
    whenSome false (assetValidateSellvin W e2 r.funcid tx r.assetid) (fillsell W e2 tx r)
  else if r.funcid=chr 'E' then invalid "unexpected assets fillexchange funcid"
  else invalid "unexpected assets funcid"

/-- The outputs that `AssetCalcAmounts` sums up are not used, and `IsAssetvout` checks
their indices. -/
def assetsValidate (e2 : UInt8) (tx : CTransaction) : Crashing Bool :=
  refuseIf (tx.vout=[]) "AssetValidate: no vouts" <|
  match decodeAssetTokenOpRet W.strayPk (lastScript tx) with
  | none => invalid "AssetValidate: invalid opreturn payload"
  | some r =>
      refuseIf (r.funcid≠chr 'o' ∧ r.funcid≠chr 'x' ∧ (W.getTransaction r.assetid).isNone)
        "cant find asset create txid" <|
      refuseIf (r.funcid≠chr 'o' ∧ r.funcid≠chr 'x' ∧ r.assetid2≠0 ∧
        (W.getTransaction r.assetid2).isNone) "cant find asset2 create txid" <|
      refuseIf ((tx.vin.head?.elim false fun vin => W.isCCInput vin.scriptSig)=true)
        "illegal asset vin0" <|
      refuseIf (tx.vout.length<2) "too few vouts" <|
      refuseIf (r.assetid=0) "illegal assetid" <|
      whenSome false (tokenInputs W false (fun vinTx n => voutValue W vinTx n r.assetid) tx.vin 0)
        (validateAssetFuncid W e2 tx r)

end Assets

end Zdeex.Cc.Accesses
