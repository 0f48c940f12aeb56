import Mathlib.Tactic.Common
import Zdeex.Cc.Rewards
import Zdeex.Cc.TokenImport

namespace Zdeex.Cc

open Zdeex.Framework
open Zdeex.Coins
open Zdeex.Block
open Zdeex.Crosschain

def OPRETID_BURNDATA : UInt8 := 0x80
def OPRETID_IMPORTDATA : UInt8 := 0x81
def HUSH_FIRSTFUNGIBLEID : Nat := 100
def IMPORT_TXFEE : Int := 10000

def writeVector8 (v : List UInt8) : List UInt8 :=
  (writeCompactSize v.length).map UInt8.ofBitVec++v

/-- `EncodeTokenCreateOpRet`; data with id 0 are left out. -/
def encodeTokenCreateOpRet (create : TokenCreate) : List UInt8 :=
  0x6a::pushData ([EVAL_TOKENS,chr 'c']++writeVector8 create.origpubkey++
    writeVector8 create.name++writeVector8 create.description++
    (create.oprets.filter (·.1≠0)).flatMap fun o => o.1::writeVector8 o.2)

/-- Activation heights, where -1 is never, and the delta of expiry heights. -/
structure Upgrades where
  superlite : Bool
  overwinter : Int
  sapling : Int
  expiryDelta : Nat

def networkUpgradeActive (nActivationHeight nHeight : Int) : Bool :=
  decide (nActivationHeight≠ -1 ∧ nActivationHeight ≤ nHeight)

/-- `CreateNewContextualCMutableTransaction`: an empty transaction of the version
that the height asks for. -/
def createNewContextual (U : Upgrades) (nHeight : Int) : CTransaction :=
  let mtx : CTransaction := ⟨0,false,1,0,[],[],0,0,[],[],[]⟩
  if U.superlite then
    {mtx with fOverwintered := true,nVersionGroupId := SAPLING_VERSION_GROUP_ID,nVersion := 4}
  else if networkUpgradeActive U.overwinter nHeight then
    let nExpiryHeight := ((nHeight+U.expiryDelta)%2^32).toNat
    if networkUpgradeActive U.sapling nHeight then
      {mtx with
        fOverwintered := true,nExpiryHeight := nExpiryHeight
        nVersionGroupId := SAPLING_VERSION_GROUP_ID,nVersion := 4}
    else
      {mtx with
        fOverwintered := true
        nExpiryHeight := min nExpiryHeight ((U.sapling-1)%2^32).toNat
        nVersionGroupId := OVERWINTER_VERSION_GROUP_ID,nVersion := 3}
  else mtx

/-- Serializations and hashes that the import uses. The import data are a code, a
proof and a burn transaction. -/
structure ImportCodec where
  getHash : CTransaction → Uint256
  marshalImport : ImportProof → CTransaction → List UInt8
  unmarshalImport : List UInt8 → Option (ImportProof × CTransaction)
  unmarshalTokenProof : List UInt8 → Option (String × CTransaction)
  serializeHash : List CTxOut → Uint256

/-- What is committed in a burn. -/
structure BurnOpRet where
  targetCCid : Nat
  targetSymbol : String
  payoutsHash : Uint256
  rawproof : List UInt8
  deriving DecidableEq

/-- Imports that are not proved by a notarization: the checks of the gateways, and
whether their ports are set. -/
structure Gateways where
  ASSETCHAINS_BEAMPORT : Nat
  ASSETCHAINS_CODAPORT : Nat
  checkBEAMimport : TxProof → List UInt8 → CTransaction → List CTxOut → Bool
  checkCODAimport : CTransaction → CTransaction → List CTxOut → Bool
  checkPUBKEYimport : TxProof → List UInt8 → CTransaction → List CTxOut → Bool
  checkGATEWAYimport : CTransaction → CTransaction → String → List UInt8 → Bool

/-- The node that checks an import. -/
structure ImportNode where
  codec : ImportCodec
  upgrades : Upgrades
  nextheight : Int
  ASSETCHAINS_SELFIMPORT : String
  ASSETCHAINS_CC : Nat
  symbol : String
  chain : NotarizedChain
  gateways : Gateways

/-- A transaction with its id. -/
def ImportCodec.withId (D : ImportCodec) (mtx : CTransaction) : CTransaction :=
  {mtx with hash := D.getHash mtx}

/-- The outputs of an import: the import data go behind the payouts, or into the
op_return of a token. -/
def importVouts (payouts : List CTxOut) (importData : List UInt8) : List CTxOut :=
  let script := (payouts.getLast?.map CTxOut.scriptPubKey).getD []
  if opretData script=[] then payouts++[⟨0,0x6a::pushData importData⟩]
  else
    match decodeTokenCreateOpRet script with
    | none => payouts
    | some create =>
        payouts.dropLast++[⟨0,encodeTokenCreateOpRet
          {create with oprets := create.oprets++[(OPRETID_IMPORTDATA,importData)]}⟩]

/-- The input of an import. -/
def importVin (burnTx : CTransaction) : CTxIn :=
  ⟨⟨burnTx.hash,CTransaction.importMarker⟩,pushData [EVAL_IMPORTCOIN]⟩

namespace ImportNode

variable (N : ImportNode)

def pegscc : Bool := N.ASSETCHAINS_SELFIMPORT=="PEGSCC"

def makeImportCoinTransaction (proof : ImportProof) (burnTx : CTransaction)
    (payouts : List CTxOut) (nExpiryHeightOverride : Nat) : CTransaction :=
  let mtx := createNewContextual N.upgrades N.nextheight
  let nExpiryHeight := if mtx.fOverwintered then 0 else mtx.nExpiryHeight
  if payouts=[] then N.codec.withId {mtx with nExpiryHeight := nExpiryHeight}
  else
    N.codec.withId {mtx with
      vin := [importVin burnTx]
      nExpiryHeight := if nExpiryHeightOverride≠0 then nExpiryHeightOverride else nExpiryHeight
      vout := importVouts payouts (N.codec.marshalImport proof burnTx)}

/-- The payouts and the import data of an import, by its op_return. -/
def importParts (importTx : CTransaction) : Option (List CTxOut × List UInt8) :=
  match opretData (lastScript importTx) with
  | [] => none
  | evalcode::data =>
      if evalcode=EVAL_TOKENS then
        (decodeTokenCreateOpRet (lastScript importTx)).map fun create =>
          (importTx.vout.dropLast++[⟨0,encodeTokenCreateOpRet
            {create with oprets := create.oprets.eraseP (·.1=OPRETID_IMPORTDATA)}⟩],
            getOpretBlob create.oprets OPRETID_IMPORTDATA)
      else some (importTx.vout.dropLast,evalcode::data)

def unmarshalImportTx (importTx : CTransaction) :
    Option (ImportProof × CTransaction × List CTxOut) :=
  if importTx.vout=[] then none
  else if (importTx.isPegsImport N.pegscc=false ∧ importTx.vin.length≠1) ∨
      importTx.vin.head?.map CTxIn.scriptSig≠some (pushData [EVAL_IMPORTCOIN]) then none
  else
    match importParts importTx with
    | none => none
    | some (payouts,importData) =>
        (N.codec.unmarshalImport importData).map fun p => (p.1,p.2,payouts)

end ImportNode

def readBurnOpRet : Reader BurnOpRet := do
  let _ ← readUInt8
  let targetCCid ← readVarInt 32
  let targetSymbol ← readVector8
  let payoutsHash ← Reader.word 256
  let rawproof ← readVector8
  return ⟨targetCCid,textOf targetSymbol,payoutsHash,rawproof⟩

/-- The end of `UnmarshalBurnTx`; more data may follow what is read. -/
def decodeBurnOpRet (vburnOpret : List UInt8) : Option BurnOpRet :=
  if vburnOpret.head?=some EVAL_IMPORTCOIN then
    (readBurnOpRet (vburnOpret.map UInt8.toBitVec)).map Prod.fst
  else none

/-- The value of the last output, where a burn puts the coins. -/
def burnAmount (burnTx : CTransaction) : Int := (burnTx.vout.getLast?.map CTxOut.nValue).getD 0

/-- Outputs of an import that are not under a condition. -/
def normalOutputs (importTx : CTransaction) : Int :=
  sumCAmount ((importTx.vout.filter fun v =>
    !isPayToCryptoCondition v.scriptPubKey).map CTxOut.nValue)

namespace World

variable (W : World) (N : ImportNode)

def unmarshalBurnTx (burnTx : CTransaction) : Option BurnOpRet :=
  match opretData (lastScript burnTx) with
  | [] => none
  | evalcode::data =>
      if evalcode=EVAL_TOKENS then
        match decodeTokenOpRet W.strayPk (lastScript burnTx) with
        | none => none
        | some r =>
            if r.funcId=chr 't' then decodeBurnOpRet (getOpretBlob r.oprets OPRETID_BURNDATA)
            else none
      else decodeBurnOpRet (evalcode::data)

/-- Outputs of a burn to the burn key, for tokens with this code. -/
def burnedTokens (burnTx : CTransaction) (evalcode : UInt8) : List Int :=
  (burnTx.vout.filter fun v => isPayToCryptoCondition v.scriptPubKey &&
    v==W.makeTokensCC1vout evalcode 0 v.nValue W.burnPk).map CTxOut.nValue

def getCoinImportValue (tx : CTransaction) : Int :=
  match N.unmarshalImportTx tx with
  | none => 0
  | some (_,burnTx,_) =>
      match opretData (lastScript burnTx) with
      | [] => 0
      | evalcode::_ =>
          if evalcode=EVAL_TOKENS then
            match decodeTokenOpRet W.strayPk (lastScript tx) with
            | none => 0
            | some r =>
                toCAmount (sumCAmount (W.burnedTokens burnTx (nonfungibleEvalCode r))+
                  burnAmount burnTx)
          else burnAmount burnTx

/-- `GetValueIn` on a chain without Pegs imports. -/
def getValueInOf (site : Site) (tx : CTransaction) : Int :=
  if tx.isCoinImport then W.getCoinImportValue N tx
  else if tx.isCoinBase then 0
  else W.getValueIn site tx

/-- The branch of `ImportCoin` for the reserved chain id. -/
def checkGateway (importTx burnTx : CTransaction) (payouts : List CTxOut) (proof : ImportProof)
    (burn : BurnOpRet) : Judged Bool :=
  let G := N.gateways
  match proof with
  | .merkleBranch p =>
      if burn.targetSymbol="BEAM" then
        refuseIf (G.ASSETCHAINS_BEAMPORT=0) "BEAM-import-without-port" <|
        refuseIf (G.checkBEAMimport p burn.rawproof burnTx payouts=false) "BEAM-import-failure"
          (pure true)
      else if burn.targetSymbol="CODA" then
        refuseIf (G.ASSETCHAINS_CODAPORT=0) "CODA-import-without-port" <|
        refuseIf (G.checkCODAimport importTx burnTx payouts=false) "CODA-import-failure" (pure true)
      else if burn.targetSymbol="PEGSCC" then
        refuseIf (N.ASSETCHAINS_SELFIMPORT≠"PEGSCC") "PEGSCC-import-when-not PEGSCC" (pure true)
      else if burn.targetSymbol="PUBKEY" then
        refuseIf (N.ASSETCHAINS_SELFIMPORT≠"PUBKEY") "PUBKEY-import-when-not PUBKEY" <|
        refuseIf (G.checkPUBKEYimport p burn.rawproof burnTx payouts=false) "PUBKEY-import-failure"
          (pure true)
      else
        refuseIf (burn.targetSymbol≠N.ASSETCHAINS_SELFIMPORT) "invalid-gateway-import-coin" <|
        refuseIf (G.checkGATEWAYimport importTx burnTx burn.targetSymbol burn.rawproof=false)
          "GATEWAY-import-failure" (pure true)
  | _ => invalid "invalid-import-proof-for-0xFFFFFFFF"

/-- `CheckMigration`, whose errors are recorded. -/
def judgeMigration (importTx burnTx : CTransaction) (proof : ImportProof)
    (rawproof : List UInt8) : Judged Bool :=
  match checkMigration (W.tokens N.codec.unmarshalTokenProof) N.chain importTx burnTx proof
    rawproof with
  | .ok _ => pure true
  | .error e => invalid e

/-- `ImportCoin` for a burn that was read. -/
def checkBurn (importTx burnTx : CTransaction) (payouts : List CTxOut) (proof : ImportProof)
    (burn : BurnOpRet) : Judged Bool :=
  refuseIf (burnTx.vout=[]) "invalid-burn-tx-no-vouts" <|
  refuseIf (burnAmount burnTx=0) "invalid-burn-amount" <|
  refuseIf (burnAmount burnTx<normalOutputs importTx ∨
    normalOutputs importTx<toCAmount (burnAmount burnTx-IMPORT_TXFEE)) "payout-too-high-or-too-low" <|
  refuseIf (burn.payoutsHash≠N.codec.serializeHash payouts) "wrong-payouts" <|
  refuseIf (burn.targetCCid<HUSH_FIRSTFUNGIBLEID) "chain-not-fungible" <|
  if burn.targetCCid≠0xffffffff then
    refuseIf (burn.targetCCid≠N.ASSETCHAINS_CC ∨ burn.targetSymbol≠N.symbol)
      "importcoin-wrong-chain" (W.judgeMigration N importTx burnTx proof burn.rawproof)
  else checkGateway N importTx burnTx payouts proof burn

/-- `Eval::ImportCoin`. The transaction is made again and has to have the same id. -/
def importCoin (importTx : CTransaction) : Judged Bool :=
  refuseIf (importTx.vout.length<2) "too-few-vouts" <|
  match N.unmarshalImportTx importTx with
  | none => invalid "invalid-params"
  | some (proof,burnTx,payouts) =>
      refuseIf (N.ASSETCHAINS_SELFIMPORT≠"PEGSCC" ∧
        (N.makeImportCoinTransaction proof burnTx payouts importTx.nExpiryHeight).hash≠
          importTx.hash) "non-canonical" <|
      match W.unmarshalBurnTx burnTx with
      | none => invalid "invalid-burn-tx"
      | some burn => W.checkBurn N importTx burnTx payouts proof burn

end World

end Zdeex.Cc
