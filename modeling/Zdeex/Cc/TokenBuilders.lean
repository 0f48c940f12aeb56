import Zdeex.Cc.BidFill
import Zdeex.Cc.TokenRoundTrip
import Zdeex.Cc.TokenSupply

namespace Zdeex.Cc

open Zdeex.Framework
open Zdeex.Coins
open Zdeex.Block
open Zdeex.Crosschain

def CC_MAXVINS : Nat := 1024

/-- An entry of the index of unspent outputs. -/
structure Unspent where
  txhash : Uint256
  index : Nat
  satoshis : Int

/-- What a builder finds in the wallet and the indexes. `strayChange` and `strayPrice` are what
lies in variables that were not set. -/
structure Wallet where
  mypubkey : List UInt8
  addNormalinputs : Int → Nat → Option (List CTxIn)
  setCCunspents : String → List Unspent
  spentInMempool : Uint256 → Nat → Bool
  signTx : CTransaction → Nat → List UInt8
  ccSig : CTransaction → Nat → CC → Option (List UInt8)
  template : CTransaction
  getHash : CTransaction → Uint256
  strayAddr : String
  strayChange : Int
  strayPrice : Int

def Wallet.mypk (wal : Wallet) : CPubKey := pubkey2pk wal.mypubkey

/-- The record of a contract; the fields that no builder here sets are empty. -/
structure CCcontract where
  evalcode : UInt8
  additionalTokensEvalcode2 : UInt8
  unspendableEvalcode2 : UInt8
  unspendablepk2 : CPubKey
  unspendableaddr2 : String

/-- `CCinit`. -/
def CCcontract.init (evalcode : UInt8) : CCcontract := ⟨evalcode,0,0,[],""⟩

/-- What `AddTokenCCInputs` returns and changes. -/
structure TokenInputs where
  cp : CCcontract
  vin : List CTxIn
  totalinputs : Int
  vopretNonfungible : List UInt8

/-- A condition that either of two keys fulfills. -/
def makeCCcond1of2 (evalcode : UInt8) (pk1 pk2 : CPubKey) : CC :=
  .threshold 2 [.eval [evalcode],sigCond [pk1,pk2]]

/-- `SetBidFillamounts` for any numbers. -/
def bidFillamounts (orig_nValue paidunits totalunits : Int) : BidFill.Fillamounts :=
  if totalunits=0 then ⟨0,0,0⟩
  else if paidunits≥totalunits then ⟨orig_nValue,0,totalunits⟩
  else
    ⟨toCAmount (paidunits*orig_nValue.tdiv totalunits),toCAmount (totalunits-paidunits),paidunits⟩

namespace World

variable (W : World) (wal : Wallet)

section Inputs

variable (cp : CCcontract) (tokenaddr : String) (tokenid : Uint256) (total : Int) (maxinputs : Nat)

/-- The loop of `AddTokenCCInputs`: inputs, their sum and their number so far. An address that
cannot be read leaves the one before. -/
def addTokenLoop (threshold : Int) (vopretNonfungible : List UInt8) :
    List Unspent → String → List CTxIn → Int → Nat → List CTxIn × Int
  | [],_,vin,totalinputs,_ => (vin,totalinputs)
  | it::rest,destaddr,vin,totalinputs,n =>
      if it.satoshis<threshold then
        addTokenLoop threshold vopretNonfungible rest destaddr vin totalinputs n
      else if vin.any fun i => i.prevout==⟨it.txhash,it.index⟩ then
        addTokenLoop threshold vopretNonfungible rest destaddr vin totalinputs n
      else
        match W.getTransaction it.txhash with
        | none => addTokenLoop threshold vopretNonfungible rest destaddr vin totalinputs n
        | some (vintx,_) =>
            let destaddr :=
              (W.getScriptAddress (W.voutAt vintx it.index).scriptPubKey).getD destaddr
            if destaddr≠tokenaddr ∧ destaddr≠W.unspendableCCaddr cp.evalcode ∧
                destaddr≠cp.unspendableaddr2 then
              addTokenLoop threshold vopretNonfungible rest destaddr vin totalinputs n
            else if 0<W.tokenAmount tokenid vintx it.index ∧
                wal.spentInMempool it.txhash it.index=false then
              if vopretNonfungible≠[] ∧ W.getNonfungibleData tokenid≠vopretNonfungible then
                addTokenLoop threshold vopretNonfungible rest destaddr vin totalinputs n
              else
                let vin :=
                  if total≠0 ∧ maxinputs≠0 then vin++[⟨⟨it.txhash,it.index⟩,[]⟩] else vin
                let totalinputs := totalinputs+it.satoshis
                if (0<total ∧ total≤totalinputs) ∨ (0 < maxinputs ∧ maxinputs≤n+1) then
                  (vin,totalinputs)
                else addTokenLoop threshold vopretNonfungible rest destaddr vin totalinputs (n+1)
            else addTokenLoop threshold vopretNonfungible rest destaddr vin totalinputs n

def addTokenCCInputs (vin : List CTxIn) (pk : CPubKey) : TokenInputs :=
  let vopretNonfungible := W.getNonfungibleData tokenid
  let cp :=
    if vopretNonfungible≠[] then {cp with additionalTokensEvalcode2 := vopretNonfungible.headD 0}
    else cp
  let tokenaddr := W.getTokensCCaddress cp.evalcode cp.additionalTokensEvalcode2 pk
  let threshold := total.tdiv (if maxinputs≠0 then maxinputs else CC_MAXVINS)
  let r := W.addTokenLoop wal cp tokenaddr tokenid total maxinputs threshold vopretNonfungible
    (wal.setCCunspents tokenaddr) wal.strayAddr vin 0 0
  ⟨cp,r.1,r.2,vopretNonfungible⟩

end Inputs

section Finalize

variable (cp : CCcontract)

/-- The addresses that `FinalizeCCTx` can sign for, in the order in which it compares them. -/
def condTable : List (String × CC) :=
  let unspendablepk := W.unspendablePk cp.evalcode
  let e2 := cp.additionalTokensEvalcode2
  [(W.getCCaddress cp.evalcode wal.mypk,makeCCcond1 cp.evalcode wal.mypk),
   (W.getTokensCCaddress cp.evalcode e2 wal.mypk,makeTokensCCcond1 cp.evalcode e2 wal.mypk),
   (W.getCCaddress EVAL_TOKENS wal.mypk,makeCCcond1 EVAL_TOKENS wal.mypk),
   (W.getCCaddress cp.evalcode unspendablepk,makeCCcond1 cp.evalcode unspendablepk),
   (W.getTokensCCaddress cp.evalcode e2 unspendablepk,
    makeTokensCCcond1 cp.evalcode e2 unspendablepk),
   (cp.unspendableaddr2,makeCCcond1 cp.unspendableEvalcode2 cp.unspendablepk2),
   ("",makeCCcond1 0 []),
   ("",makeCCcond1of2 cp.evalcode [] []),
   (W.condAddress (makeCCcond1of2 cp.evalcode unspendablepk unspendablepk),
    makeCCcond1of2 cp.evalcode unspendablepk unspendablepk),
   ("",makeTokensCCcond1of2 cp.evalcode e2 [] [])]

def condFor (destaddr : String) : Option CC :=
  ((W.condTable wal cp).find? fun p => p.1==destaddr).map Prod.snd

/-- The output that an input spends. -/
def spentOut (vin : CTxIn) : Option CTxOut :=
  match W.getTransaction vin.prevout.hash with
  | none => none
  | some (vintx,_) => vintx.vout[vin.prevout.n]?

def spendsCondition (vin : CTxIn) : Bool :=
  ((W.spentOut vin).map fun out => isPayToCryptoCondition out.scriptPubKey).getD false

/-- Of several leading normal inputs all but the first go to the end. -/
def reorderVins (vin : List CTxIn) : List CTxIn :=
  let normalvins := (vin.takeWhile fun i => !W.spendsCondition i).length
  if 1<normalvins ∧ normalvins<vin.length then
    vin.take 1++(vin.drop normalvins++(vin.take normalvins).drop 1)
  else vin

/-- The normal change; the amounts are compared without a sign. -/
def normalChange (vin : List CTxIn) (vout : List CTxOut) (txfee : Int) : List CTxOut :=
  let totalinputs := (vin.map fun i => ((W.spentOut i).map CTxOut.nValue).getD 0).sum
  let totaloutputs := (vout.map CTxOut.nValue).sum
  if (totaloutputs+2*txfee)%2^64≤totalinputs%2^64 then
    [⟨toCAmount (totalinputs-(totaloutputs+txfee)),pushData wal.mypk++[0xac]⟩]
  else []

/-- Signs one input after the other; conditions of unknown addresses cannot be signed. -/
def signLoop (mtx : CTransaction) : List CTxIn → List CTxIn → String → Option (List CTxIn)
  | [],signed,_ => some signed
  | vin::rest,signed,destaddr =>
      let tx := {mtx with vin := signed++vin::rest}
      match W.spentOut vin with
      | none => signLoop mtx rest (signed++[vin]) destaddr
      | some out =>
          if isPayToCryptoCondition out.scriptPubKey=false then
            signLoop mtx rest (signed++[{vin with scriptSig := wal.signTx tx signed.length}])
              destaddr
          else
            let destaddr := (W.getScriptAddress out.scriptPubKey).getD destaddr
            match W.condFor wal cp destaddr with
            | none => none
            | some cond =>
                match wal.ccSig tx signed.length cond with
                | none => none
                | some scriptSig =>
                    signLoop mtx rest (signed++[{vin with scriptSig := scriptSig}]) destaddr

def finalizeCCTx (vin : List CTxIn) (vout : List CTxOut) (txfee : Int) (opret : List UInt8) :
    Option CTransaction :=
  if CC_MAXVINS<vin.length then none
  else if vin.any fun i => (W.spentOut i).isNone then none
  else
    let vin := W.reorderVins vin
    let vout := vout++(W.normalChange wal vin vout txfee++
      (if opret≠[] then [⟨0,opret⟩] else []))
    let mtx := {wal.template with vin := vin,vout := vout}
    (W.signLoop wal cp mtx vin [] wal.strayAddr).map fun vin =>
      let tx := {mtx with vin := vin}
      {tx with hash := wal.getHash tx}

end Finalize

section Builders

variable (txfee : Int) (tokenid : Uint256)

/-- The fee when none is given. -/
def feeOf (txfee : Int) : Int := if txfee=0 then 10000 else txfee

/-- The tokens that a builder takes in for an amount. -/
def tokenInputsFor (vin : List CTxIn) (total : Int) : TokenInputs :=
  W.addTokenCCInputs wal (.init EVAL_TOKENS) tokenid total 60 vin wal.mypk

/-- `TokenTransfer`; no transaction is returned in the case of an error. -/
def tokenTransfer (destpubkey : List UInt8) (total : Int) : Option CTransaction :=
  if total<0 then none
  else
    (wal.addNormalinputs (feeOf txfee) 3).bind fun vin =>
      let s := W.tokenInputsFor wal tokenid vin total
      if s.totalinputs≤0 then none
      else if s.totalinputs<total then none
      else
        let destEvalCode := s.vopretNonfungible.headD EVAL_TOKENS
        let CCchange := if total<s.totalinputs then s.totalinputs-total else 0
        let vout := W.makeTokensCC1vout destEvalCode 0 total (pubkey2pk destpubkey)::
          (if CCchange≠0 then [W.makeTokensCC1vout destEvalCode 0 CCchange wal.mypk] else [])
        W.finalizeCCTx wal s.cp s.vin vout (feeOf txfee)
          (encodeTokenOpRet tokenid [pubkey2pk destpubkey] [(0,[])])

/-- `CreateSell`; the change is not set when there is none. -/
def createSell (askamount : Int) (assetid : Uint256) (pricetotal : Int) : Option CTransaction :=
  if askamount<0 ∨ pricetotal<0 then none
  else
    (wal.addNormalinputs (2*feeOf txfee) 3).bind fun vin =>
      let s := W.tokenInputsFor wal assetid vin askamount
      if s.totalinputs≤0 then none
      else if s.totalinputs<askamount then none
      else
        let e2 := s.vopretNonfungible.headD 0
        let unspendableAssetsPubkey := W.unspendablePk EVAL_ASSETS
        let CCchange :=
          if askamount<s.totalinputs then s.totalinputs-askamount else wal.strayChange
        let vout :=
          [W.makeTokensCC1vout EVAL_ASSETS e2 askamount unspendableAssetsPubkey,
           W.makeCC1vout EVAL_ASSETS (feeOf txfee) wal.mypk]++
          (if CCchange≠0 then
            [W.makeTokensCC1vout (if e2≠0 then e2 else EVAL_TOKENS) 0 CCchange wal.mypk] else [])
        W.finalizeCCTx wal s.cp s.vin vout (feeOf txfee)
          (encodeTokenOpRet assetid [unspendableAssetsPubkey]
            [(OPRETID_ASSETSDATA,encodeAssetOpRet (chr 's') 0 pricetotal wal.mypubkey)])

/-- `SetAssetOrigpubkey`: key and price of an order. -/
def setAssetOrigpubkey (tx : CTransaction) : List UInt8 × Int :=
  match decodeAssetTokenOpRet W.strayPk (lastScript tx) with
  | none => ([],wal.strayPrice)
  | some r => (r.origpubkey,r.price)

/-- `FillBuyOffer`. -/
def fillBuyOffer (assetid bidtxid : Uint256) (fillamount : Int) : Option CTransaction :=
  if fillamount<0 then none
  else
    (wal.addNormalinputs (2*feeOf txfee) 3).bind fun vin =>
      (W.getTransaction bidtxid).bind fun bid =>
        let bidamount := (W.voutAt bid.1 0).nValue
        let orig := W.setAssetOrigpubkey wal bid.1
        let s := W.tokenInputsFor wal assetid (vin++[⟨⟨bidtxid,0⟩,[]⟩]) fillamount
        if s.totalinputs≤0 then none
        else if s.totalinputs<fillamount then none
        else
          let fill := bidFillamounts bidamount fillamount orig.2
          let e2 := s.vopretNonfungible.headD 0
          let CCchange :=
            if fill.paidunits<s.totalinputs then s.totalinputs-fill.paidunits else 0
          let unspendableAssetsPk := W.unspendablePk EVAL_ASSETS
          let vout :=
            [W.makeCC1vout EVAL_ASSETS (toCAmount (bidamount-fill.received_nValue))
               unspendableAssetsPk,
             ⟨fill.received_nValue,pushData wal.mypk++[0xac]⟩,
             W.makeTokensCC1vout (if e2=0 then EVAL_TOKENS else e2) 0 fill.paidunits
               (pubkey2pk orig.1),
             W.makeCC1vout EVAL_ASSETS (feeOf txfee) (pubkey2pk orig.1)]++
            (if CCchange≠0 then [W.makeCC1vout EVAL_TOKENS CCchange wal.mypk] else [])
          let cp := {s.cp with
            unspendableEvalcode2 := EVAL_ASSETS
            unspendablepk2 := unspendableAssetsPk
            unspendableaddr2 := W.getCCaddress EVAL_ASSETS unspendableAssetsPk}
          W.finalizeCCTx wal cp s.vin vout (feeOf txfee)
            (encodeTokenOpRet assetid [pubkey2pk orig.1]
              [(OPRETID_ASSETSDATA,encodeAssetOpRet (chr 'B') 0 fill.remaining_units orig.1)])

end Builders

end World

end Zdeex.Cc
