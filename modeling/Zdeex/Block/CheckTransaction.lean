import Zdeex.Block.Transaction
import Zdeex.Framework.Checks

namespace Zdeex.Block

open Zdeex.Framework
open Zdeex.Coins

/-- Settings of the chain and the checks outside the coins logic. -/
structure TxRules where
  MAX_MONEY : Int
  pegscc : Bool
  ASSETCHAINS_PRIVATE : Bool
  ASSETCHAINS_TXPOW : Nat
  scpublic : Nat → Bool
  isNotaryVout : List UInt8 → Nat → Bool
  overwinterActive : Int → Bool
  saplingActive : Int → Bool
  beforeLastCheckpoint : Int → Bool
  checkCoinbaseOpret : CTransaction → Int → Bool
  signatureHashThrows : CTransaction → Int → Bool
  saplingProofError : CTransaction → Int → Option String

def MAX_TX_SIZE_BEFORE_SAPLING : Nat := 100000
def MAX_TX_SIZE_AFTER_SAPLING : Nat := 200000
def TX_EXPIRY_HEIGHT_THRESHOLD : Nat := 500000000
def DRAGON_MAXSCRIPTSIZE : Nat := 10001

section Check

variable (R : TxRules) (tiptime : Nat) (tx : CTransaction)

def checkVersion : Except String Unit :=
  if !tx.fOverwintered then reject (tx.nVersion<1) "bad-txns-version-too-low"
  else do
    reject (tx.nVersion<3) "bad-tx-overwinter-version-too-low"
    reject (tx.nVersionGroupId≠OVERWINTER_VERSION_GROUP_ID ∧
      tx.nVersionGroupId≠SAPLING_VERSION_GROUP_ID) "bad-tx-version-group-id"
    reject (TX_EXPIRY_HEIGHT_THRESHOLD≤tx.nExpiryHeight) "bad-tx-expiry-height-too-high"

/-- The loop over the outputs, with the running sum. -/
def checkOutputs : List CTxOut → Int → Except String Int
  | [],nValueOut => .ok nValueOut
  | txout::rest,nValueOut => do
      reject (txout.nValue<0) "bad-txns-vout-negative"
      reject (R.MAX_MONEY<txout.nValue) "bad-txns-vout-toolarge"
      reject (DRAGON_MAXSCRIPTSIZE<txout.scriptPubKey.length) "bad-txns-opret-too-big"
      reject (moneyRange R.MAX_MONEY (nValueOut+txout.nValue)=false) "bad-txns-txouttotal-toolarge"
      checkOutputs rest (nValueOut+txout.nValue)

/-- A private chain pays to notaries only. -/
def invalidPrivateTaddr : Bool :=
  R.ASSETCHAINS_PRIVATE && !tx.isCoinBase &&
    tx.vout.any fun txout => decide (0<txout.nValue) && !R.isNotaryVout txout.scriptPubKey tiptime

def checkValueBalance (nValueOut : Int) : Except String Unit := do
  reject (tx.vShieldedSpend=[] ∧ tx.vShieldedOutput=[] ∧ tx.valueBalance≠0)
    "bad-txns-valuebalance-nonzero"
  reject (R.scpublic tiptime ∧ (tx.vShieldedSpend≠[] ∨ tx.vShieldedOutput≠[]))
    "bad-txns-acpublic-chain"
  reject (invalidPrivateTaddr R tiptime tx ∧ tx.vShieldedSpend≠[]) "bad-txns-acprivate-chain"
  reject (R.MAX_MONEY<tx.valueBalance ∨ tx.valueBalance< -R.MAX_MONEY)
    "bad-txns-valuebalance-toolarge"
  reject (tx.valueBalance≤0 ∧ moneyRange R.MAX_MONEY (nValueOut-tx.valueBalance)=false)
    "bad-txns-txouttotal-toolarge"
  reject (invalidPrivateTaddr R tiptime tx=true) "bad-txns-acprivacy-chain"

def genesistxid : Uint256 := 0x4a5e1e4baab89f3a32518a88c31bc87f618f76673e2cc77ab2127b7afdeda33b

/-- The first and the last byte are zero. -/
def txpowEnds (txid : Uint256) : Bool :=
  (txid.toNat%256==0 && txid.toNat/2^248==0) || txid==genesistxid

def checkTxpow : Except String Unit :=
  reject (((R.ASSETCHAINS_TXPOW.testBit 1 ∧ tx.isCoinBase) ∨
    (R.ASSETCHAINS_TXPOW.testBit 0 ∧ tx.isCoinBase=false)) ∧ txpowEnds tx.hash=false)
    "bad-txns-actxpow-chain"

def checkInputs : Except String Unit := do
  reject (0≤tx.valueBalance ∧ moneyRange R.MAX_MONEY tx.valueBalance=false)
    "bad-txns-txintotal-toolarge"
  reject (¬(tx.vin.map CTxIn.prevout).Nodup) "bad-txns-inputs-duplicate"
  reject (¬(tx.vShieldedSpend.map SpendDescription.nullifier).Nodup)
    "bad-spend-description-nullifiers-duplicate"

/-- Length of the first input's script. -/
def firstScriptSize : Nat := (tx.vin.map fun txin => txin.scriptSig.length).headD 0

def checkMint : Except String Unit :=
  if tx.isMint then do
    reject (tx.vjoinsplit≠[]) "bad-cb-has-joinsplits"
    reject (tx.vShieldedSpend≠[]) "bad-cb-has-spend-description"
    reject (tx.vShieldedOutput≠[]) "bad-cb-has-output-description"
    reject (firstScriptSize tx<2 ∨ 100<firstScriptSize tx) "bad-cb-length"
  else reject (tx.vin.any fun txin => txin.prevout.isNull) "bad-txns-prevout-null"

def checkTransaction : Except String Unit := do
  checkVersion tx
  reject (tx.vin=[] ∧ tx.vShieldedSpend=[]) "bad-txns-vin-empty"
  reject (tx.vout=[] ∧ tx.vShieldedOutput=[]) "bad-txns-vout-empty"
  reject (MAX_TX_SIZE_AFTER_SAPLING<tx.serializeSize) "bad-txns-oversize"
  let nValueOut ← checkOutputs R tx.vout 0
  checkValueBalance R tiptime tx nValueOut
  checkTxpow R tx
  checkInputs R tx
  checkMint tx

def isExpiredTx (nBlockHeight : Int) : Bool :=
  !(tx.nExpiryHeight==0 || tx.isCoinBase) && decide ((tx.nExpiryHeight : Int)<nBlockHeight%2^32)

def checkUpgrades (nHeight : Int) : Except String Unit := do
  reject (R.overwinterActive nHeight=false ∧ tx.fOverwintered) "tx-overwinter-not-active"
  if R.saplingActive nHeight then do
    reject (4≤tx.nVersion ∧ tx.fOverwintered=false) "tx-overwintered-flag-not-set"
    reject (tx.fOverwintered ∧ tx.nVersionGroupId≠SAPLING_VERSION_GROUP_ID)
      "bad-sapling-tx-version-group-id"
    reject (tx.fOverwintered ∧ tx.nVersion<4) "bad-tx-sapling-version-too-low"
    reject (tx.fOverwintered ∧ 4<tx.nVersion) "bad-tx-sapling-version-too-high"
  else if R.overwinterActive nHeight then do
    reject (3≤tx.nVersion ∧ tx.fOverwintered=false) "tx-overwinter-flag-not-set"
    reject (tx.fOverwintered ∧ tx.nVersionGroupId≠OVERWINTER_VERSION_GROUP_ID)
      "bad-overwinter-tx-version-group-id"
    reject (tx.fOverwintered ∧ 3<tx.nVersion) "bad-tx-overwinter-version-too-high"
  else .ok ()

/-- The proofs are not checked before the last checkpoint. -/
def checkShielded (nHeight : Int) : Except String Unit :=
  if R.beforeLastCheckpoint nHeight then .ok ()
  else if tx.vShieldedSpend=[] ∧ tx.vShieldedOutput=[] then .ok ()
  else
    match R.saplingProofError tx nHeight with
    | none => .ok ()
    | some reason => .error reason

def contextualCheckTransaction (nHeight : Int) : Except String Unit := do
  checkUpgrades R tx nHeight
  reject (R.overwinterActive nHeight ∧ tx.fOverwintered=false) "tx-overwinter-active"
  reject (R.overwinterActive nHeight ∧ isExpiredTx tx nHeight) "tx-overwinter-expired"
  reject (R.saplingActive nHeight=false ∧ MAX_TX_SIZE_BEFORE_SAPLING<tx.serializeSize)
    "bad-txns-oversize"
  reject (tx.isMint=false ∧ (tx.vjoinsplit≠[] ∨ tx.vShieldedSpend≠[] ∨ tx.vShieldedOutput≠[]) ∧
    R.signatureHashThrows tx nHeight) "error-computing-signature-hash"
  reject (tx.isCoinBase ∧ R.checkCoinbaseOpret tx nHeight=false)
    "bad-txns-invalid-script-data-for-coinbase-time-lock"
  checkShielded R tx nHeight

end Check

/-- What the coins code relies on in a transaction that passed its checks. -/
structure Checked (R : TxRules) (tx : CTransaction) : Prop where
  version : 1≤tx.nVersion
  vin : tx.vin.length≤MAX_TX_SIZE_AFTER_SAPLING
  vout : ∀o∈tx.vout,0≤o.nValue ∧ o.nValue≤R.MAX_MONEY
  prevouts : (tx.vin.map CTxIn.prevout).Nodup
  nullifiers : (tx.vShieldedSpend.map SpendDescription.nullifier).Nodup
  mint : tx.isMint=true → tx.vjoinsplit=[] ∧ tx.vShieldedSpend=[] ∧ tx.vShieldedOutput=[]
  balance : tx.vShieldedSpend=[] → tx.vShieldedOutput=[] → tx.valueBalance=0

theorem checkOutputs_mem {R : TxRules} {vout : List CTxOut} {a s : Int}
    (h : checkOutputs R vout a=.ok s) : ∀o∈vout,0≤o.nValue ∧ o.nValue≤R.MAX_MONEY := by
  induction vout generalizing a with
  | nil => simp
  | cons o vout ih =>
    simp only [checkOutputs,bind_ok,reject_ok] at h
    obtain ⟨-,hneg,-,hlarge,-,-,-,-,hrest⟩ := h
    intro p hp
    rcases List.mem_cons.mp hp with rfl | hp
    · exact ⟨by omega,by omega⟩
    · exact ih hrest p hp

theorem checkVersion_ok {tx : CTransaction} (h : checkVersion tx=.ok ()) : 1≤tx.nVersion := by
  unfold checkVersion at h
  split_ifs at h
  · rw [reject_ok] at h
    omega
  · simp only [bind_ok,reject_ok] at h
    obtain ⟨-,hlow,-⟩ := h
    omega

theorem checkMint_ok {tx : CTransaction} (h : checkMint tx=.ok ()) (hmint : tx.isMint=true) :
    tx.vjoinsplit=[] ∧ tx.vShieldedSpend=[] ∧ tx.vShieldedOutput=[] := by
  rw [checkMint,if_pos hmint] at h
  simp only [bind_ok,reject_ok,not_not] at h
  obtain ⟨-,hjs,-,hspend,-,hout,-⟩ := h
  exact ⟨hjs,hspend,hout⟩

theorem checkTransaction_ok {R : TxRules} {tiptime : Nat} {tx : CTransaction}
    (h : checkTransaction R tiptime tx=.ok ()) : Checked R tx := by
  simp only [checkTransaction,bind_ok,reject_ok] at h
  obtain ⟨_,hversion,_,-,_,-,_,hsize,nValueOut,hout,_,hbalance,_,-,_,hinputs,hmint⟩ := h
  simp only [checkInputs,bind_ok,reject_ok,not_not] at hinputs
  obtain ⟨-,-,-,hprevouts,hnullifiers⟩ := hinputs
  simp only [checkValueBalance,bind_ok,reject_ok] at hbalance
  obtain ⟨-,hzero,-⟩ := hbalance
  have hvin := tx.length_vin_le
  refine ⟨checkVersion_ok hversion,by omega,checkOutputs_mem hout,hprevouts,hnullifiers,
    checkMint_ok hmint,?_⟩
  intro hspend houtput
  by_contra hne
  exact hzero ⟨hspend,houtput,hne⟩

end Zdeex.Block
