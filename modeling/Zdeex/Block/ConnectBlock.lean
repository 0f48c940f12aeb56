import Zdeex.Block.CheckTransaction
import Zdeex.Block.CoinsView
import Zdeex.Block.Index

namespace Zdeex.Block

open Zdeex.Framework
open Zdeex.Coins

/-- A block with its hash and the fields that are read of its header. -/
structure CBlock where
  hash : Uint256
  nTime : Nat
  hashFinalSaplingRoot : Uint256
  vtx : List CTransaction
  deriving DecidableEq

/-- What is read of the index entry of a parent block. -/
structure CBlockIndex where
  hashBlock : Uint256
  nHeight : Int
  nTime : Nat
  hashFinalSaplingRoot : Uint256
  deriving DecidableEq

/-- The height of a block on top of its parent. -/
def childHeight : Option CBlockIndex → Int
  | none => 0
  | some pprev => pprev.nHeight+1

/-- Settings of the chain, and the checks that do not touch the coins view. -/
structure BlockRules (Tree : Type) extends TxRules,IndexRules where
  trees : TreeOps Tree
  hashGenesisBlock : Uint256
  HUSH_STOPAT : Int
  headerError : Option CBlockIndex → CBlock → Option String
  saplingHeight : Int
  headerSize : CBlock → Nat
  MAX_BLOCK_SIGOPS : Nat
  legacySigOps : CTransaction → Nat
  p2shSigOps : CTransaction → List CTxOut → Nat
  isFinalTx : CTransaction → Int → Nat → Bool
  startsWithHeight : CTransaction → Int → Bool
  ASSETCHAINS_TIMELOCKGTE : Nat
  blockUnlockTime : Int → Nat
  COINBASE_MATURITY : Int
  verifyScripts : CTransaction → Int → List CTxOut → Bool
  verifyCoinImport : CTransaction → Bool
  getCoinImportValue : CTransaction → Int
  getBlockSubsidy : Int → Int
  ASSETCHAINS_NOTARY_PAY : Bool
  notarizationTx : CBlock → Int → Int
  checkNotaryPay : CBlock → Int → Nat
  commission : Bool
  theCommission : CBlock → Int → Nat
  isSmartChain : Bool
  HUSH_NOTARIES_HEIGHT1 : Int
  HUSH_EXTRASATOSHI : Int

def COIN : Int := 100000000

section CheckBlock

variable {Tree : Type} (R : BlockRules Tree) (pprev : Option CBlockIndex) (block : CBlock)

def MAX_BLOCK_SIZE (height : Int) : Nat :=
  if height≤0 ∨ (0<R.saplingHeight ∧ R.saplingHeight≤height) then 4194304 else 2000000

def blockSize : Nat :=
  R.headerSize block+CTransaction.vectorSize CTransaction.serializeSize block.vtx

/-- Header, proof of work and Merkle root come first, then the transactions. -/
def checkBlock : Except String Unit := do
  let nHeight := childHeight pprev
  let tiptime := (pprev.map CBlockIndex.nTime).getD block.nTime
  checkAll .error (R.headerError pprev block).toList
  reject (block.vtx=[] ∨ MAX_BLOCK_SIZE R nHeight<block.vtx.length ∨
    MAX_BLOCK_SIZE R nHeight<blockSize R block) "bad-blk-length"
  reject ((block.vtx.take 1).all CTransaction.isCoinBase=false) "bad-cb-missing"
  reject ((block.vtx.drop 1).any CTransaction.isCoinBase) "bad-cb-multiple"
  checkAll (checkTransaction R.toTxRules tiptime) block.vtx
  reject (R.MAX_BLOCK_SIGOPS<(block.vtx.map R.legacySigOps).sum) "bad-blk-sigops"

def contextualCheckBlock : Except String Unit := do
  let nHeight := childHeight pprev
  checkAll (fun tx => do
    contextualCheckTransaction R.toTxRules tx nHeight
    reject (R.isFinalTx tx nHeight block.nTime=false) "bad-txns-nonfinal") block.vtx
  reject (0<nHeight ∧ (block.vtx.take 1).all (fun tx => R.startsWithHeight tx nHeight)=false)
    "bad-cb-height"

/-- Failures are forgiven in blocks before 15 January 2019. -/
def checkContext : Except String Unit :=
  match contextualCheckBlock R pprev block with
  | .ok _ => .ok ()
  | .error reason => reject (1547510400<block.nTime) reason

/-- The pay of the notaries that the coinbase has to carry. -/
def notaryPay : Except String Nat :=
  let nHeight := childHeight pprev
  if R.ASSETCHAINS_NOTARY_PAY ∧ 10<nHeight then do
    reject (R.notarizationTx block nHeight= -1) "bad-notarization-position"
    if R.notarizationTx block nHeight=1 then do
      reject ((block.vtx.take 1).any (fun tx => tx.vout.length==1)) "bad-cb-amount"
      reject (R.checkNotaryPay block nHeight=0) "bad-cb-amount"
      return R.checkNotaryPay block nHeight
    else return 0
  else return 0

end CheckBlock

section Inputs

variable {Tree : Type} (R : BlockRules Tree)

def totalTxValue (c : CCoins) : Int := toCAmount (c.vout.map CTxOut.nValue).sum

/-- The outputs that the inputs of a transaction name. -/
def spentOutputs (tx : CTransaction) (v : View Tree) : List CTxOut :=
  (View.lookedUp R.pegscc tx).map fun txin => (v.getOutputFor txin.prevout).getD CTxOut.setNull

/-- One round of the loop of `CheckTxInputs`. -/
def checkTxIn (nSpendHeight : Int) (v : View Tree) (prevout : COutPoint) (nValueIn : Int) :
    Except String Int := do
  let coins := v.entry prevout.hash
  let nValue := ((v.getOutputFor prevout).getD CTxOut.setNull).nValue
  reject (coins.fCoinBase ∧ (R.ASSETCHAINS_TIMELOCKGTE : Int)≤totalTxValue coins%2^64 ∧
    nSpendHeight%2^64<R.blockUnlockTime coins.nHeight) "bad-txns-premature-spend-of-coinbase"
  reject (coins.fCoinBase ∧ nSpendHeight-coins.nHeight<R.COINBASE_MATURITY)
    "bad-txns-premature-spend-of-coinbase"
  reject (moneyRange R.MAX_MONEY nValue=false ∨
    moneyRange R.MAX_MONEY (toCAmount (nValueIn+nValue))=false) "bad-txns-inputvalues-outofrange"
  return toCAmount (nValueIn+nValue)

def checkTxIns (nSpendHeight : Int) (v : View Tree) : List CTxIn → Int → Except String Int
  | [],nValueIn => .ok nValueIn
  | txin::rest,nValueIn => do
      let nValueIn ← checkTxIn R nSpendHeight v txin.prevout nValueIn
      checkTxIns nSpendHeight v rest nValueIn

/-- What an import adds to the value of the inputs. -/
def importValue (tx : CTransaction) : Int :=
  if tx.isPegsImport R.pegscc then R.getCoinImportValue tx else 0

def checkTxInputs (nSpendHeight : Int) (tx : CTransaction) (v : View Tree) :
    Except String Unit := do
  reject (v.haveInputs R.pegscc tx=false) ""
  reject (v.haveShieldedRequirements tx=false) ""
  let nValueIn ← checkTxIns R nSpendHeight v (View.lookedUp R.pegscc tx) (importValue R tx)
  let shieldedIn ← expect (tx.getShieldedValueIn R.MAX_MONEY)
    "CTransaction::GetShieldedValueIn(): value out of range"
  reject (moneyRange R.MAX_MONEY (toCAmount (nValueIn+shieldedIn))=false)
    "bad-txns-inputvalues-outofrange"
  let valueOut ← expect (tx.getValueOut R.MAX_MONEY) "CTransaction::GetValueOut(): value out of range"
  reject (toCAmount (nValueIn+shieldedIn)<valueOut) "bad-txns-in-belowout"
  let nTxFee := toCAmount (toCAmount (nValueIn+shieldedIn)-valueOut)
  reject (nTxFee<0) "bad-txns-fee-negative"
  reject (moneyRange R.MAX_MONEY nTxFee=false) "bad-txns-fee-outofrange"

/-- Values and scripts of the inputs, which a mint does not have. -/
def checkSpends (nSpendHeight : Int) (tx : CTransaction) (v : View Tree) : Except String Unit :=
  if tx.isMint then .ok ()
  else do
    checkTxInputs R nSpendHeight tx v
    reject (R.verifyScripts tx nSpendHeight (spentOutputs R tx v)=false)
      "mandatory-script-verify-flag-failed"

def contextualCheckInputs (nSpendHeight : Int) (tx : CTransaction) (v : View Tree) :
    Except String Unit := do
  checkSpends R nSpendHeight tx v
  reject ((tx.isCoinImport ∨ tx.isPegsImport R.pegscc) ∧ R.verifyCoinImport tx=false)
    "invalid-coin-import"

/-- `GetValueIn`, which only adds up; the interest is always 0. -/
def getValueIn (tx : CTransaction) (v : View Tree) : Option Int :=
  if tx.isCoinImport then some (R.getCoinImportValue tx)
  else if tx.isCoinBase then some 0
  else (tx.getShieldedValueIn R.MAX_MONEY).map fun shieldedIn =>
    toCAmount (importValue R tx+((spentOutputs R tx v).map CTxOut.nValue).sum+shieldedIn)

end Inputs

section Connect

variable {Tree : Type} (R : BlockRules Tree)

/-- The locals of `ConnectBlock` in its loop over the transactions. -/
structure ConnectState (Tree : Type) where
  view : View Tree
  nFees : Int
  nSigOps : Nat
  saplingTree : Tree
  vtxundo : List CTxUndo
  delta : IndexDelta

/-- Index entries for the inputs; the first input of a Pegs import has none. -/
def spendDeltas (nHeight : Int) (i : Nat) (tx : CTransaction) (v : View Tree) : IndexDelta :=
  if R.fAddressIndex ∨ R.fSpentIndex then
    IndexDelta.concat
      (((View.lookedUp R.pegscc tx).zipIdx (if tx.isPegsImport R.pegscc then 1 else 0)).map
        fun input => spendDelta R.toIndexRules nHeight i tx.hash input.2 input.1.prevout
          ((v.getOutputFor input.1.prevout).getD CTxOut.setNull))
  else IndexDelta.empty

def receiveDeltas (nHeight : Int) (i : Nat) (tx : CTransaction) : IndexDelta :=
  if R.fAddressIndex then
    IndexDelta.concat (tx.vout.zipIdx.map fun out =>
      receiveDelta R.toIndexRules nHeight i tx.hash out.2 out.1)
  else IndexDelta.empty

/-- The fee of a transaction is added without a check of the sum. -/
def tallyFees (nFees : Int) (valueout : Int) (tx : CTransaction) (v : View Tree) :
    Except String Int :=
  if tx.isCoinBase then .ok nFees
  else do
    let valueIn ← expect (getValueIn R tx v)
      "CTransaction::GetShieldedValueIn(): value out of range"
    return toCAmount (nFees+(valueIn-valueout))

/-- The coinbase is not checked against the view. -/
def checkInView (nHeight : Int) (tx : CTransaction) (v : View Tree) : Except String Unit :=
  if tx.isCoinBase then .ok () else contextualCheckInputs R nHeight tx v

def appendCommitments (T : TreeOps Tree) : List OutputDescription → Tree → Option Tree
  | [],tree => some tree
  | output::rest,tree => (T.append tree output.cm).bind (appendCommitments T rest)

/-- One round of the loop; a failed assertion is an error as well. -/
def connectTx (nHeight : Int) (i : Nat) (tx : CTransaction) (s : ConnectState Tree) :
    Except String (ConnectState Tree) := do
  reject (R.MAX_BLOCK_SIGOPS<s.nSigOps+R.legacySigOps tx) "bad-blk-sigops"
  reject (s.view.haveInputs R.pegscc tx=false) "bad-txns-inputs-missingorspent"
  reject (tx.isMint=false ∧ s.view.haveShieldedRequirements tx=false)
    "bad-txns-joinsplit-requirements-not-met"
  let nSigOps := s.nSigOps+R.legacySigOps tx+
    (if tx.isMint then 0 else R.p2shSigOps tx (spentOutputs R tx s.view))
  reject (R.MAX_BLOCK_SIGOPS<nSigOps) "bad-blk-sigops"
  let valueout ← expect (tx.getValueOut R.MAX_MONEY) "CTransaction::GetValueOut(): value out of range"
  reject (10000000001*COIN<valueout) "tx valueout is too big"
  let nFees ← tallyFees R s.nFees valueout tx s.view
  checkInView R nHeight tx s.view
  let updated ← expect (updateCoins R.pegscc tx nHeight s.view) "assert"
  let saplingTree ← expect (appendCommitments R.trees tx.vShieldedOutput s.saplingTree)
    "tree is full"
  return {
    view := updated.1
    nFees := nFees
    nSigOps := nSigOps
    saplingTree := saplingTree
    vtxundo := s.vtxundo++(if 0 < i then [updated.2] else [])
    delta := s.delta.append
      ((spendDeltas R nHeight i tx s.view).append (receiveDeltas R nHeight i tx))}

def connectTxs (nHeight : Int) : Nat → List CTransaction → ConnectState Tree →
    Except String (ConnectState Tree)
  | _,[],s => .ok s
  | i,tx::txs,s => do
      let s ← connectTx R nHeight i tx s
      connectTxs nHeight (i+1) txs s

/-- Subsidy, notary pay, fees, and the commission when the second output pays it. -/
def blockReward (nHeight : Int) (block : CBlock) (notarypay : Nat) (nFees : Int) : Int :=
  let reward := toCAmount (toCAmount (R.getBlockSubsidy nHeight+notarypay)+nFees)
  let checktoshis := R.theCommission block nHeight
  if R.commission ∧ checktoshis≠0 ∧
      ((block.vtx.take 1).any fun tx => (tx.vout.drop 1).head?.any fun txout =>
        txout.nValue%2^64==(checktoshis : Int)) then
    toCAmount (reward+checktoshis)
  else reward

def checkCoinbase (nHeight : Int) (block : CBlock) (reward : Int) : Except String Unit := do
  let coinbase ← expect block.vtx.head? "assert"
  let valueOut ← expect (coinbase.getValueOut R.MAX_MONEY)
    "CTransaction::GetValueOut(): value out of range"
  reject (R.isSmartChain ∧ nHeight=1 ∧ valueOut≠reward) "bad-cb-amount"
  reject (toCAmount (reward+R.HUSH_EXTRASATOSHI)<valueOut ∧
    (R.isSmartChain ∨ R.HUSH_NOTARIES_HEIGHT1≤nHeight ∨
      (coinbase.vout.take 1).any fun txout => decide (reward<txout.nValue))) "bad-cb-amount"

/-- What a connected block leaves behind; there is no undo data for the genesis block. -/
structure Connected (Tree : Type) where
  view : View Tree
  undo : Option CBlockUndo
  delta : IndexDelta

/-- `ConnectBlock` of a block that is not the genesis block, after its checks. -/
def connectTransactions (pprev : Option CBlockIndex) (block : CBlock) (notarypay : Nat)
    (v : View Tree) : Except String (Connected Tree) := do
  let nHeight := childHeight pprev
  reject (pprev=none) "assert"
  checkAll (fun tx => reject ((v.entry tx.hash).isPruned=false) "bad-txns-BIP30") block.vtx
  let tree ← expect (v.anchors v.bestSaplingAnchor) "assert"
  let s ← connectTxs R nHeight 0 block.vtx ⟨v,0,0,tree,[],IndexDelta.empty⟩
  reject (R.saplingActive nHeight ∧ block.hashFinalSaplingRoot≠R.trees.root s.saplingTree)
    "bad-sapling-root-in-block"
  checkCoinbase R nHeight block (blockReward R nHeight block notarypay s.nFees)
  return {
    view := {s.view.pushAnchor R.trees s.saplingTree with bestBlock := block.hash}
    undo := some ⟨s.vtxundo,v.bestSproutAnchor⟩
    delta := s.delta}

/-- `ConnectBlock` as `ConnectTip` calls it. -/
def connectBlock (pprev : Option CBlockIndex) (block : CBlock) (v : View Tree) :
    Except String (Connected Tree) := do
  reject (R.HUSH_STOPAT≠0 ∧ R.HUSH_STOPAT<childHeight pprev) ""
  checkBlock R pprev block
  checkContext R pprev block
  let notarypay ← notaryPay R pprev block
  reject ((pprev.map CBlockIndex.hashBlock).getD 0≠v.bestBlock) "hashPrevBlock-not-bestblock"
  if block.hash=R.hashGenesisBlock then
    return ⟨{v with bestBlock := block.hash},none,IndexDelta.empty⟩
  else connectTransactions R pprev block notarypay v

/-- What one round of the loop requires and does. -/
structure TxConnected (nHeight : Int) (i : Nat) (tx : CTransaction) (s s' : ConnectState Tree)
    (valueout : Int) (undo : CTxUndo) : Prop where
  inputs : s.view.haveInputs R.pegscc tx=true
  shielded : tx.isMint=false → s.view.haveShieldedRequirements tx=true
  valueOut : tx.getValueOut R.MAX_MONEY=some valueout ∧ valueout≤10000000001*COIN
  fees : tallyFees R s.nFees valueout tx s.view=.ok s'.nFees
  checks : checkInView R nHeight tx s.view=.ok ()
  coins : updateCoins R.pegscc tx nHeight s.view=some (s'.view,undo)
  tree : appendCommitments R.trees tx.vShieldedOutput s.saplingTree=some s'.saplingTree
  vtxundo : s'.vtxundo=s.vtxundo++(if 0 < i then [undo] else [])
  delta : s'.delta=s.delta.append
    ((spendDeltas R nHeight i tx s.view).append (receiveDeltas R nHeight i tx))

theorem connectTx_ok {nHeight : Int} {i : Nat} {tx : CTransaction} {s s' : ConnectState Tree}
    (h : connectTx R nHeight i tx s=.ok s') :
    ∃valueout undo,TxConnected R nHeight i tx s s' valueout undo := by
  simp only [connectTx,bind_ok,reject_ok,expect_ok] at h
  obtain ⟨_,-,_,hinputs,_,hshielded,_,-,valueout,hvalue,_,hbig,nFees,hfees,_,hchecks,
    ⟨view,undo⟩,hcoins,saplingTree,htree,h⟩ := h
  obtain rfl := Except.ok.inj h
  refine ⟨valueout,undo,by simpa using hinputs,?_,⟨hvalue,by omega⟩,hfees,hchecks,hcoins,htree,
    rfl,rfl⟩
  intro hmint
  by_contra hreq
  exact hshielded ⟨hmint,by simpa using hreq⟩

/-- The rounds of the loop, with the undo record that each one makes. -/
inductive TxsConnected (nHeight : Int) : Nat → List CTransaction → List CTxUndo →
    ConnectState Tree → ConnectState Tree → Prop
  | nil (i : Nat) (s : ConnectState Tree) : TxsConnected nHeight i [] [] s s
  | cons {i : Nat} {tx : CTransaction} {txs : List CTransaction} {undo : CTxUndo}
      {undos : List CTxUndo} {s s₁ s' : ConnectState Tree} {valueout : Int} :
      TxConnected R nHeight i tx s s₁ valueout undo → TxsConnected nHeight (i+1) txs undos s₁ s' →
      TxsConnected nHeight i (tx::txs) (undo::undos) s s'

theorem connectTxs_ok {nHeight : Int} {i : Nat} {txs : List CTransaction}
    {s s' : ConnectState Tree} (h : connectTxs R nHeight i txs s=.ok s') :
    ∃undos,TxsConnected R nHeight i txs undos s s' := by
  induction txs generalizing i s with
  | nil =>
    obtain rfl := Except.ok.inj h
    exact ⟨[],.nil i s⟩
  | cons tx txs ih =>
    rw [connectTxs,bind_ok] at h
    obtain ⟨s₁,htx,hrest⟩ := h
    obtain ⟨valueout,undo,hconn⟩ := connectTx_ok R htx
    obtain ⟨undos,hundos⟩ := ih hrest
    exact ⟨undo::undos,.cons hconn hundos⟩

theorem TxsConnected.length {nHeight : Int} {i : Nat} {txs : List CTransaction}
    {undos : List CTxUndo} {s s' : ConnectState Tree}
    (h : TxsConnected R nHeight i txs undos s s') : undos.length=txs.length := by
  induction h with
  | nil i s => rfl
  | cons htx hrest ih => rw [List.length_cons,List.length_cons,ih]

/-- The record of the first transaction is thrown away. -/
theorem TxsConnected.vtxundo {nHeight : Int} {i : Nat} {txs : List CTransaction}
    {undos : List CTxUndo} {s s' : ConnectState Tree}
    (h : TxsConnected R nHeight i txs undos s s') (hi : 0 < i) : s'.vtxundo=s.vtxundo++undos := by
  induction h with
  | nil i s => simp
  | cons htx hrest ih => rw [ih (by omega),htx.vtxundo,if_pos hi,List.append_assoc,
      List.singleton_append]

/-- What a block is known to satisfy after its own checks. -/
structure BlockChecked (block : CBlock) : Prop where
  coinbase : ∃coinbase txs,block.vtx=coinbase::txs ∧ coinbase.isCoinBase=true ∧
    ∀tx∈txs,tx.isCoinBase=false
  length : block.vtx.length≤4194304
  txs : ∀tx∈block.vtx,Checked R.toTxRules tx

theorem checkBlock_ok {pprev : Option CBlockIndex} {block : CBlock}
    (h : checkBlock R pprev block=.ok ()) : BlockChecked R block := by
  simp only [checkBlock,bind_ok,reject_ok,checkAll_ok] at h
  obtain ⟨_,-,_,hlen,_,hfirst,_,hrest,_,htxs,-⟩ := h
  simp only [not_or,not_lt] at hlen
  obtain ⟨hnil,hlen,-⟩ := hlen
  refine ⟨?_,?_,fun tx htx => checkTransaction_ok (htxs tx htx)⟩
  · cases hvtx : block.vtx with
    | nil => exact absurd hvtx hnil
    | cons coinbase txs =>
      refine ⟨coinbase,txs,rfl,by simpa [hvtx] using hfirst,?_⟩
      simpa [hvtx] using hrest
  · have hmax : MAX_BLOCK_SIZE R (childHeight pprev)≤4194304 := by
      unfold MAX_BLOCK_SIZE
      split_ifs <;> decide
    omega

/-- The steps of an accepted block that is not the genesis block. -/
structure BlockConnected (nHeight : Int) (block : CBlock) (notarypay : Nat) (v : View Tree)
    (tree : Tree) (s : ConnectState Tree) : Prop where
  fresh : ∀tx∈block.vtx,(v.entry tx.hash).isPruned=true
  anchor : v.anchors v.bestSaplingAnchor=some tree
  txs : connectTxs R nHeight 0 block.vtx ⟨v,0,0,tree,[],IndexDelta.empty⟩=.ok s
  root : R.saplingActive nHeight=true → block.hashFinalSaplingRoot=R.trees.root s.saplingTree
  coinbase : checkCoinbase R nHeight block (blockReward R nHeight block notarypay s.nFees)=.ok ()

/-- What `ConnectBlock` returns after its loop. -/
def finishBlock (block : CBlock) (v : View Tree) (s : ConnectState Tree) : Connected Tree where
  view := {s.view.pushAnchor R.trees s.saplingTree with bestBlock := block.hash}
  undo := some ⟨s.vtxundo,v.bestSproutAnchor⟩
  delta := s.delta

theorem connectTransactions_ok {pprev : Option CBlockIndex} {block : CBlock} {notarypay : Nat}
    {v : View Tree} {a : Connected Tree} (h : connectTransactions R pprev block notarypay v=.ok a) :
    pprev≠none ∧ ∃tree s,BlockConnected R (childHeight pprev) block notarypay v tree s ∧
      a=finishBlock R block v s := by
  simp only [connectTransactions,bind_ok,reject_ok,checkAll_ok,expect_ok] at h
  obtain ⟨_,hprev,_,hfresh,tree,hanchor,s,htxs,_,hroot,_,hcb,h⟩ := h
  obtain rfl := Except.ok.inj h
  refine ⟨hprev,tree,s,⟨fun tx htx => by simpa using hfresh tx htx,hanchor,htxs,?_,hcb⟩,rfl⟩
  intro hactive
  by_contra hne
  exact hroot ⟨hactive,hne⟩

theorem connectBlock_ok {pprev : Option CBlockIndex} {block : CBlock} {v : View Tree}
    {a : Connected Tree} (h : connectBlock R pprev block v=.ok a) :
    BlockChecked R block ∧ (pprev.map CBlockIndex.hashBlock).getD 0=v.bestBlock ∧
      ∃notarypay,notaryPay R pprev block=.ok notarypay ∧
      ((block.hash=R.hashGenesisBlock ∧
          a=⟨{v with bestBlock := block.hash},none,IndexDelta.empty⟩) ∨
        (block.hash≠R.hashGenesisBlock ∧ connectTransactions R pprev block notarypay v=.ok a)) := by
  simp only [connectBlock,bind_ok,reject_ok,not_not] at h
  obtain ⟨_,-,_,hcheck,_,-,notarypay,hpay,_,hbest,h⟩ := h
  refine ⟨checkBlock_ok R hcheck,hbest,notarypay,hpay,?_⟩
  split_ifs at h with hgenesis
  · exact .inl ⟨hgenesis,(Except.ok.inj h).symm⟩
  · exact .inr ⟨hgenesis,h⟩

end Connect

end Zdeex.Block
