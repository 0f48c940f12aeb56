import Mathlib.Tactic.Common
import Zdeex.Crosschain.NotariesApproval

namespace Zdeex.Crosschain

open Zdeex.Coins
open Zdeex.Block
open Zdeex.Script

structure MerkleBranch where
  nIndex : Int
  branch : List Uint256
  deriving DecidableEq

/-- A notarization hash and the way from a txid to its MoMoM. -/
abbrev TxProof := Uint256 × MerkleBranch

inductive ImportProof where
  | none
  | merkleBranch (proofBranch : TxProof)
  | notaryTxids (notaryTxids : List Uint256)
  | merkleBlock (proofBlock : List UInt8)
  deriving DecidableEq

structure NotarizationData where
  MoMoM : Uint256
  deriving DecidableEq

abbrev Notarization := Uint256 × NotarizationData

/-- The active chain together with the notarization database. -/
structure NotarizedChain extends Chain where
  vChain : List Uint256
  getBlockNotarizations : Uint256 → Option (List Notarization)
  getBackNotarization : Uint256 → Option Notarization
  NOTARISATION_SCAN_LIMIT_BLOCKS : Int

/-- The token contract as the migration check calls it. -/
structure Tokens where
  ismyvin : List UInt8 → Bool
  decodeTokenOpRet : List UInt8 → Option (Uint256 × List (UInt8 × List UInt8))
  decodeTokenCreateOpRet : List UInt8 → Option (List UInt8 × String × String)
  isPayToCryptoCondition : List UInt8 → Bool
  makeTokensCC1vout : UInt8 → Int → CTxOut
  isTokenMarkerVout : CTxOut → Bool
  unmarshalTokenProof : List UInt8 → Option (String × CTransaction)

def EVAL_IMPORTCOIN : UInt8 := 0xe2
def EVAL_TOKENS : UInt8 := 0xf2
def OPRETID_NONFUNGIBLEDATA : UInt8 := 0x11

section Branch

variable (hash : Uint256 → Uint256 → Uint256)

/-- The loop of `SafeCheckMerkleBranch`; a right child never equals its sibling. -/
def safeBranchLoop : List Uint256 → Int → Uint256 → Uint256
  | [],_,h => h
  | it::rest,nIndex,h =>
      if nIndex%2=1 then
        if it=h then 0 else safeBranchLoop rest (nIndex/2) (hash it h)
      else safeBranchLoop rest (nIndex/2) (hash h it)

def safeCheckMerkleBranch (h : Uint256) (vMerkleBranch : List Uint256) (nIndex : Int) : Uint256 :=
  if nIndex= -1 then 0 else safeBranchLoop hash vMerkleBranch nIndex h

def MerkleBranch.exec (b : MerkleBranch) (h : Uint256) : Uint256 :=
  safeCheckMerkleBranch hash h b.branch b.nIndex

/-- The hash at the end of a branch, with no error value. -/
def foldBranch : List Uint256 → Int → Uint256 → Uint256
  | [],_,h => h
  | it::rest,nIndex,h =>
      foldBranch rest (nIndex/2) (if nIndex%2=1 then hash it h else hash h it)

/-- On the way up a branch node equals the running hash on its right. -/
def RightEqual : List Uint256 → Int → Uint256 → Prop
  | [],_,_ => False
  | it::rest,nIndex,h =>
      (nIndex%2=1 ∧ it=h) ∨ RightEqual rest (nIndex/2) (if nIndex%2=1 then hash it h else hash h it)

/-- The branches for which `Exec` gives up. -/
def MerkleBranch.Rejected (b : MerkleBranch) (h : Uint256) : Prop :=
  b.nIndex= -1 ∨ RightEqual hash b.branch b.nIndex h

theorem safeBranchLoop_eq (l : List Uint256) (nIndex : Int) (h : Uint256) :
    (RightEqual hash l nIndex h ∧ safeBranchLoop hash l nIndex h=0) ∨
    (¬RightEqual hash l nIndex h ∧ safeBranchLoop hash l nIndex h=foldBranch hash l nIndex h) := by
  induction l generalizing nIndex h with
  | nil => exact .inr ⟨id,rfl⟩
  | cons it rest ih =>
    by_cases hodd : nIndex%2=1
    · by_cases heq : it=h
      · exact .inl ⟨.inl ⟨hodd,heq⟩,by rw [safeBranchLoop,if_pos hodd,if_pos heq]⟩
      · simpa [safeBranchLoop,RightEqual,foldBranch,hodd,heq] using ih (nIndex/2) (hash it h)
    · simpa [safeBranchLoop,RightEqual,foldBranch,hodd] using ih (nIndex/2) (hash h it)

/-- `Exec` is the error value on a rejected branch and the fold on any other. -/
theorem MerkleBranch.exec_cases (b : MerkleBranch) (h : Uint256) :
    (b.Rejected hash h ∧ b.exec hash h=0) ∨
    (¬b.Rejected hash h ∧ b.exec hash h=foldBranch hash b.branch b.nIndex h) := by
  unfold MerkleBranch.exec safeCheckMerkleBranch MerkleBranch.Rejected
  by_cases hindex : b.nIndex= -1
  · exact .inl ⟨.inl hindex,if_pos hindex⟩
  · rw [if_neg hindex]
    simpa [hindex] using safeBranchLoop_eq hash b.branch b.nIndex h

end Branch

namespace NotarizedChain

variable (C : NotarizedChain)

def height : Int := C.vChain.length-1

/-- The loop of `ScanNotarizationsFromHeight`, over `rounds` blocks from `h` on. -/
def scanLoop (f : Notarization → Bool) : Nat → Nat → Option (Nat × Notarization)
  | 0,_ => none
  | rounds+1,h =>
      match (C.vChain[h]?).bind C.getBlockNotarizations with
      | none => scanLoop f rounds (h+1)
      | some notarizations =>
          match notarizations.find? f with
          | some found => some (h,found)
          | none => scanLoop f rounds (h+1)

/-- First and last height of a scan. -/
def scanStart (nHeight : Int) : Nat := (max nHeight 1).toNat

def scanEnd (nHeight : Int) : Nat :=
  (min (nHeight+C.NOTARISATION_SCAN_LIMIT_BLOCKS) C.height).toNat

def scanNotarizationsFromHeight (nHeight : Int) (f : Notarization → Bool) :
    Option (Nat × Notarization) :=
  C.scanLoop f (C.scanEnd nHeight-scanStart nHeight) (scanStart nHeight)

/-- The height of the back notarization that a notarization hash stands for. -/
def backNotarizationHeight (hushNotarizationHash : Uint256) : Option Int :=
  match C.getBackNotarization hushNotarizationHash with
  | none => none
  | some bn =>
      match C.getTxConfirmed bn.1 with
      | none => none
      | some (_,block) => some block.nHeight

def checkMoMoM (hushNotarizationHash momom : Uint256) : Bool :=
  match C.backNotarizationHeight hushNotarizationHash with
  | none => false
  | some nHeight =>
      (C.scanNotarizationsFromHeight (nHeight-100) fun nota => nota.2.MoMoM==momom).isSome

/-- The notarization is in a block of the window around the back notarization. -/
def InWindow (hushNotarizationHash : Uint256) (nota : Notarization) : Prop :=
  ∃nHeight,C.backNotarizationHeight hushNotarizationHash=some nHeight ∧
    ∃h blockHash notarizations,scanStart (nHeight-100)≤h ∧ h<C.scanEnd (nHeight-100) ∧
      C.vChain[h]?=some blockHash ∧ C.getBlockNotarizations blockHash=some notarizations ∧
      nota∈notarizations

variable {C}

theorem scanLoop_isSome (f : Notarization → Bool) (rounds h : Nat) :
    (C.scanLoop f rounds h).isSome=true ↔
      ∃k blockHash notarizations nota,h≤k ∧ k<h+rounds ∧ C.vChain[k]?=some blockHash ∧
        C.getBlockNotarizations blockHash=some notarizations ∧ nota∈notarizations ∧
        f nota=true := by
  induction rounds generalizing h with
  | zero =>
    constructor
    · intro hnone
      cases hnone
    · rintro ⟨k,_,_,_,hle,hlt,_⟩
      omega
  | succ rounds ih =>
    have hlater : (¬∃blockHash notarizations nota,C.vChain[h]?=some blockHash ∧
        C.getBlockNotarizations blockHash=some notarizations ∧ nota∈notarizations ∧ f nota=true) →
        ((C.scanLoop f rounds (h+1)).isSome=true ↔
          ∃k blockHash notarizations nota,h≤k ∧ k<h+(rounds+1) ∧ C.vChain[k]?=some blockHash ∧
            C.getBlockNotarizations blockHash=some notarizations ∧ nota∈notarizations ∧
            f nota=true) := by
      intro hhere
      rw [ih (h+1)]
      constructor
      · rintro ⟨k,b,ns,nota,hle,hlt,hrest⟩
        exact ⟨k,b,ns,nota,by omega,by omega,hrest⟩
      · rintro ⟨k,b,ns,nota,hle,hlt,hrest⟩
        have hne : k≠h := by
          rintro rfl
          exact hhere ⟨b,ns,nota,hrest⟩
        exact ⟨k,b,ns,nota,by omega,by omega,hrest⟩
    rw [scanLoop]
    cases hblock : (C.vChain[h]?).bind C.getBlockNotarizations with
    | none =>
      apply hlater
      rintro ⟨b,ns,nota,hb,hns,-⟩
      simp [hb,hns] at hblock
    | some ns =>
      obtain ⟨b,hb,hns⟩ := Option.bind_eq_some_iff.mp hblock
      dsimp only
      cases hfind : ns.find? f with
      | some found =>
        refine ⟨fun _ => ?_,fun _ => rfl⟩
        exact ⟨h,b,ns,found,le_refl h,by omega,hb,hns,List.mem_of_find?_eq_some hfind,
          List.find?_some hfind⟩
      | none =>
        apply hlater
        rintro ⟨b',ns',nota,hb',hns',hnota,hf⟩
        rw [hb] at hb'
        obtain rfl := Option.some.inj hb'
        rw [hns] at hns'
        obtain rfl := Option.some.inj hns'
        exact List.find?_eq_none.mp hfind nota hnota hf

theorem checkMoMoM_iff (hushNotarizationHash momom : Uint256) :
    C.checkMoMoM hushNotarizationHash momom=true ↔
      ∃nota,C.InWindow hushNotarizationHash nota ∧ nota.2.MoMoM=momom := by
  unfold checkMoMoM
  cases hback : C.backNotarizationHeight hushNotarizationHash with
  | none =>
    constructor
    · intro hfalse
      cases hfalse
    · rintro ⟨nota,⟨nHeight,hsome,-⟩,-⟩
      rw [hback] at hsome
      cases hsome
  | some nHeight =>
    dsimp only
    rw [scanNotarizationsFromHeight,scanLoop_isSome]
    constructor
    · rintro ⟨k,b,ns,nota,hle,hlt,hb,hns,hnota,hf⟩
      exact ⟨nota,⟨nHeight,hback,k,b,ns,hle,by omega,hb,hns,hnota⟩,by simpa using hf⟩
    · rintro ⟨nota,⟨nHeight',hsome,k,b,ns,hle,hlt,hb,hns,hnota⟩,hf⟩
      rw [hback] at hsome
      obtain rfl := Option.some.inj hsome
      exact ⟨k,b,ns,nota,hle,by omega,hb,hns,hnota,by simpa using hf⟩

end NotarizedChain

def lastScript (tx : CTransaction) : List UInt8 := (tx.vout.getLast?.map CTxOut.scriptPubKey).getD []

/-- Data under the first matching id, else empty. -/
def getOpretBlob (oprets : List (UInt8 × List UInt8)) (id : UInt8) : List UInt8 :=
  match oprets.find? fun p => p.1==id with
  | some p => p.2
  | none => []

section Migration

variable (T : Tokens) (C : NotarizedChain) (importTx burnTx : CTransaction)

/-- The token id of an import that carries tokens: its outputs must match those
that the burn transaction sent to the burn key. -/
def checkTokenOutputs : Except String Uint256 :=
  match T.decodeTokenOpRet (lastScript importTx) with
  | none => throw "cannot-decode-import-tx-token-opret"
  | some (tokenid,oprets) => do
      let vnonfungibleOpret := getOpretBlob oprets OPRETID_NONFUNGIBLEDATA
      let nonfungibleEvalCode := vnonfungibleOpret.headD EVAL_TOKENS
      if !burnTx.vin.any (fun vin => T.ismyvin vin.scriptSig) then
        throw "burn-tx-has-no-token-vins"
      let ccBurnOutputs := sumCAmount ((burnTx.vout.filter fun v =>
        T.isPayToCryptoCondition v.scriptPubKey &&
          v==T.makeTokensCC1vout nonfungibleEvalCode v.nValue).map CTxOut.nValue)
      let ccImportOutputs := sumCAmount ((importTx.vout.filter fun v =>
        T.isPayToCryptoCondition v.scriptPubKey && !T.isTokenMarkerVout v).map CTxOut.nValue)
      if ccBurnOutputs≠ccImportOutputs then
        throw "token-cc-burned-output-not-equal-cc-imported-output"
      return tokenid

/-- The checks on the token creation transaction in the raw proof. The parameters
of the import are decoded over those of the creation, and compared with variables
that no call has set. -/
def checkTokenCreation (rawproof : List UInt8) : Except String Unit :=
  match T.unmarshalTokenProof rawproof with
  | none => throw "cannot-unmarshal-rawproof-for-tokens"
  | some (_,tokenbaseTx) => do
      let sourceTokenId ←
        if burnTx.vout=[] then pure 0
        else
          match T.decodeTokenOpRet (lastScript burnTx) with
          | none => throw "cannot-decode-burn-tx-token-opret"
          | some (sourceTokenId,_) => pure sourceTokenId
      if sourceTokenId≠tokenbaseTx.hash then
        throw "incorrect-token-creation-tx-passed"
      if (T.decodeTokenCreateOpRet (lastScript tokenbaseTx)).isNone then
        throw "cannot-decode-token-creation-tx"
      match T.decodeTokenCreateOpRet (lastScript importTx) with
      | none => throw "cannot-decode-token-import-tx"
      | some (vorigpubkeySrc,nameSrc,descSrc) =>
          if vorigpubkeySrc≠[] ∨ nameSrc≠"" ∨ descSrc≠"" then
            throw "import-tx-token-params-incorrect"

/-- Everything that `CheckMigration` checks before the proof. -/
def checkTransactions (rawproof : List UInt8) : Except String Unit :=
  match getOpReturnData (lastScript importTx) with
  | none => throw "invalid-import-tx-no-opret"
  | some [] => throw "invalid-import-tx-no-opret"
  | some (evalcode::_) => do
      let tokenid ←
        if evalcode=EVAL_TOKENS then checkTokenOutputs T importTx burnTx
        else if evalcode≠EVAL_IMPORTCOIN then throw "import-tx-incorrect-opret-eval"
        else pure 0
      if tokenid.isNull then pure () else checkTokenCreation T importTx burnTx rawproof

def checkProof (proof : ImportProof) : Except String Unit :=
  match proof with
  | .merkleBranch merkleBranchProof =>
      if C.checkMoMoM merkleBranchProof.1 (merkleBranchProof.2.exec C.hash burnTx.hash) then pure ()
      else throw "momom-check-fail"
  | .notaryTxids notaryTxids =>
      if C.checkNotariesApproval burnTx.hash notaryTxids then pure ()
      else throw "notaries-approval-check-fail"
  | _ => throw "invalid-import-proof"

def checkMigration (proof : ImportProof) (rawproof : List UInt8) : Except String Unit := do
  checkTransactions T importTx burnTx rawproof
  checkProof C burnTx proof

variable {T C importTx burnTx}

theorem checkMigration_iff (p : TxProof) (rawproof : List UInt8) :
    checkMigration T C importTx burnTx (.merkleBranch p) rawproof=.ok () ↔
      checkTransactions T importTx burnTx rawproof=.ok () ∧
        ∃nota,C.InWindow p.1 nota ∧ nota.2.MoMoM=p.2.exec C.hash burnTx.hash := by
  rw [← NotarizedChain.checkMoMoM_iff]
  unfold checkMigration checkProof
  cases hchecks : checkTransactions T importTx burnTx rawproof with
  | error e => simp [Bind.bind,Except.bind]
  | ok u =>
    by_cases hmomom : C.checkMoMoM p.1 (p.2.exec C.hash burnTx.hash)=true
    · simp [Bind.bind,Except.bind,hmomom,pure,Except.pure]
    · simp [Bind.bind,Except.bind,hmomom,throw,throwThe,MonadExceptOf.throw]

/-- An accepted branch folds the burn to a MoMoM of the window, unless a null
MoMoM lies in the window and the fold gives up or ends at null. -/
theorem migration_proves_burn_iff (T : Tokens) (C : NotarizedChain) (importTx burnTx : CTransaction)
    (p : TxProof) (rawproof : List UInt8) :
    (checkMigration T C importTx burnTx (.merkleBranch p) rawproof=.ok () →
      (∃nota,C.InWindow p.1 nota ∧ nota.2.MoMoM≠0 ∧
        nota.2.MoMoM=foldBranch C.hash p.2.branch p.2.nIndex burnTx.hash) ∧
      ¬p.2.Rejected C.hash burnTx.hash) ↔
    ¬(checkTransactions T importTx burnTx rawproof=.ok () ∧
      (∃nota,C.InWindow p.1 nota ∧ nota.2.MoMoM=0) ∧
      (p.2.Rejected C.hash burnTx.hash ∨
        foldBranch C.hash p.2.branch p.2.nIndex burnTx.hash=0)) := by
  rw [checkMigration_iff]
  obtain ⟨hrej,hexec⟩ | ⟨hrej,hexec⟩ := p.2.exec_cases C.hash burnTx.hash
  · rw [hexec]
    constructor
    · rintro hclaim ⟨hchecks,hnull,-⟩
      exact (hclaim ⟨hchecks,hnull⟩).2 hrej
    · rintro hcond ⟨hchecks,hnull⟩
      exact absurd ⟨hchecks,hnull,.inl hrej⟩ hcond
  · rw [hexec]
    constructor
    · rintro hclaim ⟨hchecks,⟨nota,hnota,hnull⟩,hrej' | hfold⟩
      · exact hrej hrej'
      · obtain ⟨⟨nota',-,hne,heq⟩,-⟩ := hclaim ⟨hchecks,nota,hnota,hnull.trans hfold.symm⟩
        exact hne (heq.trans hfold)
    · rintro hcond ⟨hchecks,nota,hnota,heq⟩
      refine ⟨⟨nota,hnota,?_,heq⟩,hrej⟩
      intro hnull
      exact hcond ⟨hchecks,⟨nota,hnota,hnull⟩,.inr (heq.symm.trans hnull)⟩

end Migration

/-- Five blocks; the notarization 2 in the block at height 3 has no MoMoM. -/
def nullMoMoMChain : NotarizedChain where
  toChain := {Chain.fiveApprovals 0 0 with
    getTxUnconfirmed := fun txid =>
      if txid=2 then some (⟨2,true,4,0,[],[],0,0,[],[],[]⟩,13) else none
    getBlock := fun blockHash => if blockHash=13 then some ⟨3,0⟩ else none}
  vChain := [10,11,12,13,14]
  getBlockNotarizations := fun blockHash => if blockHash=13 then some [(2,⟨0⟩)] else none
  getBackNotarization := fun txHash => if txHash=1 then some (2,⟨0⟩) else none
  NOTARISATION_SCAN_LIMIT_BLOCKS := 1440

def plainTokens : Tokens :=
  ⟨fun _ => false,fun _ => none,fun _ => none,fun _ => false,fun _ v => ⟨v,[]⟩,fun _ => false,
    fun _ => none⟩

/-- An import whose op_return holds only the code of coin imports. -/
def plainImport : CTransaction := ⟨3,true,4,0,[],[⟨0,[0x6a,0x01,0xe2]⟩],0,0,[],[],[]⟩

def unprovenBurn : CTransaction := ⟨5,true,4,0,[],[],0,0,[],[],[]⟩

/-- The branch repeats the burn on its right, so the fold gives up, and its error
value matches the missing MoMoM. -/
theorem rejected_branch_accepted :
    ¬(checkMigration plainTokens nullMoMoMChain plainImport unprovenBurn
        (.merkleBranch (1,⟨1,[5]⟩)) []=.ok () →
      (∃nota,nullMoMoMChain.InWindow 1 nota ∧ nota.2.MoMoM≠0 ∧
        nota.2.MoMoM=foldBranch nullMoMoMChain.hash [5] 1 5) ∧
      ¬MerkleBranch.Rejected nullMoMoMChain.hash ⟨1,[5]⟩ 5) := by
  intro hclaim
  have haccept : checkMigration plainTokens nullMoMoMChain plainImport unprovenBurn
      (.merkleBranch (1,⟨1,[5]⟩)) []=.ok () := by decide +kernel
  apply (hclaim haccept).2
  exact .inr (.inl ⟨by decide,rfl⟩)

end Zdeex.Crosschain
