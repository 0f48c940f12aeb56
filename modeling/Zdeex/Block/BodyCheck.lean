import Zdeex.Block.UndoBlock
import Zdeex.Crosschain.MerkleBranches
import Zdeex.Emission.Commission
import Zdeex.Pow.CheckProofOfWork

namespace Zdeex.Block.BodyCheck

open Zdeex.Framework
open Zdeex.Coins
open Zdeex.CrossChainProof (buildMerkleTree buildMerkleTree_eq)

/-- How a check ends that does not accept: without a word, or with a reason; the second flag says
that the body may be a corrupted one. -/
inductive Failure
  | unjudged
  | invalid (reason : String) (corruptionPossible : Bool)
  deriving DecidableEq

/-- A check that is made under a condition. -/
def onlyIf (c : Prop) [Decidable c] (check : Except Failure Unit) : Except Failure Unit :=
  if c then check else .ok ()

/-- What `CheckBlock` reads besides the block. -/
structure Setting (Tree : Type) where
  rules : BlockRules Tree
  args : Emission.CommissionArgs
  process : Emission.Process
  surroundings : Emission.Surroundings
  globals : Pow.Globals
  params : Pow.Params
  SMART_CHAIN_SYMBOL : String
  ASSETCHAINS_ADAPTIVEPOW : Int
  ASSETCHAINS_CC : Nat
  HUSH_TEST_ASSETCHAIN_SKIP_POW : Bool
  getTime : Int
  getHash : Pow.CBlockHeader → Uint256
  checkEquihashSolution : Pow.CBlockHeader → Bool
  hash : Uint256 → Uint256 → Uint256

def MIN_BLOCK_VERSION : Int := 4

section Definitions

variable {Tree : Type} (S : Setting Tree) (height : Nat) (fCheckPOW : Bool)
  (blockhdr : Pow.CBlockHeader)

/-- The failure, if there is one, and whether the block is one of the next minutes. -/
def checkBlockHeader : Option Failure × Bool :=
  let time : Int := blockhdr.nTime.toNat
  if S.ASSETCHAINS_ADAPTIVEPOW>0 ∧ time>S.getTime+4 then (some .unjudged,false)
  else if ¬S.ASSETCHAINS_ADAPTIVEPOW>0 ∧ time>S.getTime+60 then
    (some .unjudged,decide (time<S.getTime+300))
  else if height>0 ∧ blockhdr.nVersion<MIN_BLOCK_VERSION then
    (some (.invalid "version-too-low" false),false)
  else if fCheckPOW ∧ S.checkEquihashSolution blockhdr=false then
    (some (.invalid "invalid-solution" false),false)
  else (none,false)

/-- The outputs as the commission is computed from them. -/
def outputsOf (tx : CTransaction) : List Wire.CTxOut :=
  tx.vout.map fun out => ⟨BitVec.ofInt 64 out.nValue,out.scriptPubKey.map UInt8.toBitVec⟩

def earlyScripthexSize : Nat := 10000

/-- The first block pays to the script or to the founders key. The digits that are looked at stand
where the code of the last one says. -/
def paysFirst (scriptpub script : List Byte) : Prop :=
  let back := (scriptpub.getLastD 0).toNat
  if scriptpub.length>1 ∧ Emission.charAt S.surroundings scriptpub back≠49 ∧
      Emission.charAt S.surroundings scriptpub (back-1)≠51 then
    scriptpub.length/2=script.length ∧ script.length<earlyScripthexSize ∧
      Kv.decodeHex scriptpub=script
  else if S.args.OVERRIDE_PUBKEY33.getD 0 0≠0 then
    Notary.payToPubkey script ∧ Notary.pubkeyOf script=S.args.OVERRIDE_PUBKEY33
  else True

instance (scriptpub script : List Byte) : Decidable (paysFirst S scriptpub script) := by
  unfold paysFirst
  infer_instance

/-- `hush_checkPOW` with `slowflag` on an unstaked chain. -/
def hushCheckPOW (vtx : List CTransaction) : Bool :=
  if S.checkEquihashSolution blockhdr=false then false
  else if height=0 then true
  else if S.SMART_CHAIN_SYMBOL≠"" ∧ S.getHash blockhdr>(Pow.setCompact blockhdr.nBits).target then
    S.HUSH_TEST_ASSETCHAIN_SKIP_POW
  else if S.args.COMMISSION=0 then true
  else if height=1 then
    decide (paysFirst S (S.args.devtaxScriptpubForHeight S.process.SCRIPTPUB height)
      (((vtx.map outputsOf).headD []).getD 0 Notary.nullOut).scriptPubKey)
  else
    decide (0≤(S.args.hushCheckcommission S.process S.surroundings (vtx.map outputsOf) height).1)

/-- The tests of proof of work; on an unstaked chain the second one reads the body. -/
def checkWork (vtx : List CTransaction) : Except Failure Unit := do
  reject (Pow.checkProofOfWork S.getHash S.globals S.params blockhdr height=false)
    (.invalid "high-hash" false)
  reject (S.globals.ASSETCHAINS_STAKED=0 ∧ hushCheckPOW S height blockhdr vtx=false)
    (.invalid "failed-slow_checkPOW" false)

/-- The tests for corrupted bodies. -/
def checkMerkleRoot (vtx : List CTransaction) : Except Failure Unit := do
  let tree := buildMerkleTree S.hash (vtx.map CTransaction.hash)
  reject (blockhdr.hashMerkleRoot≠tree.1) (.invalid "bad-txnmrklroot" true)
  reject (tree.2.mutated=true) (.invalid "bad-txns-duplicate" true)

def blockOf (vtx : List CTransaction) : CBlock :=
  ⟨S.getHash blockhdr,blockhdr.nTime.toNat,blockhdr.hashFinalSaplingRoot,vtx⟩

/-- The rest of `CheckBlock`. -/
def checkBody (tiptime : Nat) (vtx : List CTransaction) : Except Failure Unit := do
  reject (vtx=[] ∨ MAX_BLOCK_SIZE S.rules height<vtx.length ∨
    MAX_BLOCK_SIZE S.rules height<blockSize S.rules (blockOf S blockhdr vtx))
    (.invalid "bad-blk-length" false)
  reject ((vtx.take 1).all CTransaction.isCoinBase=false) (.invalid "bad-cb-missing" false)
  reject ((vtx.drop 1).any CTransaction.isCoinBase=true) (.invalid "bad-cb-multiple" false)
  onlyIf (S.ASSETCHAINS_CC=0 ∨ fCheckPOW=true) do
    checkAll (fun tx => (checkTransaction S.rules.toTxRules tiptime tx).mapError
      fun reason => .invalid reason false) vtx
    reject (S.rules.MAX_BLOCK_SIGOPS<(vtx.map S.rules.legacySigOps).sum)
      (.invalid "bad-blk-sigops" true)

def checkBlock (tiptime : Nat) (fCheckMerkleRoot : Bool) (vtx : List CTransaction) :
    Except Failure Unit :=
  match checkBlockHeader S height fCheckPOW blockhdr with
  | (some failure,false) => .error failure
  | _ => do
      onlyIf (fCheckPOW=true) (checkWork S height blockhdr vtx)
      onlyIf (fCheckMerkleRoot=true) (checkMerkleRoot S blockhdr vtx)
      checkBody S height fCheckPOW blockhdr tiptime vtx

/-- A body is accepted, or rejected for good, only if its transactions are these. -/
def BodyFixed (tiptime : Nat) (vtx vtx' : List CTransaction) : Prop :=
  (checkBlock S height fCheckPOW blockhdr tiptime true vtx'=.ok () ∨
    ∃reason,checkBlock S height fCheckPOW blockhdr tiptime true vtx'=
      .error (.invalid reason false)) →
  vtx'.map CTransaction.hash=vtx.map CTransaction.hash

/-- The slow test does not refuse a body. -/
def WorkPassed (vtx : List CTransaction) : Prop :=
  fCheckPOW=true → S.globals.ASSETCHAINS_STAKED=0 → hushCheckPOW S height blockhdr vtx=true

end Definitions

section Order

variable {Tree : Type} {S : Setting Tree} {height : Nat} {fCheckPOW : Bool}
  {blockhdr : Pow.CBlockHeader} {tiptime : Nat} {vtx : List CTransaction}

theorem onlyIf_ok {c : Prop} [Decidable c] {check : Except Failure Unit} {u : Unit} :
    onlyIf c check=.ok u ↔ (c → check=.ok u) := by
  by_cases h : c <;> simp [onlyIf,h]

/-- The tests of the tree pass when the root is that of the header and no level has equal ends. -/
theorem checkMerkleRoot_ok {u : Unit} :
    checkMerkleRoot S blockhdr vtx=.ok u ↔
      blockhdr.hashMerkleRoot=
        MerkleTree.root S.hash 0 (vtx.map CTransaction.hash).length (vtx.map CTransaction.hash) ∧
      MerkleTree.mutated S.hash 0 (vtx.map CTransaction.hash).length
        (vtx.map CTransaction.hash)=false := by
  unfold checkMerkleRoot
  rw [buildMerkleTree_eq]
  simp only [bind_ok,reject_ok,not_not,Bool.not_eq_true,exists_const]

/-- When they fail, the body may be a corrupted one. -/
theorem checkMerkleRoot_error {failure : Failure} (h : checkMerkleRoot S blockhdr vtx=.error failure) :
    ∃reason,failure=.invalid reason true := by
  unfold checkMerkleRoot reject at h
  dsimp only at h
  by_cases hroot : blockhdr.hashMerkleRoot≠(buildMerkleTree S.hash (vtx.map CTransaction.hash)).1
  · rw [if_pos hroot] at h
    exact ⟨_,(Except.error.inj h).symm⟩
  · rw [if_neg hroot] at h
    change (if _ then _ else _)=_ at h
    split_ifs at h
    exact ⟨_,(Except.error.inj h).symm⟩

theorem checkWork_ok {u : Unit} : checkWork S height blockhdr vtx=.ok u ↔
    Pow.checkProofOfWork S.getHash S.globals S.params blockhdr height=true ∧
      (S.globals.ASSETCHAINS_STAKED=0 → hushCheckPOW S height blockhdr vtx=true) := by
  unfold checkWork
  simp only [bind_ok,reject_ok,exists_const]
  simp

/-- A body whose slow test fails is refused for good. -/
theorem checkWork_slow
    (hwork : Pow.checkProofOfWork S.getHash S.globals S.params blockhdr height=true)
    (hstaked : S.globals.ASSETCHAINS_STAKED=0)
    (hslow : hushCheckPOW S height blockhdr vtx=false) :
    checkWork S height blockhdr vtx=.error (.invalid "failed-slow_checkPOW" false) := by
  have hfast : ¬Pow.checkProofOfWork S.getHash S.globals S.params blockhdr height=false := by
    rw [hwork]
    decide
  unfold checkWork reject
  rw [if_neg hfast,if_pos ⟨hstaked,hslow⟩]
  rfl

/-- The header lets the checks of the body begin. -/
def HeaderPasses (S : Setting Tree) (height : Nat) (fCheckPOW : Bool)
    (blockhdr : Pow.CBlockHeader) : Prop :=
  (checkBlockHeader S height fCheckPOW blockhdr).1=none ∨
    (checkBlockHeader S height fCheckPOW blockhdr).2=true

theorem checkBlock_of_header (h : HeaderPasses S height fCheckPOW blockhdr) :
    checkBlock S height fCheckPOW blockhdr tiptime true vtx=(do
      onlyIf (fCheckPOW=true) (checkWork S height blockhdr vtx)
      checkMerkleRoot S blockhdr vtx
      checkBody S height fCheckPOW blockhdr tiptime vtx) := by
  unfold HeaderPasses at h
  unfold checkBlock
  rcases hresult : checkBlockHeader S height fCheckPOW blockhdr with ⟨_ | failure,_ | future⟩
  · rfl
  · rfl
  · rw [hresult] at h
    rcases h with h | h
    · cases h
    · cases h
  · rfl

theorem headerPasses_of_ok {u : Unit}
    (h : checkBlock S height fCheckPOW blockhdr tiptime true vtx=.ok u) :
    HeaderPasses S height fCheckPOW blockhdr := by
  unfold checkBlock at h
  unfold HeaderPasses
  rcases hresult : checkBlockHeader S height fCheckPOW blockhdr with ⟨_ | failure,_ | future⟩
  · exact .inl rfl
  · exact .inl rfl
  · rw [hresult] at h
    cases h
  · exact .inr rfl

/-- What holds of an accepted body. -/
structure Accepted (S : Setting Tree) (height : Nat) (fCheckPOW : Bool)
    (blockhdr : Pow.CBlockHeader) (vtx : List CTransaction) : Prop where
  header : HeaderPasses S height fCheckPOW blockhdr
  work : fCheckPOW=true → checkWork S height blockhdr vtx=.ok ()
  merkle : checkMerkleRoot S blockhdr vtx=.ok ()
  nonempty : vtx≠[]

theorem accepted_of_ok (h : checkBlock S height fCheckPOW blockhdr tiptime true vtx=.ok ()) :
    Accepted S height fCheckPOW blockhdr vtx := by
  have hheader := headerPasses_of_ok h
  rw [checkBlock_of_header hheader,bind_ok] at h
  obtain ⟨u,hwork,h⟩ := h
  rw [bind_ok] at h
  obtain ⟨u',hmerkle,hbody⟩ := h
  refine ⟨hheader,onlyIf_ok.mp hwork,hmerkle,?_⟩
  unfold checkBody at hbody
  rw [bind_ok] at hbody
  obtain ⟨u'',hsize,-⟩ := hbody
  exact fun hempty => reject_ok.mp hsize (.inl hempty)

/-- Without the slow test nothing but a corrupted body differs from an accepted one. -/
theorem bodyFixed_of_work {vtx' : List CTransaction}
    (h : Accepted S height fCheckPOW blockhdr vtx) (hne : vtx'≠[])
    (hseparated : MerkleTree.Separated S.hash (vtx'.map CTransaction.hash)
      (vtx.map CTransaction.hash))
    (hwork : WorkPassed S height fCheckPOW blockhdr vtx') :
    BodyFixed S height fCheckPOW blockhdr tiptime vtx vtx' := by
  have hpassed : onlyIf (fCheckPOW=true) (checkWork S height blockhdr vtx')=.ok () :=
    onlyIf_ok.mpr fun hcheck =>
      checkWork_ok.mpr ⟨(checkWork_ok.mp (h.work hcheck)).1,hwork hcheck⟩
  unfold BodyFixed
  rw [checkBlock_of_header h.header,hpassed]
  intro hresult
  cases hmerkle : checkMerkleRoot S blockhdr vtx' with
  | error failure =>
    rw [hmerkle] at hresult
    obtain ⟨reason,rfl⟩ := checkMerkleRoot_error hmerkle
    rcases hresult with hok | ⟨reason',herror⟩
    · cases hok
    · cases herror
  | ok u =>
    obtain ⟨hroot,hmutated⟩ := checkMerkleRoot_ok.mp h.merkle
    obtain ⟨hroot',hmutated'⟩ := checkMerkleRoot_ok.mp hmerkle
    exact MerkleTree.leaves_eq_of_root_eq (fun hnil => hne (List.map_eq_nil_iff.mp hnil))
      (fun hnil => h.nonempty (List.map_eq_nil_iff.mp hnil)) hseparated hmutated' hmutated
      (hroot'.symm.trans hroot)

/-- A root without equal ends determines the leaves. Another body than an accepted one is refused
as a corrupted one exactly when the slow test, which comes before, does not refuse it. -/
theorem unmutated_root_fixes_body :
    (∀(hash : Uint256 → Uint256 → Uint256) (leaves leaves' : List Uint256),leaves≠[] →
      leaves'≠[] → MerkleTree.Separated hash leaves leaves' →
      (buildMerkleTree hash leaves).2.mutated=false →
      (buildMerkleTree hash leaves').2.mutated=false →
      (buildMerkleTree hash leaves).1=(buildMerkleTree hash leaves').1 → leaves=leaves') ∧
    ∀(S : Setting Tree) (height : Nat) (fCheckPOW : Bool) (blockhdr : Pow.CBlockHeader)
      (tiptime : Nat) (vtx vtx' : List CTransaction),
      checkBlock S height fCheckPOW blockhdr tiptime true vtx=.ok () → vtx'≠[] →
      MerkleTree.Separated S.hash (vtx'.map CTransaction.hash) (vtx.map CTransaction.hash) →
      (BodyFixed S height fCheckPOW blockhdr tiptime vtx vtx' ↔
        vtx'.map CTransaction.hash=vtx.map CTransaction.hash ∨
          WorkPassed S height fCheckPOW blockhdr vtx') := by
  constructor
  · intro hash leaves leaves' hne hne' hseparated hmutated hmutated' hroot
    rw [buildMerkleTree_eq] at hmutated hroot
    rw [buildMerkleTree_eq] at hmutated' hroot
    exact MerkleTree.leaves_eq_of_root_eq hne hne' hseparated hmutated hmutated' hroot
  · intro S height fCheckPOW blockhdr tiptime vtx vtx' hok hne hseparated
    have haccepted := accepted_of_ok hok
    constructor
    · intro hfixed
      by_contra hno
      rw [not_or] at hno
      obtain ⟨hdiffer,hfails⟩ := hno
      unfold WorkPassed at hfails
      push Not at hfails
      obtain ⟨hcheck,hstaked,hslow⟩ := hfails
      have hwork := checkWork_slow (checkWork_ok.mp (haccepted.work hcheck)).1 hstaked
        (Bool.eq_false_iff.mpr hslow)
      apply hdiffer
      apply hfixed
      right
      refine ⟨"failed-slow_checkPOW",?_⟩
      rw [checkBlock_of_header haccepted.header,onlyIf,if_pos hcheck,hwork]
      rfl
    · rintro (hsame | hwork)
      · exact fun _ => hsame
      · exact bodyFixed_of_work haccepted hne hseparated hwork

end Order

section Bodies

open Zdeex.CrossChainProof (smallHash)

/-- A chain whose commission is a half of what a block pays out. -/
def halfArgs : Emission.CommissionArgs :=
  {Emission.markedArgs with
    FOUNDERS := 0
    accepted := .inl ⟨.inr (by decide +kernel),rfl⟩}

def workSetting : Setting Unit where
  rules := smallRules false
  args := halfArgs
  process := halfArgs.init
  surroundings := Emission.earlyData
  globals := Pow.mainGlobals
  params := Pow.mainParams
  SMART_CHAIN_SYMBOL := ""
  ASSETCHAINS_ADAPTIVEPOW := 0
  ASSETCHAINS_CC := 0
  HUSH_TEST_ASSETCHAIN_SKIP_POW := false
  getTime := 0
  getHash _ := 77
  checkEquihashSolution _ := true
  hash := smallHash

def payTx (hash : Uint256) : CTransaction := plainTx hash [⟨9,0⟩] [⟨10000,[0x51]⟩]

/-- The coinbase of a block with two payments. -/
def commissionTx : CTransaction :=
  plainTx 1 [⟨0,0xFFFFFFFF⟩]
    [⟨100000000,[0x51]⟩,⟨50010000,List.replicate 24 0x11++[0x31]⟩]

def paidBody : List CTransaction := [commissionTx,payTx 2,payTx 3]

/-- The same with the last transaction twice. -/
def twinBody : List CTransaction := [commissionTx,payTx 2,payTx 3,payTx 3]

def paidHeader : Pow.CBlockHeader :=
  {Pow.idleHeader with hashMerkleRoot := (buildMerkleTree smallHash [1,2,3]).1}

theorem separated_bodies : MerkleTree.Separated smallHash (twinBody.map CTransaction.hash)
    (paidBody.map CTransaction.hash) := by
  decide +kernel

/-- The duplicated body of an accepted block is refused for good, in the name of its header. -/
theorem twin_body_refused :
    checkBlock workSetting 10 true paidHeader 0 true paidBody=.ok () ∧
      MerkleTree.Separated smallHash (twinBody.map CTransaction.hash)
        (paidBody.map CTransaction.hash) ∧
      checkBlock workSetting 10 true paidHeader 0 true twinBody=
        .error (.invalid "failed-slow_checkPOW" false) ∧
      ¬BodyFixed workSetting 10 true paidHeader 0 paidBody twinBody := by
  have hrefused : checkBlock workSetting 10 true paidHeader 0 true twinBody=
      .error (.invalid "failed-slow_checkPOW" false) := by decide +kernel
  refine ⟨by decide +kernel,separated_bodies,hrefused,fun hfixed => ?_⟩
  have hsame := hfixed (.inr ⟨_,hrefused⟩)
  revert hsame
  decide

/-- Without the tests of work it is refused as a corrupted one, and another last leaf gives
another root. -/
theorem twin_body_corrupted :
    BodyFixed workSetting 10 false paidHeader 0 paidBody twinBody ∧
      (buildMerkleTree smallHash [1,2,3]).1≠(buildMerkleTree smallHash [1,2,4]).1 := by
  obtain ⟨hleaves,hbodies⟩ := unmutated_root_fixes_body
  constructor
  · exact (hbodies workSetting 10 false paidHeader 0 paidBody twinBody (by decide +kernel)
      (List.cons_ne_nil _ _) separated_bodies).mpr (.inr fun hcheck => by cases hcheck)
  · intro hroot
    have hsame := hleaves smallHash [1,2,3] [1,2,4] (List.cons_ne_nil _ _) (List.cons_ne_nil _ _)
      (by decide +kernel) (by decide +kernel) (by decide +kernel) hroot
    exact absurd hsame (by decide)

end Bodies

end Zdeex.Block.BodyCheck
