import Mathlib.Tactic.Common
import Zdeex.Cc.CallHistory
import Zdeex.Cc.TokenSupply

namespace Zdeex.Cc

open Zdeex.Framework
open Zdeex.Coins
open Zdeex.Block
open Zdeex.Crosschain

namespace World

variable {W : World} {N : ImportNode} {site : Site} {stray : RewardsFunding} {tx : CTransaction}
  {e2 : UInt8}

section Honesty

theorem honest_preventCC {a b : Option Nat} : Honest false (W.preventCC tx a b) :=
  .refuseWhen (.refuseWhen (.pure (by decide)))

/-- Inputs that are valued without a record. -/
theorem honest_tokenInputs {value : CTransaction → Nat → Int} (vins : List CTxIn) (acc : Int) :
    Honest none (W.tokenInputs (fun vinTx n => pure (value vinTx n)) vins acc) := by
  induction vins generalizing acc with
  | nil => exact .pure (by simp)
  | cons vin rest ih =>
    unfold tokenInputs
    apply Honest.ite ?_ (ih acc)
    cases W.getTransaction vin.prevout.hash with
    | none => exact .refuse
    | some p => exact ih (acc+value p.1 vin.prevout.n)

theorem honest_assetValidateCCvin {funcid : UInt8} :
    Honest none (W.assetValidateCCvin e2 funcid tx) := by
  unfold assetValidateCCvin
  rcases tx.vin with _ | ⟨vin0,_ | ⟨vin1,rest⟩⟩
  · exact .refuse
  · exact .refuse
  · apply Honest.refuseWhen
    cases W.getTransaction vin1.prevout.hash with
    | none => exact .refuse
    | some p =>
      apply Honest.refuseWhen
      cases W.getAssetorigaddrs e2 p.1 with
      | none => exact .refuse
      | some addrs => exact .refuseWhen (.pure (by simp))

theorem honest_assetValidateBuyvin {funcid : UInt8} {refassetid : Uint256} :
    Honest none (W.assetValidateBuyvin e2 funcid tx refassetid) := by
  apply Honest.whenSome honest_assetValidateCCvin
  intro vin
  apply Honest.refuseWhen
  cases decodeAssetTokenOpRet W.strayPk (lastScript vin.vinTx) with
  | none => exact .refuse
  | some r => exact .refuseWhen (.refuseWhen (.refuseWhen (.pure (by simp))))

theorem honest_assetValidateSellvin {funcid : UInt8} {assetid : Uint256} :
    Honest none (W.assetValidateSellvin e2 funcid tx assetid) := by
  apply Honest.whenSome honest_assetValidateCCvin
  intro vin
  unfold sellvinOrder
  cases W.isAssetvout vin.vinTx 0 assetid with
  | none => exact .refuse
  | some p => exact .refuseWhen (.pure (by simp))

theorem honest_fillbuy {r : AssetOpRet} {inputs : Int} {order : Order} :
    Honest false (W.fillbuy tx r inputs order) := by
  apply Honest.refuseWhen
  apply Honest.refuseWhen
  apply Honest.refuseWhen
  apply Honest.ite
  · exact .refuseWhen (.refuseWhen honest_preventCC)
  · exact .refuseWhen (.refuseWhen (.refuseWhen (.refuseWhen (.refuseWhen honest_preventCC))))

theorem honest_fillsell {r : AssetOpRet} {order : Order} :
    Honest false (W.fillsell e2 tx r order) :=
  .refuseWhen (.refuseWhen (.refuseWhen (.refuseWhen (.refuseWhen (.refuseWhen (.refuseWhen
    (.refuseWhen honest_preventCC)))))))

theorem honest_validateAssetFuncid {r : AssetOpRet} {inputs : Int} :
    Honest false (W.validateAssetFuncid e2 tx r inputs) := by
  apply Honest.ite .refuse
  apply Honest.ite (.whenSome honest_assetValidateBuyvin fun _ => .refuseWhen honest_preventCC)
  apply Honest.ite (.whenSome honest_assetValidateBuyvin fun _ => honest_fillbuy)
  apply Honest.ite .refuse
  apply Honest.ite (.whenSome honest_assetValidateSellvin fun _ => .refuseWhen honest_preventCC)
  apply Honest.ite (.whenSome honest_assetValidateSellvin fun _ => honest_fillsell)
  exact .ite .refuse .refuse

theorem honest_assetsValidate : Honest false (W.assetsValidate e2 tx) := by
  apply Honest.refuseWhen
  cases decodeAssetTokenOpRet W.strayPk (lastScript tx) with
  | none => exact .refuse
  | some r =>
    exact .refuseWhen (.refuseWhen (.refuseWhen (.refuseWhen (.refuseWhen
      (.whenSome (honest_tokenInputs tx.vin 0) fun _ => honest_validateAssetFuncid)))))

theorem honest_faucetInputs (vins : List CTxIn) (acc : Int) :
    Honest none (W.faucetInputs vins acc) := by
  induction vins generalizing acc with
  | nil => exact .pure (by simp)
  | cons vin rest ih =>
    unfold faucetInputs
    apply Honest.ite ?_ (ih acc)
    cases W.getTransaction vin.prevout.hash with
    | none => exact .refuse
    | some p => exact .refuseWhen (ih _)

theorem honest_faucetValidate : Honest false (W.faucetValidate site tx) :=
  .refuseWhen (.refuseWhen (.whenSome (honest_faucetInputs tx.vin 0) fun _ =>
    .refuseWhen (.refuseWhen (.refuseWhen (.refuseWhen honest_preventCC)))))

theorem honest_rewardsInputs {sbits : BitVec 64} {fundingtxid : Uint256} (vins : List CTxIn)
    (acc : Int) : Honest none (W.rewardsInputs sbits fundingtxid vins acc) := by
  induction vins generalizing acc with
  | nil => exact .pure (by simp)
  | cons vin rest ih =>
    unfold rewardsInputs
    apply Honest.ite ?_ (ih acc)
    cases W.getTransaction vin.prevout.hash with
    | none => exact .refuse
    | some p => exact .refuseWhen (ih _)

theorem honest_validateUnlock {fundingtxid : Uint256} {funding : RewardsFunding} :
    Honest false (W.validateUnlock site tx fundingtxid funding) := by
  apply Honest.refuseWhen
  cases W.getTransaction (vin0 tx).prevout.hash with
  | none => exact .refuse
  | some p =>
    dsimp only
    cases decodeRewardsOpRet (vin0 tx).prevout.hash (lastScript p.1) with
    | none => exact .refuse
    | some lock =>
      apply Honest.refuseWhen
      apply Honest.refuseWhen
      apply Honest.refuseWhen
      apply Honest.refuseWhen
      apply Honest.refuseWhen
      apply Honest.ite
      · exact .refuseWhen (.refuseWhen (.refuseWhen (.refuseWhen (.refuseWhen
          (.pure (by decide))))))
      · exact .refuseWhen (.refuseWhen (.refuseWhen (.refuseWhen (.refuseWhen
          (.whenSome (honest_rewardsInputs tx.vin 0) fun _ =>
            .refuseWhen (.refuseWhen (.refuseWhen honest_preventCC)))))))

theorem honest_rewardsValidate : Honest false (W.rewardsValidate site stray tx) := by
  apply Honest.refuseWhen
  cases decodeRewardsOpRet tx.hash (lastScript tx) with
  | none => exact .refuse
  | some r =>
    dsimp only
    cases W.getTransaction r.fundingtxid with
    | none => exact .refuse
    | some p =>
      dsimp only
      cases fundingOf stray r.sbits p.1 with
      | none => exact .refuse
      | some funding =>
        exact .refuseWhen (.ite .refuse (.ite .refuse (.ite .refuse
          (.ite honest_validateUnlock .refuse))))

theorem honest_checkGateway {burnTx : CTransaction} {payouts : List CTxOut} {proof : ImportProof}
    {burn : BurnOpRet} : Honest false (checkGateway N tx burnTx payouts proof burn) := by
  cases proof with
  | none => exact .refuse
  | notaryTxids _ => exact .refuse
  | merkleBlock _ => exact .refuse
  | merkleBranch p =>
    apply Honest.ite (.refuseWhen (.refuseWhen (.pure (by decide))))
    apply Honest.ite (.refuseWhen (.refuseWhen (.pure (by decide))))
    apply Honest.ite (.refuseWhen (.pure (by decide)))
    apply Honest.ite (.refuseWhen (.refuseWhen (.pure (by decide))))
    exact .refuseWhen (.refuseWhen (.pure (by decide)))

theorem honest_judgeMigration {burnTx : CTransaction} {proof : ImportProof} {rawproof : List UInt8} :
    Honest false (W.judgeMigration N tx burnTx proof rawproof) := by
  unfold judgeMigration
  cases checkMigration (W.tokens N.codec.unmarshalTokenProof) N.chain tx burnTx proof rawproof with
  | ok _ => exact .pure (by decide)
  | error _ => exact .refuse

theorem honest_importCoin : Honest false (W.importCoin N tx) := by
  apply Honest.refuseWhen
  cases N.unmarshalImportTx tx with
  | none => exact .refuse
  | some p =>
    apply Honest.refuseWhen
    cases W.unmarshalBurnTx p.2.1 with
    | none => exact .refuse
    | some burn =>
      exact .refuseWhen (.refuseWhen (.refuseWhen (.refuseWhen (.refuseWhen
        (.ite (.refuseWhen honest_judgeMigration) honest_checkGateway)))))

theorem honest_validateFuncid {r : TokenOpRet} {inputs : Int} :
    Honest false (W.validateFuncid tx r inputs) :=
  .refuseWhen (.ite .refuse (.ite (.refuseWhen (.pure (by decide))) .refuse))

theorem honest_validateAmounts {r : TokenOpRet} {amounts : Option (Int × Int)} :
    Honest false (W.validateAmounts tx r amounts) := by
  cases amounts with
  | none => exact .refuse
  | some p => exact .refuseWhen honest_validateFuncid

end Honesty

/-- The token contract records all its refusals. -/
theorem recorded_tokensValidate : Recorded false (W.tokensValidate site tx) := by
  apply Recorded.ite (.pure (by decide))
  apply Recorded.refuseWhen
  cases decodeTokenOpRet W.strayPk (lastScript tx) with
  | none => exact .refuse
  | some r =>
    exact .refuseWhen (.ite honest_validateFuncid.recorded
      (.refuseWhen (.bind fun _ => honest_validateAmounts.recorded)))

/-- The token inputs of a transaction that are found. -/
def TokenInputsFound (W : World) (vins : List CTxIn) : Prop :=
  ∀vin∈vins,W.ismyvin EVAL_TOKENS vin.scriptSig=true →
    (W.getTransaction vin.prevout.hash).isSome=true

/-- The input spends a token output of a transaction that has lost one of its own inputs. -/
def LostInput (W : World) (tx : CTransaction) : Prop :=
  ∃vin∈tx.vin,W.ismyvin EVAL_TOKENS vin.scriptSig=true ∧
    ∃p b,W.getTransaction vin.prevout.hash=some (p,b) ∧
      (conditionVout? p vin.prevout.n).isSome=true ∧ ¬W.TokenInputsFound p.vin

/-- Nothing is recorded over the inputs when they are found and nothing is recorded for
any of them. -/
theorem tokenInputs_silent {value : CTransaction → Nat → Judged Int}
    {Q : CTransaction → Nat → Prop}
    (hvalue : ∀t n s,(value t n s).2=none ↔ s=none ∧ Q t n) (vins : List CTxIn) (acc : Int)
    (s : Option String) :
    (W.tokenInputs value vins acc s).2=none ↔ s=none ∧
      ∀vin∈vins,W.ismyvin EVAL_TOKENS vin.scriptSig=true →
        ∃t b,W.getTransaction vin.prevout.hash=some (t,b) ∧ Q t vin.prevout.n := by
  induction vins generalizing acc s with
  | nil => simp [tokenInputs,judged_pure]
  | cons vin rest ih =>
    rw [List.forall_mem_cons]
    unfold tokenInputs
    by_cases hmine : W.ismyvin EVAL_TOKENS vin.scriptSig=true
    · rw [if_pos hmine]
      cases hget : W.getTransaction vin.prevout.hash with
      | none => simp [hmine,judged_bind,refuse,judged_pure]
      | some p =>
        dsimp only
        rw [judged_bind,ih,hvalue]
        constructor
        · rintro ⟨⟨hs,hquiet⟩,hrest⟩
          exact ⟨hs,fun _ => ⟨p.1,p.2,rfl,hquiet⟩,hrest⟩
        · rintro ⟨hs,hhead,hrest⟩
          obtain ⟨t,b,heq,hquiet⟩ := hhead hmine
          obtain rfl := Option.some.inj heq
          exact ⟨⟨hs,hquiet⟩,hrest⟩
    · rw [if_neg hmine,ih]
      simp [hmine]

theorem isTokensvout_silent (reftokenid : Uint256) (t : CTransaction) (n : Nat)
    (s : Option String) :
    (W.isTokensvout true reftokenid t n s).2=none ↔ s=none ∧
      ((conditionVout? t n).isSome=true → W.TokenInputsFound t.vin) := by
  unfold isTokensvout
  rw [if_pos rfl]
  cases conditionVout? t n with
  | none => simp [judged_pure]
  | some out =>
    have hstate : ∀value : CTransaction → Nat → Judged Int,
        (W.exactAmounts value t reftokenid s).2=(W.tokenInputs value t.vin 0 s).2 := fun _ => rfl
    change (W.exactAmounts _ t reftokenid s).2=none ↔ _
    rw [hstate,tokenInputs_silent (Q := fun _ _ => True) (fun _ _ _ => by
      simp [judged_pure])]
    simp [TokenInputsFound,Option.isSome_iff_exists]

theorem tokenInputs_found {value : CTransaction → Nat → Judged Int} {vins : List CTxIn} {acc : Int}
    {s : Option String} (h : (W.tokenInputs value vins acc s).1≠none) : W.TokenInputsFound vins := by
  induction vins generalizing acc s with
  | nil =>
    intro vin hvin
    cases hvin
  | cons vin rest ih =>
    unfold tokenInputs at h
    unfold TokenInputsFound
    rw [List.forall_mem_cons]
    by_cases hmine : W.ismyvin EVAL_TOKENS vin.scriptSig=true
    · rw [if_pos hmine] at h
      cases hget : W.getTransaction vin.prevout.hash with
      | none =>
        rw [hget] at h
        exact absurd rfl h
      | some p =>
        rw [hget] at h
        exact ⟨fun _ => rfl,ih h⟩
    · rw [if_neg hmine] at h
      exact ⟨fun hyes => absurd hyes hmine,ih h⟩

/-- An accepted transaction has recorded something when it has lost an input. -/
theorem tokensValidate_silent (hall : ¬site.AcceptsAll)
    (h : (W.tokensValidate site tx none).1=true) :
    (W.tokensValidate site tx none).2=none ↔ ¬W.LostInput tx := by
  unfold tokensValidate at h ⊢
  rw [if_neg hall] at h ⊢
  rw [refuseIf_true] at h
  obtain ⟨hvout,h⟩ := h
  rw [refuseIf_neg hvout]
  cases hr : decodeTokenOpRet W.strayPk (lastScript tx) with
  | none =>
    rw [hr] at h
    cases h
  | some r =>
    rw [hr] at h
    dsimp only at h ⊢
    rw [refuseIf_true] at h
    obtain ⟨hfound,h⟩ := h
    rw [refuseIf_neg hfound]
    by_cases hcreate : r.funcId=chr 'c'
    · rw [if_pos hcreate,validateFuncid,refuseIf_true,if_pos hcreate] at h
      cases h.2
    · rw [if_neg hcreate] at h ⊢
      rw [refuseIf_true] at h
      obtain ⟨hid,h⟩ := h
      rw [refuseIf_neg hid]
      rw [judged_bind] at h ⊢
      have hsilent : (W.validateAmounts tx r (W.tokensExactAmounts true tx r.tokenid none).1
          (W.tokensExactAmounts true tx r.tokenid none).2).2=
            (W.tokensExactAmounts true tx r.tokenid none).2 :=
        honest_validateAmounts.silent _ (by rw [h]; decide)
      have hstate : (W.tokensExactAmounts true tx r.tokenid none).2=
          (W.tokenInputs (W.isTokensvout true r.tokenid) tx.vin 0 none).2 := rfl
      have hinputs : (W.tokenInputs (W.isTokensvout true r.tokenid) tx.vin 0 none).1≠none := by
        intro hnone
        have hamounts : (W.tokensExactAmounts true tx r.tokenid none).1=none := by
          change Option.map _ (W.tokenInputs (W.isTokensvout true r.tokenid) tx.vin 0 none).1=none
          rw [hnone]
          rfl
        rw [hamounts] at h
        cases h
      rw [hsilent,hstate,tokenInputs_silent (isTokensvout_silent r.tokenid)]
      constructor
      · rintro ⟨-,hquiet⟩ ⟨vin,hvin,hmine,p,b,hget,hcond,hlost⟩
        obtain ⟨t,b',hget',hq⟩ := hquiet vin hvin hmine
        rw [hget] at hget'
        obtain ⟨rfl,-⟩ := Prod.mk.inj (Option.some.inj hget')
        exact hlost (hq hcond)
      · intro hlost
        refine ⟨rfl,?_⟩
        intro vin hvin hmine
        obtain ⟨p,hget⟩ := Option.isSome_iff_exists.mp (tokenInputs_found hinputs vin hvin hmine)
        refine ⟨p.1,p.2,hget,?_⟩
        intro hcond
        by_contra hnot
        exact hlost ⟨vin,hvin,hmine,p.1,p.2,hget,hcond,hnot⟩

end World

namespace EvalNode

variable {N : EvalNode} {e2 : UInt8} {tx : CTransaction}

/-- The codes of the five contracts. -/
def contractCodes : List UInt8 :=
  [EVAL_TOKENS,EVAL_ASSETS,EVAL_FAUCET,EVAL_REWARDS,EVAL_IMPORTCOIN]

/-- The token contract looks at a transaction one of whose parents has lost an input. -/
def LostInput (N : EvalNode) (code : List UInt8) (tx : CTransaction) : Prop :=
  code.head?=some EVAL_TOKENS ∧ 0 ≤ N.HUSH_CONNECTING ∧ ¬N.site.AcceptsAll ∧ N.world.LostInput tx

theorem contractCodes_special :
    ∀ecode∈contractCodes,¬(EVAL_FIRSTUSER ≤ ecode ∧ ecode ≤ EVAL_LASTUSER) ∧
      ecode≠EVAL_IMPORTPAYOUT := by
  simp only [contractCodes,List.forall_mem_cons]
  exact ⟨by decide,by decide,by decide,by decide,by decide,by simp⟩

/-- Four of the contracts record refusals and nothing else; the token contract records
its refusals. -/
theorem validate_records {ecode : UInt8} (hcode : ecode∈contractCodes)
    (himport : ecode≠EVAL_IMPORTCOIN) :
    ∃v,N.validate e2 ecode=some v ∧ Recorded false (v tx) ∧
      ((ecode=EVAL_TOKENS ∧ v=N.world.tokensValidate N.site) ∨
        (ecode≠EVAL_TOKENS ∧ Honest false (v tx))) := by
  simp only [contractCodes,List.mem_cons,List.not_mem_nil,or_false,himport] at hcode
  obtain rfl | rfl | rfl | rfl := hcode
  · exact ⟨_,rfl,World.recorded_tokensValidate,.inl ⟨rfl,rfl⟩⟩
  · exact ⟨_,rfl,World.honest_assetsValidate.recorded,.inr ⟨by decide,World.honest_assetsValidate⟩⟩
  · exact ⟨_,rfl,World.honest_faucetValidate.recorded,.inr ⟨by decide,World.honest_faucetValidate⟩⟩
  · exact ⟨_,rfl,World.honest_rewardsValidate.recorded,.inr ⟨by decide,World.honest_rewardsValidate⟩⟩

theorem dispatch_recorded {ecode : UInt8} {vparams : List UInt8} (hcode : ecode∈contractCodes) :
    Recorded false (N.dispatch e2 (ecode::vparams) tx) := by
  obtain ⟨huser,hpayout⟩ := contractCodes_special ecode hcode
  apply Recorded.refuseWhen
  rw [if_neg huser,if_neg hpayout]
  by_cases himport : ecode=EVAL_IMPORTCOIN
  · rw [if_pos himport]
    exact World.honest_importCoin.recorded
  · rw [if_neg himport]
    obtain ⟨v,hv,hrecorded,-⟩ := validate_records hcode himport
    apply Recorded.ite (.pure (by decide))
    apply Recorded.refuseWhen
    rw [hv]
    exact .refuseWhen hrecorded

/-- An accepted transaction has recorded nothing, unless the token contract has looked
at one that has lost an input. -/
theorem dispatch_accepted {ecode : UInt8} {vparams : List UInt8} (hcode : ecode∈contractCodes)
    (h : (N.dispatch e2 (ecode::vparams) tx none).1=true) :
    (N.dispatch e2 (ecode::vparams) tx none).2=none ↔ ¬N.LostInput (ecode::vparams) tx := by
  obtain ⟨huser,hpayout⟩ := contractCodes_special ecode hcode
  rw [dispatch,refuseIf_true,if_neg huser,if_neg hpayout] at h
  obtain ⟨hdisabled,h⟩ := h
  rw [dispatch,refuseIf_neg hdisabled,if_neg huser,if_neg hpayout]
  have hother : ecode≠EVAL_TOKENS → ¬N.LostInput (ecode::vparams) tx := by
    rintro hne ⟨htoken,-⟩
    exact hne (Option.some.inj htoken)
  by_cases himport : ecode=EVAL_IMPORTCOIN
  · rw [if_pos himport] at h ⊢
    have hsilent := World.honest_importCoin.silent none (by rw [h]; decide)
    exact iff_of_true hsilent (hother (by rw [himport]; decide))
  · rw [if_neg himport] at h ⊢
    obtain ⟨v,hv,-,hcases⟩ := validate_records hcode himport
    unfold processCC at h ⊢
    by_cases hconnecting : N.HUSH_CONNECTING<0
    · rw [if_pos hconnecting]
      exact iff_of_true rfl fun hlost => absurd hlost.2.1 (not_le.mpr hconnecting)
    · rw [if_neg hconnecting] at h ⊢
      rw [refuseIf_true,hv] at h
      obtain ⟨hactive,h⟩ := h
      dsimp only at h
      rw [refuseIf_true] at h
      obtain ⟨hparams,h⟩ := h
      rw [refuseIf_neg hactive,hv]
      dsimp only
      rw [refuseIf_neg hparams]
      obtain ⟨htoken,rfl⟩ | ⟨hne,hhonest⟩ := hcases
      · by_cases hall : N.site.AcceptsAll
        · rw [World.tokensValidate,if_pos hall]
          exact iff_of_true rfl fun hlost => hlost.2.2.1 hall
        · rw [World.tokensValidate_silent hall h]
          apply not_congr
          constructor
          · intro hlost
            exact ⟨by rw [htoken]; rfl,not_lt.mp hconnecting,hall,hlost⟩
          · intro hlost
            exact hlost.2.2.2
      · exact iff_of_true (hhonest.silent none (by rw [h]; decide)) (hother hne)

/-- A refusal is always recorded, and `RunCCEval` gives the result of `Dispatch` unless
an accepted token transaction has lost an input of a parent: then it is refused. -/
theorem run_follows_dispatch_iff (N : EvalNode) (e2 ecode : UInt8) (vparams : List UInt8)
    (tx : CTransaction) (hcode : ecode∈contractCodes) :
    ((N.dispatch e2 (ecode::vparams) tx none).1=false →
      (N.dispatch e2 (ecode::vparams) tx none).2≠none) ∧
    (¬N.LostInput (ecode::vparams) tx →
      (N.runCCEval e2 (ecode::vparams) tx=true ↔
        (N.dispatch e2 (ecode::vparams) tx none).1=true)) ∧
    (N.LostInput (ecode::vparams) tx → (N.dispatch e2 (ecode::vparams) tx none).1=true →
      N.runCCEval e2 (ecode::vparams) tx=false) := by
  have hrecorded : (N.dispatch e2 (ecode::vparams) tx none).1=false →
      (N.dispatch e2 (ecode::vparams) tx none).2≠none := dispatch_recorded hcode none
  have hrun : N.runCCEval e2 (ecode::vparams) tx=true ↔
      (N.dispatch e2 (ecode::vparams) tx none).2=none := Option.isNone_iff_eq_none
  refine ⟨hrecorded,?_,?_⟩
  · intro hfound
    rw [hrun]
    constructor
    · intro hnone
      by_contra hfalse
      rw [Bool.not_eq_true] at hfalse
      exact hrecorded hfalse hnone
    · intro haccept
      exact (dispatch_accepted hcode haccept).mpr hfound
  · intro hlost haccept
    rw [← Bool.not_eq_true,hrun,dispatch_accepted hcode haccept]
    exact not_not.mpr hlost

/-- A transfer of token 9 one of whose inputs is not found. -/
def orphanTx : CTransaction :=
  plainTx 50 [⟨⟨99,0⟩,[3,0xf2,7,1]⟩] [⟨3,[2,0xf2,8,0xcc]⟩,⟨0,transferScriptTo 9 (World.keyOf 8)⟩]

/-- All of token 9 goes to key 8, together with an output of the transfer above, which
counts as nothing. -/
def mixedTransfer : CTransaction :=
  plainTx 51 [⟨⟨9,0⟩,[3,0xf2,7,1]⟩,⟨⟨50,0⟩,[3,0xf2,8,1]⟩]
    [⟨100,[2,0xf2,8,0xcc]⟩,⟨0,transferScriptTo 9 (World.keyOf 8)⟩]

def tokenNode : EvalNode :=
  {marketNode with world := World.ofKeys (indexOf [World.coinTx,World.creationTx,orphanTx])}

theorem accepted_transfer_refused :
    (tokenNode.dispatch 0 [EVAL_TOKENS] mixedTransfer none).1=true ∧
      tokenNode.runCCEval 0 [EVAL_TOKENS] mixedTransfer=false := by
  decide +kernel

theorem plain_transfer_runs : tokenNode.runCCEval 0 [EVAL_TOKENS] World.transferTx=true := by
  apply ((run_follows_dispatch_iff tokenNode 0 EVAL_TOKENS [] World.transferTx (by decide)).2.1
    ?_).mpr (by decide +kernel)
  rintro ⟨-,-,-,vin,hvin,-,p,b,hget,-,hlost⟩
  obtain rfl := List.mem_singleton.mp hvin
  obtain ⟨rfl,-⟩ := Prod.mk.inj (Option.some.inj (hget.symm.trans (by rfl)))
  apply hlost
  intro g hg
  obtain rfl := List.mem_singleton.mp hg
  decide +kernel

end EvalNode

end Zdeex.Cc
