import Mathlib.Algebra.BigOperators.Group.List.Basic
import Mathlib.Algebra.Order.BigOperators.Group.List
import Mathlib.Tactic.Linarith
import Zdeex.Cc.Rewards

namespace Zdeex.Cc

open Zdeex.Framework
open Zdeex.Coins
open Zdeex.Block
open Zdeex.Crosschain

namespace World

variable (W : World)

/-- A condition output at the address of the rewards contract. -/
def isRewardsOut (out : CTxOut) : Bool :=
  isPayToCryptoCondition out.scriptPubKey &&
    W.getScriptAddress out.scriptPubKey==some (W.unspendableCCaddr EVAL_REWARDS)

/-- The input spends an output of the contract. -/
def SpendsRewards (vin : CTxIn) : Prop :=
  ∃tx b,W.getTransaction vin.prevout.hash=some (tx,b) ∧
    W.isRewardsOut (W.voutAt tx vin.prevout.n)=true

/-- The input spends the locked funds of a lock transaction. -/
def SpendsDeposit (vin : CTxIn) (lockTx : CTransaction) : Prop :=
  vin.prevout.n=0 ∧ (∃b,W.getTransaction vin.prevout.hash=some (lockTx,b)) ∧
    W.isRewardsOut (W.voutAt lockTx 0)=true ∧
    ∃lock,decodeRewardsOpRet lockTx.hash (lastScript lockTx)=some lock ∧ lock.funcid=chr 'L'

/-- Funding of a plan in an output: what its creation, additions and unlocks put at the
address of the contract. -/
def fundingOut (sbits : BitVec 64) (fundingtxid : Uint256) (tx : CTransaction) (v : Nat) : Int :=
  match decodeRewardsOpRet tx.hash (lastScript tx) with
  | none => 0
  | some r =>
      if r.funcid≠chr 'L' ∧ r.sbits=sbits ∧ r.fundingtxid=fundingtxid ∧
        W.isRewardsOut (W.voutAt tx v)=true then (W.voutAt tx v).nValue
      else 0

def fundingIn (sbits : BitVec 64) (fundingtxid : Uint256) (vin : CTxIn) : Int :=
  match W.getTransaction vin.prevout.hash with
  | none => 0
  | some (tx,_) => W.fundingOut sbits fundingtxid tx vin.prevout.n

def spentFunding (sbits : BitVec 64) (fundingtxid : Uint256) (tx : CTransaction) : Int :=
  (tx.vin.map (W.fundingIn sbits fundingtxid)).sum

def createdFunding (sbits : BitVec 64) (fundingtxid : Uint256) (tx : CTransaction) : Int :=
  ((List.range tx.vout.length).map (W.fundingOut sbits fundingtxid tx)).sum

/-- Everything that a transaction pays to a script. -/
def paidTo (tx : CTransaction) (script : List UInt8) : Int :=
  ((tx.vout.filter fun out => out.scriptPubKey==script).map CTxOut.nValue).sum

/-- An unlock with what the validator looks up for it. -/
structure Unlock (stray : RewardsFunding) (tx : CTransaction) where
  r : RewardsOpRet
  funding : RewardsFunding
  lockTx : CTransaction
  lock : RewardsOpRet
  opret : decodeRewardsOpRet tx.hash (lastScript tx)=some r
  funcid : r.funcid=chr 'U'
  fundingTx : ∃t b,W.getTransaction r.fundingtxid=some (t,b) ∧ fundingOf stray r.sbits t=some funding
  locked : ∃b,W.getTransaction (vin0 tx).prevout.hash=some (lockTx,b)
  lockOpret : decodeRewardsOpRet (vin0 tx).prevout.hash (lastScript lockTx)=some lock
  lockFuncid : lock.funcid=chr 'L'
  plan : r.fundingtxid=lock.fundingtxid

/-- What the comments of the contract say about the inputs of an unlock: the first one
is the deposit of a lock of the plan, the others are no deposits and belong to the plan. A
deposit that goes back alone gets nothing from the shielded pool. -/
structure Unlock.Documented {W : World} {stray : RewardsFunding} {tx : CTransaction}
    (u : W.Unlock stray tx) (site : Site) : Prop where
  deposit : (vin0 tx).prevout.n=0 ∧ u.lock.sbits=u.funding.sbits ∧
    W.isRewardsOut (W.voutAt u.lockTx 0)=true
  funding : ∀vin∈tx.vin.tail,∀t b r,W.getTransaction vin.prevout.hash=some (t,b) →
    decodeRewardsOpRet t.hash (lastScript t)=some r →
    W.isRewardsOut (W.voutAt t vin.prevout.n)=true →
    r.funcid≠chr 'L' ∧ r.sbits=u.funding.sbits ∧ r.fundingtxid=u.r.fundingtxid
  recover : tx.vin.length=1 → isPayToCryptoCondition (W.voutAt tx 0).scriptPubKey=false →
    tx.getShieldedValueIn site.MAX_MONEY=some 0

/-- The reward of an unlock. -/
def Unlock.reward {W : World} {stray : RewardsFunding} {tx : CTransaction} (u : W.Unlock stray tx)
    (site : Site) : Int :=
  W.unlockReward site u.funding (vin0 tx).prevout.hash u.lockTx

/-- A deposit is spent as the first input, by a transaction that pays no more than it
and its reward to the owner, and a plan loses no more than the reward and the fee. -/
def DepositsSafe (site : Site) (stray : RewardsFunding) (tx : CTransaction) : Prop :=
  (∀i vin lockTx,tx.vin[i]?=some vin → W.SpendsDeposit vin lockTx →
    i=0 ∧ ∃u : W.Unlock stray tx,u.lockTx=lockTx ∧
      paidTo tx (W.voutAt lockTx 1).scriptPubKey ≤ (W.voutAt lockTx 0).nValue+u.reward site) ∧
  ∀sbits fundingtxid,W.spentFunding sbits fundingtxid tx=0 ∨ ∃u : W.Unlock stray tx,
    W.spentFunding sbits fundingtxid tx ≤
      W.createdFunding sbits fundingtxid tx+u.reward site+REWARDS_TXFEE

/-- What the contract counts for an input. -/
def rewardsIn (sbits : BitVec 64) (fundingtxid : Uint256) (vin : CTxIn) : Int :=
  match W.getTransaction vin.prevout.hash with
  | none => 0
  | some (tx,_) => W.isRewardsvout tx vin.prevout.n sbits fundingtxid

/-- What holds of an unlock that was accepted with a reward. -/
structure Unlock.Rewarded {W : World} {stray : RewardsFunding} {tx : CTransaction}
    (u : W.Unlock stray tx) (site : Site) : Prop where
  vouts : tx.vout.length=3
  change : isPayToCryptoCondition (W.voutAt tx 0).scriptPubKey=true
  paid : (W.voutAt tx 1).scriptPubKey=(W.voutAt u.lockTx 1).scriptPubKey ∧
    isPayToCryptoCondition (W.voutAt tx 1).scriptPubKey=false
  amounts : (tx.vin.map (W.rewardsIn u.funding.sbits u.r.fundingtxid)).sum=
    W.rewardsOutputs tx u.funding.sbits u.r.fundingtxid+(REWARDS_TXFEE+(W.voutAt tx 1).nValue)
  limit : (W.voutAt tx 1).nValue ≤ (W.voutAt u.lockTx 0).nValue+u.reward site
  opret : (W.voutAt tx 2).nValue ≤ 0

variable {W} {site : Site} {stray : RewardsFunding} {tx : CTransaction} {s : Option String}

theorem rewardsInputs_some {sbits : BitVec 64} {fundingtxid : Uint256} {vins : List CTxIn}
    {acc inputs : Int} (hmine : ∀vin∈vins,W.ismyvin EVAL_REWARDS vin.scriptSig=true)
    (h : (W.rewardsInputs sbits fundingtxid vins acc s).1=some inputs) :
    inputs=acc+(vins.map (W.rewardsIn sbits fundingtxid)).sum := by
  induction vins generalizing acc with
  | nil =>
    obtain rfl := Option.some.inj h
    simp
  | cons vin rest ih =>
    rw [rewardsInputs,if_pos (hmine vin List.mem_cons_self)] at h
    cases hget : W.getTransaction vin.prevout.hash with
    | none =>
      rw [hget] at h
      cases h
    | some p =>
      rw [hget] at h
      dsimp only at h
      rw [failIf_some] at h
      have hrest := ih (fun v hv => hmine v (List.mem_cons_of_mem vin hv)) h.2
      rw [hrest,List.map_cons,List.sum_cons,rewardsIn,hget,add_assoc]

/-- The first of the inputs that the validator checks. -/
theorem validateReward_true {vinTx : CTransaction} {sbits : BitVec 64} {fundingtxid : Uint256}
    {reward : Int} (hmine : ∀vin∈tx.vin,W.ismyvin EVAL_REWARDS vin.scriptSig=true)
    (h : (W.validateReward tx vinTx sbits fundingtxid reward s).1=true) :
    tx.vout.length=3 ∧ isPayToCryptoCondition (W.voutAt tx 0).scriptPubKey=true ∧
      ((W.voutAt tx 1).scriptPubKey=(W.voutAt vinTx 1).scriptPubKey ∧
        isPayToCryptoCondition (W.voutAt tx 1).scriptPubKey=false) ∧
      (tx.vin.map (W.rewardsIn sbits fundingtxid)).sum=
        W.rewardsOutputs tx sbits fundingtxid+(REWARDS_TXFEE+(W.voutAt tx 1).nValue) ∧
      (W.voutAt tx 1).nValue ≤ (W.voutAt vinTx 0).nValue+reward ∧ (W.voutAt tx 2).nValue ≤ 0 := by
  unfold validateReward at h
  rw [refuseIf_true,refuseIf_true,refuseIf_true,refuseIf_true,refuseIf_true,whenSome_true] at h
  obtain ⟨-,hlen,hchange,hpaid,hscript,inputs,hinputs,h⟩ := h
  rw [refuseIf_true,refuseIf_true,refuseIf_true] at h
  obtain ⟨hamounts,hlimit,hopret,-⟩ := h
  have hsum := rewardsInputs_some hmine hinputs
  rw [zero_add] at hsum
  rw [not_not] at hlen hscript hamounts
  exact ⟨hlen,by simpa using hchange,⟨hscript,by simpa using hpaid⟩,hsum.symm.trans hamounts,
    not_lt.mp hlimit,not_lt.mp hopret⟩

/-- Everything that is accepted is an unlock, whose fee is checked; it either gives one
deposit back or is paid a reward. -/
theorem rewardsValidate_true (h : (W.rewardsValidate site stray tx s).1=true) :
    ∃u : W.Unlock stray tx,W.checkTxFee site tx REWARDS_TXFEE=true ∧
      ((tx.vin.length=1 ∧ isPayToCryptoCondition (W.voutAt tx 0).scriptPubKey=false) ∨
        u.Rewarded site) := by
  rw [rewardsValidate,refuseIf_true] at h
  obtain ⟨-,h⟩ := h
  cases hr : decodeRewardsOpRet tx.hash (lastScript tx) with
  | none =>
    rw [hr] at h
    cases h
  | some r =>
    rw [hr] at h
    dsimp only at h
    cases hget : W.getTransaction r.fundingtxid with
    | none =>
      rw [hget] at h
      cases h
    | some p =>
      rw [hget] at h
      dsimp only at h
      cases hfunding : fundingOf stray r.sbits p.1 with
      | none =>
        rw [hfunding] at h
        cases h
      | some funding =>
        rw [hfunding] at h
        dsimp only at h
        rw [refuseIf_true] at h
        obtain ⟨-,h⟩ := h
        split_ifs at h with hF hA hL hU
        · cases h
        · cases h
        · cases h
        · rw [validateUnlock,refuseIf_true] at h
          obtain ⟨-,h⟩ := h
          cases hlocked : W.getTransaction (vin0 tx).prevout.hash with
          | none =>
            rw [hlocked] at h
            cases h
          | some q =>
            rw [hlocked] at h
            dsimp only at h
            cases hlock : decodeRewardsOpRet (vin0 tx).prevout.hash (lastScript q.1) with
            | none =>
              rw [hlock] at h
              cases h
            | some lock =>
              rw [hlock] at h
              dsimp only at h
              rw [refuseIf_true,refuseIf_true,refuseIf_true,refuseIf_true,refuseIf_true] at h
              obtain ⟨hlockL,hplan,hmine,hfee,-,h⟩ := h
              rw [not_not] at hlockL hplan
              rw [Bool.not_eq_false] at hmine hfee
              refine ⟨⟨r,funding,q.1,lock,hr,hU,⟨p.1,p.2,hget,hfunding⟩,⟨q.2,hlocked⟩,hlock,
                hlockL,hplan⟩,hfee,?_⟩
              split_ifs at h with hform
              · exact .inl hform
              · obtain ⟨hvouts,hchange,hpaid,hamounts,hlimit,hopret⟩ :=
                  validateReward_true (List.all_eq_true.mp hmine) h
                exact .inr ⟨hvouts,hchange,hpaid,hamounts,hlimit,hopret⟩
        · cases h

theorem rewardsCalc_nonneg {amount APR minseconds maxseconds : Int} {txid : Uint256} :
    0 ≤ W.rewardsCalc site amount txid APR minseconds maxseconds := by
  have hraw : ∀duration,0 ≤ rawReward site amount APR duration := by
    intro duration
    unfold rawReward mpzGetUi2
    split_ifs <;> omega
  have hamount : 0 ≤ amount%2^64 := Int.emod_nonneg amount (by decide)
  unfold rewardsCalc
  dsimp only
  split
  · exact le_rfl
  · generalize (if maxseconds<(W.ccDuration site txid).2 then maxseconds
      else (W.ccDuration site txid).2)=duration
    split
    · exact hamount
    · exact hraw duration

theorem Unlock.reward_nonneg (u : W.Unlock stray tx) : 0 ≤ u.reward site := rewardsCalc_nonneg

/-- With the fee the outputs stay below the inputs. -/
theorem checkTxFee_true {txfee : Int} (hfee : txfee<2^63) (hmoney : 0 ≤ site.MAX_MONEY ∧
    site.MAX_MONEY<2^63) (hin : 0 ≤ W.getValueIn site tx)
    (h : W.checkTxFee site tx txfee=true) :
    (∀o∈tx.vout,0 ≤ o.nValue) ∧ (tx.vout.map CTxOut.nValue).sum ≤ W.getValueIn site tx := by
  unfold checkTxFee at h
  cases hout : tx.getValueOut site.MAX_MONEY with
  | none => simp [hout] at h
  | some valueOut =>
    rw [hout,decide_eq_true_eq] at h
    have hle := CTransaction.sumInRange_le ⟨le_rfl,hmoney.1⟩ hout
    obtain ⟨hnonneg,hsum⟩ := CTransaction.sum_vout_le_valueOut hout
    exact ⟨hnonneg,by omega⟩

theorem paidTo_le_sum (h : ∀o∈tx.vout,0 ≤ o.nValue) (script : List UInt8) :
    paidTo tx script ≤ (tx.vout.map CTxOut.nValue).sum := by
  unfold paidTo
  apply List.Sublist.sum_le_sum (List.filter_sublist.map _)
  intro x hx
  obtain ⟨o,ho,rfl⟩ := List.mem_map.mp hx
  exact h o ho

section Accepted

variable (u : W.Unlock stray tx)

theorem Unlock.lockTx_hash (hW : W.Indexed) : u.lockTx.hash=(vin0 tx).prevout.hash := by
  obtain ⟨b,hget⟩ := u.locked
  exact hW.hash _ _ _ hget

/-- The deposit is an amount. -/
theorem Unlock.deposit_nonneg (hW : W.Indexed) : 0 ≤ (W.voutAt u.lockTx 0).nValue := by
  obtain ⟨b,hget⟩ := u.locked
  apply voutAt_nonneg (hW.vout _ _ _ hget)
  apply List.length_pos_of_ne_nil
  intro hempty
  have hnone : decodeRewardsOpRet (vin0 tx).prevout.hash (lastScript u.lockTx)=none := by
    rw [lastScript,hempty]
    rfl
  rw [u.lockOpret] at hnone
  cases hnone

/-- A deposit that goes back alone. -/
theorem Unlock.recover_paid (hW : W.Indexed) (hmoney : 0 ≤ site.MAX_MONEY ∧ site.MAX_MONEY<2^63)
    (hdoc : u.Documented site) (hfee : W.checkTxFee site tx REWARDS_TXFEE=true)
    (hlen : tx.vin.length=1) (hnormal : isPayToCryptoCondition (W.voutAt tx 0).scriptPubKey=false)
    (script : List UInt8) : paidTo tx script ≤ (W.voutAt u.lockTx 0).nValue := by
  obtain ⟨vin,hvin⟩ := List.length_eq_one_iff.mp hlen
  have hvin0 : vin0 tx=vin := by rw [vin0,hvin,List.headD_cons]
  obtain ⟨b,hget⟩ := u.locked
  have hvalue : W.getValueIn site tx=(W.voutAt u.lockTx 0).nValue := by
    rw [hvin0] at hget
    have hn : vin.prevout.n=0 := hvin0 ▸ hdoc.deposit.1
    simp [getValueIn,hvin,inputValue,hget,hn,hdoc.recover hlen hnormal]
  have hin : 0 ≤ W.getValueIn site tx := by
    rw [hvalue]
    exact u.deposit_nonneg hW
  obtain ⟨hnonneg,hsum⟩ := checkTxFee_true (by decide) hmoney hin hfee
  rw [hvalue] at hsum
  exact (paidTo_le_sum hnonneg script).trans hsum

/-- A deposit that goes back with a reward. -/
theorem Unlock.Rewarded.paid_le {u : W.Unlock stray tx} (h : u.Rewarded site) :
    paidTo tx (W.voutAt u.lockTx 1).scriptPubKey ≤ (W.voutAt u.lockTx 0).nValue+u.reward site := by
  obtain ⟨o0,o1,o2,hvout⟩ := List.length_eq_three.mp h.vouts
  have h0 : W.voutAt tx 0=o0 := by rw [voutAt,hvout]; rfl
  have h1 : W.voutAt tx 1=o1 := by rw [voutAt,hvout]; rfl
  have h2 : W.voutAt tx 2=o2 := by rw [voutAt,hvout]; rfl
  have hchange := h.change
  obtain ⟨hpaid,hnormal⟩ := h.paid
  have hlimit := h.limit
  have hopret := h.opret
  rw [h0] at hchange
  rw [h1] at hpaid hnormal hlimit
  rw [h2] at hopret
  have hne : o0.scriptPubKey≠o1.scriptPubKey := by
    intro heq
    rw [heq,hnormal] at hchange
    cases hchange
  rw [← hpaid]
  have hle : paidTo tx o1.scriptPubKey ≤ o1.nValue := by
    rw [paidTo,hvout]
    by_cases hop : o2.scriptPubKey=o1.scriptPubKey
    · simpa [hne,hop] using hopret
    · simp [hne,hop]
  omega

/-- The locked funds are no funding. -/
theorem Unlock.fundingIn_vin0 (u : W.Unlock stray tx) (hW : W.Indexed) (sbits : BitVec 64) (fundingtxid : Uint256) :
    W.fundingIn sbits fundingtxid (vin0 tx)=0 := by
  obtain ⟨b,hget⟩ := u.locked
  simp only [fundingIn,hget,fundingOut,u.lockTx_hash hW,u.lockOpret,u.lockFuncid,ne_eq,
    not_true_eq_false,false_and,if_false]

/-- All that an input gives to a plan is counted by the contract. -/
theorem Unlock.Documented.rewardsIn_eq {u : W.Unlock stray tx} (hdoc : u.Documented site)
    {vin : CTxIn} (hvin : vin∈tx.vin.tail) :
    W.fundingIn u.funding.sbits u.r.fundingtxid vin=
      W.rewardsIn u.funding.sbits u.r.fundingtxid vin := by
  unfold fundingIn rewardsIn
  cases hget : W.getTransaction vin.prevout.hash with
  | none => rfl
  | some p =>
    dsimp only
    unfold fundingOut isRewardsvout
    cases hr : decodeRewardsOpRet p.1.hash (lastScript p.1) with
    | none => simp
    | some r =>
      dsimp only
      cases hout : W.isRewardsOut (W.voutAt p.1 vin.prevout.n) with
      | false =>
        simp only [Bool.false_eq_true,and_false,if_false]
        by_cases hcc : isPayToCryptoCondition (W.voutAt p.1 vin.prevout.n).scriptPubKey=true
        · have haddr : W.getScriptAddress (W.voutAt p.1 vin.prevout.n).scriptPubKey≠
              some (W.unspendableCCaddr EVAL_REWARDS) := by
            simpa [isRewardsOut,hcc] using hout
          simp [haddr]
        · simp [hcc]
      | true =>
        obtain ⟨hL,hsbits,hplan⟩ := hdoc.funding vin hvin p.1 p.2 r hget hr hout
        rw [isRewardsOut,Bool.and_eq_true,beq_iff_eq] at hout
        simp [hL,hsbits,hplan,hout.1,hout.2]

/-- Inputs of an unlock are no funding of another plan. -/
theorem Unlock.Documented.fundingIn_eq_zero {u : W.Unlock stray tx} (hdoc : u.Documented site)
    {sbits : BitVec 64} {fundingtxid : Uint256}
    (hne : ¬(sbits=u.funding.sbits ∧ fundingtxid=u.r.fundingtxid)) {vin : CTxIn}
    (hvin : vin∈tx.vin.tail) : W.fundingIn sbits fundingtxid vin=0 := by
  unfold fundingIn
  cases hget : W.getTransaction vin.prevout.hash with
  | none => rfl
  | some p =>
    dsimp only
    unfold fundingOut
    cases hr : decodeRewardsOpRet p.1.hash (lastScript p.1) with
    | none => rfl
    | some r =>
      dsimp only
      apply if_neg
      rintro ⟨-,rfl,rfl,hout⟩
      exact hne (hdoc.funding vin hvin p.1 p.2 r hget hr hout).2

/-- What the contract counts at the outputs of an unlock is funding again. -/
theorem Unlock.rewardsOutputs_eq :
    W.rewardsOutputs tx u.funding.sbits u.r.fundingtxid=
      W.createdFunding u.funding.sbits u.r.fundingtxid tx := by
  unfold rewardsOutputs createdFunding
  congr 1
  apply List.map_congr_left
  intro v _
  have hU : u.r.funcid≠chr 'L' := by
    rw [u.funcid]
    decide
  simp only [isRewardsvout,fundingOut,u.opret,isRewardsOut,Bool.and_eq_true,beq_iff_eq]
  by_cases hcc : isPayToCryptoCondition (W.voutAt tx v).scriptPubKey=true
  · simp [hcc,hU]
  · simp [hcc]

theorem Unlock.vin_eq (h : tx.vin≠[]) : tx.vin=vin0 tx::tx.vin.tail := by
  obtain ⟨vin,rest,hvin⟩ := List.exists_cons_of_ne_nil h
  rw [vin0,hvin,List.headD_cons,List.tail_cons]

/-- The funding that an unlock takes from a plan. -/
theorem Unlock.Rewarded.funding_le (hW : W.Indexed) {u : W.Unlock stray tx} (h : u.Rewarded site)
    (hdoc : u.Documented site) (hvin : tx.vin≠[]) :
    W.spentFunding u.funding.sbits u.r.fundingtxid tx ≤
      W.createdFunding u.funding.sbits u.r.fundingtxid tx+u.reward site+REWARDS_TXFEE := by
  obtain ⟨hn,hsbits,hout⟩ := hdoc.deposit
  obtain ⟨b,hget⟩ := u.locked
  have hdeposit : W.rewardsIn u.funding.sbits u.r.fundingtxid (vin0 tx)=
      (W.voutAt u.lockTx 0).nValue := by
    rw [isRewardsOut,Bool.and_eq_true,beq_iff_eq] at hout
    simp [rewardsIn,hget,isRewardsvout,u.lockTx_hash hW,u.lockOpret,hn,hsbits,u.plan,hout.1,hout.2]
  have htail : (tx.vin.tail.map (W.fundingIn u.funding.sbits u.r.fundingtxid))=
      tx.vin.tail.map (W.rewardsIn u.funding.sbits u.r.fundingtxid) :=
    List.map_congr_left fun vin hmem => hdoc.rewardsIn_eq hmem
  have hamounts := h.amounts
  rw [Unlock.vin_eq hvin,List.map_cons,List.sum_cons,hdeposit,u.rewardsOutputs_eq] at hamounts
  rw [spentFunding,Unlock.vin_eq hvin,List.map_cons,List.sum_cons,u.fundingIn_vin0 hW,htail]
  have hlimit := h.limit
  omega

end Accepted

theorem SpendsDeposit.spendsRewards {vin : CTxIn} {lockTx : CTransaction}
    (h : W.SpendsDeposit vin lockTx) : W.SpendsRewards vin := by
  obtain ⟨hn,⟨b,hget⟩,hout,-⟩ := h
  exact ⟨lockTx,b,hget,by rwa [hn]⟩

theorem fundingIn_of_not_spends {vin : CTxIn} (h : ¬W.SpendsRewards vin) (sbits : BitVec 64)
    (fundingtxid : Uint256) : W.fundingIn sbits fundingtxid vin=0 := by
  unfold fundingIn
  cases hget : W.getTransaction vin.prevout.hash with
  | none => rfl
  | some p =>
    dsimp only
    unfold fundingOut
    cases decodeRewardsOpRet p.1.hash (lastScript p.1) with
    | none => rfl
    | some r =>
      dsimp only
      apply if_neg
      rintro ⟨-,-,-,hout⟩
      exact h ⟨p.1,p.2,hget,hout⟩

theorem spentFunding_eq_zero {sbits : BitVec 64} {fundingtxid : Uint256}
    (h : ∀vin∈tx.vin,W.fundingIn sbits fundingtxid vin=0) :
    W.spentFunding sbits fundingtxid tx=0 := by
  apply List.sum_eq_zero
  intro x hx
  obtain ⟨vin,hvin,rfl⟩ := List.mem_map.mp hx
  exact h vin hvin

/-- Only the first input of an unlock is a deposit. -/
theorem Unlock.Documented.first {u : W.Unlock stray tx} (hdoc : u.Documented site)
    (hvin : tx.vin≠[]) {i : Nat} {vin : CTxIn} {lockTx : CTransaction} (hi : tx.vin[i]?=some vin)
    (h : W.SpendsDeposit vin lockTx) : i=0 ∧ u.lockTx=lockTx := by
  obtain ⟨hn,⟨b,hget⟩,hout,lock,hlock,hL⟩ := h
  rw [Unlock.vin_eq hvin] at hi
  cases i with
  | zero =>
    obtain rfl := Option.some.inj hi
    obtain ⟨b',hget'⟩ := u.locked
    rw [hget] at hget'
    exact ⟨rfl,(Prod.mk.inj (Option.some.inj hget')).1.symm⟩
  | succ i =>
    have hmem : vin∈tx.vin.tail := List.mem_of_getElem? hi
    exact absurd hL (hdoc.funding vin hmem lockTx b lock hget hlock (by rwa [hn])).1

/-- A transaction whose rewards inputs were accepted is safe when it is as documented. -/
theorem depositsSafe_of_documented (hW : W.Indexed)
    (hmoney : 0 ≤ site.MAX_MONEY ∧ site.MAX_MONEY<2^63)
    (haccept : (∃vin∈tx.vin,W.SpendsRewards vin) → (W.rewardsValidate site stray tx s).1=true)
    (hdoc : ∀u : W.Unlock stray tx,u.Documented site) : W.DepositsSafe site stray tx := by
  by_cases hspends : ∃vin∈tx.vin,W.SpendsRewards vin
  · obtain ⟨u,hfee,hform⟩ := rewardsValidate_true (haccept hspends)
    obtain ⟨vin₀,hvin₀,-⟩ := hspends
    have hvin : tx.vin≠[] := List.ne_nil_of_mem hvin₀
    refine ⟨?_,?_⟩
    · intro i vin lockTx hi hdeposit
      obtain ⟨rfl,rfl⟩ := (hdoc u).first hvin hi hdeposit
      refine ⟨rfl,u,rfl,?_⟩
      obtain ⟨hlen,hnormal⟩ | hrewarded := hform
      · have hpaid := u.recover_paid hW hmoney (hdoc u) hfee hlen hnormal
          (W.voutAt u.lockTx 1).scriptPubKey
        have hreward : 0 ≤ u.reward site := u.reward_nonneg
        omega
      · exact hrewarded.paid_le
    · intro sbits fundingtxid
      by_cases hplan : sbits=u.funding.sbits ∧ fundingtxid=u.r.fundingtxid
      · obtain ⟨rfl,rfl⟩ := hplan
        obtain ⟨hlen,-⟩ | hrewarded := hform
        · refine .inl (spentFunding_eq_zero ?_)
          intro vin hmem
          obtain ⟨v,hv⟩ := List.length_eq_one_iff.mp hlen
          have hvin0 : vin0 tx=v := by rw [vin0,hv,List.headD_cons]
          rw [hv,List.mem_singleton] at hmem
          rw [hmem,← hvin0]
          exact u.fundingIn_vin0 hW _ _
        · exact .inr ⟨u,hrewarded.funding_le hW (hdoc u) hvin⟩
      · refine .inl (spentFunding_eq_zero ?_)
        intro vin hmem
        rw [Unlock.vin_eq hvin,List.mem_cons] at hmem
        obtain rfl | htail := hmem
        · exact u.fundingIn_vin0 hW sbits fundingtxid
        · exact (hdoc u).fundingIn_eq_zero hplan htail
  · push Not at hspends
    refine ⟨?_,?_⟩
    · intro i vin lockTx hi hdeposit
      exact absurd hdeposit.spendsRewards (hspends vin (List.mem_of_getElem? hi))
    · intro sbits fundingtxid
      exact .inl (spentFunding_eq_zero fun vin hvin =>
        fundingIn_of_not_spends (hspends vin hvin) sbits fundingtxid)

/-- Every transaction that spends an output of the contract was accepted by it. -/
def RewardsChain (W : World) (site : CTransaction → Site) (stray : RewardsFunding)
    (chain : List CTransaction) : Prop :=
  ∀tx∈chain,(∃vin∈tx.vin,W.SpendsRewards vin) → (W.rewardsValidate (site tx) stray tx none).1=true

/-- Deposits are safe in every chain whose unlocks have the documented inputs. -/
theorem locked_deposits_safe (W : World) (hW : W.Indexed) (site : CTransaction → Site)
    (stray : RewardsFunding)
    (hmoney : ∀tx,0 ≤ (site tx).MAX_MONEY ∧ (site tx).MAX_MONEY<2^63) (chain : List CTransaction)
    (hchain : W.RewardsChain site stray chain)
    (hdoc : ∀tx∈chain,∀u : W.Unlock stray tx,u.Documented (site tx)) :
    ∀tx∈chain,W.DepositsSafe (site tx) stray tx := by
  intro tx htx
  exact depositsSafe_of_documented hW (hmoney tx) (hchain tx htx) (hdoc tx htx)

/-- Data of plan 5 behind an op_return. -/
def rewardsScript (funcid : Char) : List UInt8 :=
  0x6a::pushData ([0xe5,chr funcid]++lengthBytes 8 0x61++lengthBytes 32 5)

/-- A plan with five coins that pays ten percent a year. -/
def planTx : CTransaction :=
  plainTx 5 [⟨⟨1,0⟩,[]⟩] [⟨500000000,[2,0xe5,0xe5,0xcc]⟩,
    ⟨0,0x6a::pushData ([0xe5,chr 'F']++lengthBytes 8 0x61++lengthBytes 8 1000000000++
      lengthBytes 8 0++lengthBytes 8 10000000++lengthBytes 8 0)⟩]

/-- A coin that a key locked. -/
def lockTx (hash : Uint256) (b : UInt8) : CTransaction :=
  plainTx hash [⟨⟨1,0⟩,[]⟩] [⟨100000000,[2,0xe5,0xe5,0xcc]⟩,⟨10000,33::keyOf b++[0xac]⟩,
    ⟨0,rewardsScript 'L'⟩]

/-- Key 7 gets its coin and 633878 more, out of another input. -/
def unlockTx (other : Uint256) (change : Int) : CTransaction :=
  plainTx 8 [⟨⟨6,0⟩,[3,0xe5,0xe5,1]⟩,⟨⟨other,0⟩,[3,0xe5,0xe5,1]⟩]
    [⟨change,[2,0xe5,0xe5,0xcc]⟩,⟨100633878,33::keyOf 7++[0xac]⟩,⟨0,rewardsScript 'U'⟩]

/-- A world where these transactions are in block 10. -/
def confirmed (txs : List CTransaction) : World :=
  ofKeys fun h => (indexOf txs h).map fun p => (p.1,10)

def noFunding : RewardsFunding := ⟨0,0,0,0,0⟩

def rewardsSite (_ : CTransaction) : Site := Site.named "ZDX"

/-- The coin of key 9 pays the reward of key 7. -/
def stolenUnlock : CTransaction := unlockTx 22 99356122

def stolenWorld : World := confirmed [planTx,lockTx 6 7,lockTx 22 9,stolenUnlock]

theorem accepted_of_unknown {W : World} {site : Site}
    (h : ∀vin∈tx.vin,W.getTransaction vin.prevout.hash=none) :
    (∃vin∈tx.vin,W.SpendsRewards vin) → (W.rewardsValidate site stray tx none).1=true := by
  rintro ⟨vin,hvin,t,b,hget,-⟩
  rw [h vin hvin] at hget
  cases hget

theorem deposit_spent_as_funding :
    stolenWorld.RewardsChain rewardsSite noFunding [stolenUnlock,lockTx 22 9,lockTx 6 7,planTx] ∧
      ¬stolenWorld.DepositsSafe (rewardsSite stolenUnlock) noFunding stolenUnlock := by
  refine ⟨?_,?_⟩
  · simp only [RewardsChain,List.forall_mem_cons]
    exact ⟨fun _ => by decide +kernel,accepted_of_unknown (by decide +kernel),
      accepted_of_unknown (by decide +kernel),accepted_of_unknown (by decide +kernel),by simp⟩
  · rintro ⟨hfirst,-⟩
    have hdeposit : stolenWorld.SpendsDeposit ⟨⟨22,0⟩,[3,0xe5,0xe5,1]⟩ (lockTx 22 9) :=
      ⟨rfl,⟨10,rfl⟩,by decide +kernel,⟨chr 'L',0x61,5⟩,by decide +kernel,rfl⟩
    exact absurd (hfirst 1 _ _ rfl hdeposit).1 (by decide)

/-- The plan pays the reward of key 7. -/
def fundedUnlock : CTransaction := unlockTx 5 499356122

def fundedWorld : World := confirmed [planTx,lockTx 6 7,fundedUnlock]

theorem indexed_confirmed {txs : List CTransaction}
    (h : ∀tx∈txs,tx.hash≠0 ∧ ∀o∈tx.vout,0 ≤ o.nValue) : (confirmed txs).Indexed := by
  have hmem : ∀k tx b,(confirmed txs).getTransaction k=some (tx,b) →
      (ofKeys (indexOf txs)).getTransaction k=some (tx,0) := by
    intro k tx b hget
    obtain ⟨p,hp,hpair⟩ := Option.map_eq_some_iff.mp hget
    obtain ⟨rfl,-⟩ := Prod.mk.inj hpair
    obtain ⟨t,ht,rfl⟩ := Option.map_eq_some_iff.mp hp
    exact hp
  have hkeys := indexed_ofKeys h
  refine ⟨fun k tx b hget => hkeys.hash k tx 0 (hmem k tx b hget),
    fun k tx b hget => hkeys.vout k tx 0 (hmem k tx b hget),?_⟩
  cases hget : (confirmed txs).getTransaction 0 with
  | none => rfl
  | some p =>
    have hnull := hmem 0 p.1 p.2 hget
    rw [hkeys.null] at hnull
    cases hnull

/-- No unlock has data of another function. -/
theorem documented_of_funcid {r : RewardsOpRet}
    (hr : decodeRewardsOpRet tx.hash (lastScript tx)=some r) (hU : r.funcid≠chr 'U') :
    ∀u : W.Unlock stray tx,u.Documented site := by
  intro u
  obtain rfl := Option.some.inj (u.opret.symm.trans hr)
  exact absurd u.funcid hU

theorem fundedUnlock_documented (u : fundedWorld.Unlock noFunding fundedUnlock) :
    u.Documented (rewardsSite fundedUnlock) := by
  have hr : u.r=⟨chr 'U',0x61,5⟩ := Option.some.inj (u.opret.symm.trans (by decide +kernel))
  have hlockTx : u.lockTx=lockTx 6 7 := by
    obtain ⟨b,hget⟩ := u.locked
    exact (Prod.mk.inj (Option.some.inj (hget.symm.trans (by rfl)))).1
  have hlock : u.lock=⟨chr 'L',0x61,5⟩ := by
    have hopret := u.lockOpret
    rw [hlockTx] at hopret
    exact Option.some.inj (hopret.symm.trans (by decide +kernel))
  have hfunding : u.funding=⟨0x61,1000000000,0,10000000,0⟩ := by
    obtain ⟨t,b,hget,hof⟩ := u.fundingTx
    rw [hr] at hget hof
    obtain ⟨rfl,-⟩ := Prod.mk.inj (Option.some.inj (hget.symm.trans (by rfl)))
    exact Option.some.inj (hof.symm.trans (by decide +kernel))
  refine ⟨⟨rfl,by rw [hlock,hfunding],by rw [hlockTx]; decide +kernel⟩,?_,?_⟩
  · intro vin hvin t b r hget hdec _
    obtain rfl := List.mem_singleton.mp hvin
    obtain ⟨rfl,-⟩ := Prod.mk.inj (Option.some.inj (hget.symm.trans (by rfl)))
    have hplan : r=⟨chr 'F',0x61,5⟩ := Option.some.inj (hdec.symm.trans (by decide +kernel))
    rw [hr,hfunding,hplan]
    decide
  · intro hlen
    exact absurd hlen (by decide)

theorem funded_unlock_safe :
    fundedWorld.DepositsSafe (rewardsSite fundedUnlock) noFunding fundedUnlock := by
  apply locked_deposits_safe fundedWorld (indexed_confirmed (by decide +kernel)) rewardsSite
    noFunding (fun tx => ⟨by show (0 : Int) ≤ 2100000000000000; decide,
      by show (2100000000000000 : Int)<2^63; decide⟩) [fundedUnlock,lockTx 6 7,planTx]
  · simp only [RewardsChain,List.forall_mem_cons]
    exact ⟨fun _ => by decide +kernel,accepted_of_unknown (by decide +kernel),
      accepted_of_unknown (by decide +kernel),by simp⟩
  · simp only [List.forall_mem_cons]
    exact ⟨fundedUnlock_documented,documented_of_funcid (r := ⟨chr 'L',0x61,5⟩)
      (by decide +kernel) (by decide),documented_of_funcid (r := ⟨chr 'F',0x61,5⟩)
      (by decide +kernel) (by decide),by simp⟩
  · exact List.mem_cons_self

end World

end Zdeex.Cc
