import Mathlib.Order.Defs.LinearOrder
import Zdeex.Mempool.Pool
import Zdeex.Primitives.TransactionFormat
import Zdeex.Script.Spending

namespace Zdeex.LockTime

open Zdeex.Framework Zdeex.Mempool Zdeex.Script Zdeex.Wire

def isFinal (txin : CTxIn) : Bool := txin.nSequence=0xffffffff

/-- `CheckLockTime` of the `TransactionSignatureChecker` for input `nIn` of `txTo`. -/
def checkLockTime (txTo : CMutableTransaction) (nIn : Nat) (nLockTime : Int) : Bool :=
  let txLockTime : Int := txTo.nLockTime.toNat
  if !((decide (txLockTime<LOCKTIME_THRESHOLD) && decide (nLockTime<LOCKTIME_THRESHOLD)) ||
      (decide (LOCKTIME_THRESHOLD≤txLockTime) && decide (LOCKTIME_THRESHOLD≤nLockTime))) then false
  else if txLockTime<nLockTime then false
  else (txTo.vin[nIn]?).any fun txin => !isFinal txin

/-- The loop of `IsFinalTx`: an input that does not keep its transaction out of a block. -/
def inputFinal (hardforkActive : Bool) (txLockTime nBlockHeight nBlockTime : Int) (txin : CTxIn) :
    Bool :=
  if !hardforkActive && txin.nSequence=0xfffffffe &&
      ((decide (LOCKTIME_THRESHOLD≤txLockTime) && decide (nBlockTime<txLockTime)) ||
        (decide (txLockTime<LOCKTIME_THRESHOLD) && decide (nBlockHeight<txLockTime))) then true
  else if hardforkActive && txin.nSequence=0xfffffffe &&
      ((decide (LOCKTIME_THRESHOLD≤txLockTime) && decide (txLockTime≤nBlockTime)) ||
        (decide (txLockTime<LOCKTIME_THRESHOLD) && decide (txLockTime≤nBlockHeight))) then true
  else isFinal txin

/-- `IsFinalTx`; whether the hardfork is active depends on the chain alone. -/
def isFinalTx (hardforkActive : Bool) (tx : CMutableTransaction) (nBlockHeight nBlockTime : Int) :
    Bool :=
  let txLockTime : Int := tx.nLockTime.toNat
  if tx.nLockTime=0 then true
  else if txLockTime<(if txLockTime<LOCKTIME_THRESHOLD then nBlockHeight else nBlockTime) then true
  else tx.vin.all (inputFinal hardforkActive txLockTime nBlockHeight nBlockTime)

/-- The height or the time of a block, whichever a lock is compared with. -/
def lockBound (nLockTime nBlockHeight nBlockTime : Int) : Int :=
  if nLockTime<LOCKTIME_THRESHOLD then nBlockHeight else nBlockTime

section Locks

variable {tx : CMutableTransaction} {nIn : Nat} {n h t : Int}

theorem checkLockTime_iff : checkLockTime tx nIn n=true ↔
    ((tx.nLockTime.toNat : Int)<LOCKTIME_THRESHOLD ↔ n<LOCKTIME_THRESHOLD) ∧
      n≤(tx.nLockTime.toNat : Int) ∧ ∃txin,tx.vin[nIn]?=some txin ∧ isFinal txin=false := by
  rw [checkLockTime]
  by_cases htx : (tx.nLockTime.toNat : Int)<LOCKTIME_THRESHOLD
  all_goals
    by_cases hn : n<LOCKTIME_THRESHOLD
    all_goals
      simp [htx,hn,Option.any_eq_true]

theorem lockBound_congr {m : Int} (h' : m<LOCKTIME_THRESHOLD ↔ n<LOCKTIME_THRESHOLD) :
    lockBound m h t=lockBound n h t := by
  simp only [lockBound,h']

theorem if_true_iff {P : Prop} [Decidable P] {b : Bool} :
    (if P then true else b)=true ↔ b=true ∨ P := by
  by_cases hP : P <;> simp [hP]

theorem inputFinal_active_iff {m : Int} {txin : CTxIn} : inputFinal true m h t txin=true ↔
    isFinal txin=true ∨ txin.nSequence=0xfffffffe ∧ m≤lockBound m h t := by
  rw [inputFinal,lockBound]
  by_cases hm : m<LOCKTIME_THRESHOLD
  · simp only [hm,not_le.mpr hm,Bool.not_true,Bool.false_and,Bool.true_and,Bool.and_eq_true,
      Bool.or_eq_true,decide_eq_true_eq,Bool.false_eq_true,if_false,if_true,false_and,true_and,
      false_or]
    exact if_true_iff
  · simp only [hm,not_lt.mp hm,Bool.not_true,Bool.false_and,Bool.true_and,Bool.and_eq_true,
      Bool.or_eq_true,decide_eq_true_eq,Bool.false_eq_true,if_false,false_and,true_and,or_false]
    exact if_true_iff

/-- Behind the hardfork, an input that is not final lets a lock pass once it is reached. -/
theorem isFinalTx_active_iff : isFinalTx true tx h t=true ↔
    tx.nLockTime=0 ∨ (tx.nLockTime.toNat : Int)<lockBound tx.nLockTime.toNat h t ∨
      ∀txin∈tx.vin,isFinal txin=true ∨ txin.nSequence=0xfffffffe ∧
        (tx.nLockTime.toNat : Int)≤lockBound tx.nLockTime.toNat h t := by
  have hall : tx.vin.all (inputFinal true tx.nLockTime.toNat h t)=true ↔
      ∀txin∈tx.vin,isFinal txin=true ∨ txin.nSequence=0xfffffffe ∧
        (tx.nLockTime.toNat : Int)≤lockBound tx.nLockTime.toNat h t := by
    rw [List.all_eq_true]
    exact forall_congr' fun txin => forall_congr' fun _ => inputFinal_active_iff
  rw [isFinalTx,← hall]
  by_cases hzero : tx.nLockTime=0
  · simp [hzero]
  · by_cases hpast : (tx.nLockTime.toNat : Int)<lockBound tx.nLockTime.toNat h t
    · rw [lockBound] at hpast ⊢
      simp [hpast]
    · rw [lockBound] at hpast ⊢
      simp [hpast]

/-- Behind the hardfork nothing spends a locked output before its height or time. -/
theorem locked_until (hheight : 0≤h) (hcheck : checkLockTime tx nIn n=true)
    (hfinal : isFinalTx true tx h t=true) : n≤lockBound n h t := by
  obtain ⟨hkind,hle,txin,htxin,hnot⟩ := checkLockTime_iff.mp hcheck
  rw [← lockBound_congr hkind]
  obtain hzero | hpast | hall := isFinalTx_active_iff.mp hfinal
  · have hnone : (tx.nLockTime.toNat : Int)=0 := by simp [hzero]
    have hbelow : (0 : Int)<LOCKTIME_THRESHOLD := by decide
    rw [hnone] at hle ⊢
    rw [lockBound,if_pos hbelow]
    omega
  · omega
  · obtain hfinalIn | ⟨-,hreached⟩ := hall txin (List.mem_of_getElem? htxin)
    · rw [hnot] at hfinalIn
      cases hfinalIn
    · omega

/-- A transaction with one input that is not final. -/
def spendAt (nLockTime : BitVec 32) : CMutableTransaction :=
  {CMutableTransaction.null with vin := [⟨⟨0,0⟩,[],0xfffffffe⟩],nLockTime}

theorem spendAt_lockTime {m : Nat} (hm : m<4294967296) :
    (spendAt (BitVec.ofNat 32 m)).nLockTime.toNat=m := by
  simp [spendAt,Nat.mod_eq_of_lt hm]

theorem spendAt_check {m : Nat} (hm : m<4294967296) :
    checkLockTime (spendAt (BitVec.ofNat 32 m)) 0 m=true := by
  rw [checkLockTime_iff,spendAt_lockTime hm]
  exact ⟨Iff.rfl,Int.le_refl _,_,rfl,by decide⟩

/-- Once its height or time is reached, a locked output can be spent. -/
theorem unlocked_from {m : Nat} (hm : m<4294967296) (hreached : (m : Int)≤lockBound m h t) :
    isFinalTx true (spendAt (BitVec.ofNat 32 m)) h t=true := by
  rw [isFinalTx_active_iff,spendAt_lockTime hm]
  refine .inr (.inr fun txin htxin => .inr ⟨?_,hreached⟩)
  rw [List.mem_singleton.mp htxin]

/-- Behind the hardfork a lock can be opened in a block if and only if the block is not before
its height or time. -/
theorem lock_opens_iff (hn : 0≤n) (hheight : 0≤h) :
    (∃tx nIn,checkLockTime tx nIn n=true ∧ isFinalTx true tx h t=true) ↔
      n<4294967296 ∧ n≤lockBound n h t := by
  obtain ⟨m,rfl⟩ := Int.eq_ofNat_of_zero_le hn
  constructor
  · rintro ⟨tx,nIn,hcheck,hfinal⟩
    obtain ⟨-,hle,-⟩ := checkLockTime_iff.mp hcheck
    have hword : tx.nLockTime.toNat<4294967296 := tx.nLockTime.isLt
    exact ⟨by omega,locked_until hheight hcheck hfinal⟩
  · rintro ⟨hsize,hreached⟩
    have hm : m<4294967296 := by omega
    exact ⟨_,0,spendAt_check hm,unlocked_from hm hreached⟩

end Locks

theorem lock_opens_iff_100 :
    (∃tx nIn,checkLockTime tx nIn 100=true ∧ isFinalTx true tx 99 1700000000=true) ↔
      (100 : Int)<4294967296 ∧ 100≤lockBound 100 99 1700000000 :=
  lock_opens_iff (by decide) (by decide)

section Pool

/-- The pool asks `IsFinalTx` for the next height and the median time past of the tip. -/
theorem checkFinalTx_eq (c : ChainTip) {tx : CMutableTransaction} {p : PoolTx}
    (hlock : p.nLockTime=tx.nLockTime.toNat)
    (hsequence : p.nSequence=tx.vin.map fun txin => txin.nSequence.toNat) :
    c.checkFinalTx p=isFinalTx c.hardforkActive tx c.nMemPoolHeight c.medianTimePast := by
  have hword (x y : BitVec 32) : (x.toNat==y.toNat)=decide (x=y) := by
    rw [Bool.eq_iff_iff,beq_iff_eq,decide_eq_true_eq,BitVec.toNat_inj]
  have hzero : (tx.nLockTime.toNat==0)=decide (tx.nLockTime=0) := hword tx.nLockTime 0
  have hnear (x : BitVec 32) : (x.toNat==0xfffffffe)=decide (x=0xfffffffe) := hword x 0xfffffffe
  have hmax (x : BitVec 32) : (x.toNat==0xffffffff)=decide (x=0xffffffff) := hword x 0xffffffff
  rw [ChainTip.checkFinalTx,isFinalTx,hlock,hsequence,List.all_map,hzero]
  by_cases hnone : tx.nLockTime=0
  · simp [hnone]
  · rw [if_neg hnone,decide_eq_false hnone,Bool.false_or]
    have hinput : (c.inputFinal (tx.nLockTime.toNat : Int) ∘ fun txin : CTxIn =>
        txin.nSequence.toNat)=
        inputFinal c.hardforkActive tx.nLockTime.toNat c.nMemPoolHeight c.medianTimePast := by
      funext txin
      rw [Function.comp_apply,ChainTip.inputFinal,hnear,hmax,inputFinal,isFinal]
      by_cases htx : (tx.nLockTime.toNat : Int)<LOCKTIME_THRESHOLD
      · simp [htx,not_le.mpr htx]
      · simp [htx,not_lt.mp htx]
    rw [hinput]
    cases hpast : decide ((tx.nLockTime.toNat : Int) < if (tx.nLockTime.toNat : Int)<
        LOCKTIME_THRESHOLD then c.nMemPoolHeight else c.medianTimePast) with
    | true => rw [if_pos (of_decide_eq_true hpast),Bool.true_or]
    | false => rw [if_neg (of_decide_eq_false hpast),Bool.false_or]

end Pool

section Scripts

variable {C : Context} {tx : CMutableTransaction} {nIn : Nat} {h t : Int}
  {stack stack' : List Valtype}

theorem checkLockTimeVerify_ok {top : Valtype}
    (hflag : C.flags.has SCRIPT_VERIFY_CHECKLOCKTIMEVERIFY=true)
    (hok : checkLockTimeVerify C (top::stack)=.ok stack') :
    ∃n,number C top 5=.ok n ∧ 0≤n ∧ C.checker.checkLockTime n=true := by
  simp only [checkLockTimeVerify,hflag,Bool.not_true,Bool.false_eq_true,if_false,List.head?_cons,
    bind_ok,expect_ok,reject_ok,Option.some.injEq] at hok
  obtain ⟨_,rfl,n,hn,-,hneg,-,hcheck,-⟩ := hok
  exact ⟨n,hn,by omega,by simpa using hcheck⟩

/-- A script that begins with a number and OP_CHECKLOCKTIMEVERIFY holds its output back, in
whatever transaction and with whatever stack it is evaluated. -/
theorem evalScript_lockTime {i : Instr} {rest : List (Option Instr)}
    (hflag : C.flags.has SCRIPT_VERIFY_CHECKLOCKTIMEVERIFY=true)
    (hchecker : C.checker.checkLockTime=checkLockTime tx nIn)
    (hops : readOps C.script=some i::some (bare 0xb1)::rest) (hle : i.opcode≤OP_16)
    (hok : (evalScript C stack).result=.ok stack') (hfinal : isFinalTx true tx h t=true)
    (hheight : 0≤h) : ∃n,number C i.pushed 5=.ok n ∧ 0≤n ∧ n≤lockBound n h t := by
  obtain ⟨-,s,hrun,-⟩ := evalScript_ok_iff.mp hok
  rw [hops] at hrun
  obtain ⟨s₁,hpush,hrun⟩ := evalLoop_cons_iff.mp hrun
  obtain ⟨s₂,hlock,-⟩ := evalLoop_cons_iff.mp hrun
  obtain ⟨rfl,-⟩ := step_pushes hle rfl hpush
  have hop : Op.ofCode 0xb1=some (.plain .OP_CHECKLOCKTIMEVERIFY) := rfl
  have hholding : ({State.start stack with stack := i.pushed::(State.start stack).stack} : State)=
      .holding (i.pushed::stack) 0 := rfl
  rw [hholding] at hlock
  obtain ⟨stack₂,hstack,-⟩ := (step_plain_iff hop (by decide) (by decide) (by omega)).mp hlock
  obtain ⟨n,hn,hnonneg,hcheck⟩ := checkLockTimeVerify_ok hflag hstack
  rw [hchecker] at hcheck
  exact ⟨n,hn,hnonneg,locked_until hheight hcheck hfinal⟩

end Scripts

/-- The evaluation of 100 OP_CHECKLOCKTIMEVERIFY for a spend with that lock time. -/
def lockedAt100 : Context :=
  {Context.refusing [1,100,0xb1] SCRIPT_VERIFY_CHECKLOCKTIMEVERIFY with
    checker := ⟨fun _ _ _ _ => false,checkLockTime (spendAt 100) 0,fun _ _ _ _ => 0⟩}

theorem evalScript_lockTime_100 : ∃n,
    number lockedAt100 (Instr.pushed ⟨1,[100]⟩) 5=.ok n ∧ 0≤n ∧ n≤lockBound n 100 1700000000 := by
  have hfinal : isFinalTx true (spendAt 100) 100 1700000000=true := by decide
  have hok : (evalScript lockedAt100 []).result=.ok [[100]] := by decide +kernel
  have hchecker : lockedAt100.checker.checkLockTime=checkLockTime (spendAt 100) 0 := by
    rw [lockedAt100]
  have hops : readOps lockedAt100.script=[some ⟨1,[100]⟩,some (bare 0xb1)] := by decide
  have hflag : lockedAt100.flags.has SCRIPT_VERIFY_CHECKLOCKTIMEVERIFY=true := by decide
  exact evalScript_lockTime hflag hchecker hops (by decide) hok hfinal (by decide)

end Zdeex.LockTime
