import Mathlib.Algebra.Order.Group.Nat
import Mathlib.Logic.Function.Iterate
import Zdeex.Emission.ScLinear

namespace Zdeex.Emission

open Zdeex.Framework Finset

/-- Parameters of a smart chain as `hush_args` accepts them: eras end one after
the other, and only the last may never end. -/
structure AcParams.Accepted (c : AcParams) : Prop where
  LASTERA_lt : c.LASTERA<7
  ENDSUBSIDY_pos : ∀j<c.LASTERA,0<c.ENDSUBSIDY j
  ENDSUBSIDY_lt : ∀j<c.LASTERA,c.ENDSUBSIDY (j+1)≠0 → c.ENDSUBSIDY j<c.ENDSUBSIDY (j+1)
  ENDSUBSIDY_u64 : ∀j,c.ENDSUBSIDY j<2^64
  DECAY_le : ∀j,c.DECAY j ≤ coin
  SUPPLY_le : c.SUPPLY≤10000000000
  COMMISSION_eq : c.COMMISSION=0
  not_staked : c.STAKED=false
  not_hush3 : c.ishush3=false

/-- Height `n` belongs to era `j`. -/
def AcParams.InEra (c : AcParams) (n j : Nat) : Prop :=
  c.eraStart j≤n ∧ (c.ENDSUBSIDY j=0 ∨ n<c.ENDSUBSIDY j)

/-- The reward of era `j` after `s` periods. -/
def AcParams.rewardAfter (c : AcParams) (j s : Nat) : Nat :=
  (nextReward (c.DECAY j))^[s] (c.REWARD j)

/-- The reward of era `j` in its period `s`. -/
def AcParams.paidAfter (c : AcParams) (j s : Nat) : Nat :=
  if c.DECAY j=coin then c.linearPay j s else c.rewardAfter j s

/-- What a block of era `j` pays. -/
def AcParams.pay (c : AcParams) (j n : Nat) : Nat :=
  if c.HALVING j=0 then c.REWARD j else c.paidAfter j ((n-c.eraStart j)/c.HALVING j)

/-- A linear era is summed up correctly: nothing has moved yet, or it never does,
or it is over in whole periods; and its money fits. -/
structure AcParams.LinearCovers (c : AcParams) (h j : Nat) : Prop where
  shape : c.REWARD j=0 ∧ (∀n≤h,c.InEra n j → n-c.eraStart j<c.HALVING j) ∨
    c.Flat h j ∨ c.REWARD j≠0 ∧ c.Ended h j
  amount : c.linearMoney h j<2^62

/-- Era `j` is summed up correctly for height `h`: no reward is shifted by 64 or
more, the period moves the `int` counter, and a linear era has its closed form. -/
structure AcParams.Covers (c : AcParams) (h j : Nat) : Prop where
  linear : c.HALVING j≠0 → c.DECAY j=coin → c.LinearCovers h j
  shift : c.REWARD j≠0 → c.HALVING j≠0 → c.DECAY j=0 →
    ∀n≤h,c.InEra n j → (n-c.eraStart j)/c.HALVING j<64
  counter : c.REWARD j≠0 → c.HALVING j≠0 → c.DECAY j≠coin → c.HALVING j%2^32≠0

/-- First height of an era that is mined. -/
def AcParams.firstBlock (c : AcParams) (j : Nat) : Nat := max 1 (c.eraStart j)

/-- What the closed form adds for era `j` beyond what its blocks below `h` pay: an
era without periods counts as if it had started at height 1, height 0 is never
mined, and a period that has begun counts whole. -/
def AcParams.overcount (c : AcParams) (h j : Nat) : Nat :=
  if h≤ c.eraStart j then 0
  else if c.HALVING j=0 then c.REWARD j*(h-1-(c.eraEnd h j-c.firstBlock j))
  else (if j=0 then c.REWARD 0 else 0)+
    if c.DECAY j=coin then c.linearOvercount h j
    else windowExcess (c.rewardAfter j) (c.HALVING j) (c.eraEnd h j-c.eraStart j)

section Rewards

variable {c : AcParams}

theorem nextReward_zero (decay : Nat) : nextReward decay 0=0 := by
  simp [nextReward]

theorem nextReward_le {decay : Nat} (hd : decay ≤ coin) (reward : Nat) :
    nextReward decay reward ≤ reward := by
  unfold nextReward
  split
  · calc reward*decay%2^64/coin
        ≤ reward*decay/coin := Nat.div_le_div_right (Nat.mod_le _ _)
      _ ≤ reward*coin/coin := Nat.div_le_div_right (Nat.mul_le_mul_left _ hd)
      _ =reward := Nat.mul_div_cancel _ (by decide)
  · exact Nat.div_le_self _ _

theorem rewardAfter_succ (c : AcParams) (j s : Nat) :
    c.rewardAfter j (s+1)=nextReward (c.DECAY j) (c.rewardAfter j s) :=
  Function.iterate_succ_apply' _ _ _

theorem rewardAfter_antitone (hc : c.Accepted) (j : Nat) : Antitone (c.rewardAfter j) :=
  antitone_nat_of_succ_le fun s => by
    rw [rewardAfter_succ]
    exact nextReward_le (hc.DECAY_le j) _

theorem rewardAfter_of_zero {j : Nat} (h : c.REWARD j=0) (s : Nat) : c.rewardAfter j s=0 := by
  induction s with
  | zero => exact h
  | succ s ih => rw [rewardAfter_succ,ih,nextReward_zero]

/-- Halving by a shift. -/
theorem rewardAfter_halving {j : Nat} (hd : c.DECAY j=0) (s : Nat) :
    c.rewardAfter j s=c.REWARD j/2^s := by
  induction s with
  | zero => simp [AcParams.rewardAfter]
  | succ s ih =>
    rw [rewardAfter_succ,ih,nextReward,if_neg (by simp [hd]),Nat.div_div_eq_div_mul,pow_succ]

/-- The loop of the subsidy stops at zero, where the decay stays. -/
theorem decayedSubsidy_eq {decay : Nat} (hd : decay≠0) (n subsidy : Nat) :
    decayedSubsidy decay n subsidy=(nextReward decay)^[n] subsidy := by
  induction n generalizing subsidy with
  | zero => rfl
  | succ n ih =>
    rw [decayedSubsidy,Function.iterate_succ_apply]
    split
    · rw [ih,nextReward,if_pos hd]
    · rename_i hzero
      rw [not_not.1 hzero,nextReward_zero]
      clear ih hzero
      induction n with
      | zero => rfl
      | succ n ih => rw [Function.iterate_succ_apply,nextReward_zero,← ih]

theorem rewardAfter_le (hc : c.Accepted) (j s : Nat) : c.rewardAfter j s≤ c.REWARD j :=
  rewardAfter_antitone hc j (Nat.zero_le s)

theorem linearPay_lt (c : AcParams) {j s : Nat}
    (hs : c.ENDSUBSIDY j=0 ∨ s*c.HALVING j≤ c.ENDSUBSIDY j-c.eraStart j) :
    c.linearPay j s<2^62 := by
  have hmoved : c.difference j*(s*c.HALVING j)/(c.ENDSUBSIDY j-c.eraStart j)≤ c.difference j := by
    rcases hs with hend | hs
    · rw [hend,Nat.zero_sub,Nat.div_zero]
      exact Nat.zero_le _
    · refine Nat.div_le_of_le_mul ?_
      rw [Nat.mul_comm]
      exact Nat.mul_le_mul_right _ hs
  have hR := c.REWARD_lt j
  unfold AcParams.linearPay
  dsimp only
  generalize c.difference j*(s*c.HALVING j)/(c.ENDSUBSIDY j-c.eraStart j)=moved at hmoved ⊢
  split_ifs with hfall
  · omega
  · have hlt := add_difference_lt c j hfall
    omega

/-- Nothing is paid while the reward is zero. -/
theorem difference_of_unpaid {j : Nat}
    (hpays : ¬(c.REWARD j≠0 ∨ j≠c.LASTERA ∧ c.REWARD (j+1)≠0)) : c.difference j=0 := by
  unfold AcParams.difference
  split_ifs <;> omega

theorem paidAfter_zero (c : AcParams) (j : Nat) : c.paidAfter j 0=c.REWARD j := by
  unfold AcParams.paidAfter
  split_ifs
  · exact linearPay_zero c j
  · rfl

/-- After the first period a linear block pays the reward of its period. -/
theorem linear_eq_pay (hc : c.Accepted) {h j n : Nat} (hlast : j ≤ c.LASTERA)
    (hj : c.LinearCovers h j) (hn : n≤h) (hera : c.InEra n j)
    (hpays : c.REWARD j≠0 ∨ j≠c.LASTERA ∧ c.REWARD (j+1)≠0) (hmax : h≤10000000)
    (hs : (n-c.eraStart j)/c.HALVING j≠0) (hH : c.HALVING j≠0) :
    c.ENDSUBSIDY j≠0 ∧
      (linearSubsidy c n j).toNat=c.linearPay j ((n-c.eraStart j)/c.HALVING j) := by
  have hperiod : c.HALVING j≤n-c.eraStart j := by
    by_contra hlt
    exact hs (Nat.div_eq_of_lt (by omega))
  have hcur : n-c.eraStart j≤ c.eraEnd h j-c.eraStart j := by
    unfold AcParams.eraEnd
    have := hera.2
    split_ifs
    · omega
    · rw [Nat.min_def]
      split_ifs <;> omega
  rcases hj.shape with ⟨-,hfirst⟩ | (hD | ⟨-,hlt⟩) | ⟨-,he⟩
  · have := hfirst n hn hera
    omega
  · have hend : c.ENDSUBSIDY j≠0 := by
      by_cases heq : j=c.LASTERA
      · intro _
        unfold AcParams.difference at hD
        rw [if_pos heq] at hD
        omega
      · have := hc.ENDSUBSIDY_pos j (by omega)
        omega
    have hhigh := hera.2.resolve_left hend
    rw [linearPay_level hD]
    exact ⟨hend,linearSubsidy_level hD (hc.ENDSUBSIDY_u64 j) (hera.1.trans_lt hhigh)⟩
  · omega
  · have hhigh := hera.2.resolve_left he.ENDSUBSIDY_ne
    have hle := he.ENDSUBSIDY_le
    have hwhole := Nat.le_of_dvd (by omega) he.whole
    have hsteps : (n-c.eraStart j)/c.HALVING j*c.HALVING j≤
        c.ENDSUBSIDY j-c.eraStart j-c.HALVING j := by
      obtain ⟨m,hm⟩ := he.whole
      have hlt : (n-c.eraStart j)/c.HALVING j < m := Nat.div_lt_of_lt_mul (by omega)
      rw [hm,Nat.mul_comm,← Nat.mul_sub_one]
      exact Nat.mul_le_mul_left _ (by omega)
    refine ⟨he.ENDSUBSIDY_ne,linearSubsidy_eq_pay (by omega) (by omega) hera.1 hhigh ?_⟩
    exact (Nat.mul_le_mul_left _ hsteps).trans_lt he.numerator_lt

/-- The subsidy of a block in an era that is summed up correctly. -/
theorem eraSubsidy_eq_pay (hc : c.Accepted) {h j n : Nat} (hmax : h≤10000000)
    (hlast : j ≤ c.LASTERA) (hj : c.eraStart j<h → c.Covers h j) (hn : n≤h)
    (hera : c.InEra n j) : eraSubsidy c n j=c.pay j n := by
  unfold eraSubsidy AcParams.pay
  by_cases hH : c.HALVING j=0
  · rw [if_pos hH,if_neg (by simp [hH])]
  rw [if_neg hH]
  by_cases hpays : c.REWARD j≠0 ∨ j≠c.LASTERA ∧ c.REWARD (j+1)≠0
  · rw [if_pos ⟨hpays,hH⟩,hc.not_hush3]
    dsimp only
    rw [if_neg (by simp)]
    by_cases hs : (n-c.eraStart j)/c.HALVING j=0
    · rw [if_pos hs,hs,paidAfter_zero]
    rw [if_neg hs]
    have hpos : n-c.eraStart j≠0 := fun hzero => hs (by rw [hzero,Nat.zero_div])
    have hcov := hj (by omega)
    by_cases hd : c.DECAY j=0
    · rw [if_pos hd,AcParams.paidAfter,if_neg (by rw [hd]; decide)]
      by_cases hR : c.REWARD j=0
      · rw [rewardAfter_of_zero hR,hR,Nat.zero_div]
      · rw [rewardAfter_halving hd,Nat.mod_eq_of_lt (hcov.shift hR hH hd n hn hera)]
    rw [if_neg hd,AcParams.paidAfter]
    by_cases hcoin : c.DECAY j=coin
    · obtain ⟨hend,hpay⟩ := linear_eq_pay hc hlast (hcov.linear hH hcoin) hn hera hpays hmax hs hH
      rw [if_pos ⟨hcoin,hend⟩,if_pos hcoin,hpay]
    · rw [if_neg (fun h => hcoin h.1),if_neg hcoin,decayedSubsidy_eq hd]
      rfl
  · rw [if_neg (fun h => hpays h.1)]
    have hR : c.REWARD j=0 := by
      by_contra hne
      exact hpays (.inl hne)
    unfold AcParams.paidAfter
    split_ifs
    · rw [linearPay_level (difference_of_unpaid hpays)]
    · rw [rewardAfter_of_zero hR,hR]

theorem pay_lt (hc : c.Accepted) {j n : Nat} (hera : c.InEra n j) : c.pay j n<2^62 := by
  have hR := c.REWARD_lt j
  unfold AcParams.pay AcParams.paidAfter
  split_ifs with hH hcoin
  · exact hR
  · have hk := Nat.div_mul_le_self (n-c.eraStart j) (c.HALVING j)
    have hera := hera.2
    exact linearPay_lt c (by omega)
  · exact (rewardAfter_le hc j _).trans_lt hR

/-- An era without a reward pays nothing. -/
theorem pay_of_zero {h j n : Nat} (hj : c.Covers h j) (hn : n≤h) (hera : c.InEra n j)
    (hR : c.REWARD j=0) : c.pay j n=0 := by
  unfold AcParams.pay AcParams.paidAfter
  split_ifs with hH hcoin
  · exact hR
  · rcases (hj.linear hH hcoin).shape with ⟨-,hfirst⟩ | hflat | ⟨hne,-⟩
    · rw [Nat.div_eq_of_lt (hfirst n hn hera),linearPay_zero,hR]
    · have hD := difference_le c j (falling_of_flat hflat)
      rw [linearPay_level (by omega),hR]
    · exact absurd hR hne
  · exact rewardAfter_of_zero hR _

end Rewards

section Eras

variable {c : AcParams}

theorem eraStart_succ (c : AcParams) (j : Nat) : c.eraStart (j+1)=c.ENDSUBSIDY j := by
  simp [AcParams.eraStart]

theorem eraStart_zero (c : AcParams) : c.eraStart 0=0 := rfl

/-- Eras before the last one end in order. -/
theorem ENDSUBSIDY_mono (hc : c.Accepted) {i j : Nat} (hij : i≤j) (hj : j<c.LASTERA) :
    c.ENDSUBSIDY i ≤ c.ENDSUBSIDY j := by
  induction j,hij using Nat.le_induction with
  | base => exact le_refl _
  | succ j hij ih =>
    have hpos := hc.ENDSUBSIDY_pos (j+1) hj
    have hlt := hc.ENDSUBSIDY_lt j (by omega) (by omega)
    have hle := ih (by omega)
    omega

theorem findEra_eq {n m i j : Nat} (hij : i≤j) (hjm : j < i+m)
    (hbefore : ∀k,i≤k → k<j → c.ENDSUBSIDY k≤n ∧ c.ENDSUBSIDY k≠0)
    (hat : c.ENDSUBSIDY j>n ∨ c.ENDSUBSIDY j=0) : findEra c n m i=j := by
  induction m generalizing i with
  | zero => omega
  | succ m ih =>
    rw [findEra]
    by_cases heq : i=j
    · rw [heq,if_pos hat]
    · have hi := hbefore i (le_refl _) (by omega)
      rw [if_neg (by omega)]
      exact ih (by omega) (by omega) fun k hk hkj => hbefore k (by omega) hkj

theorem findEra_none {n m i : Nat}
    (hall : ∀k,i≤k → k < i+m → c.ENDSUBSIDY k≤n ∧ c.ENDSUBSIDY k≠0) : findEra c n m i=i+m := by
  induction m generalizing i with
  | zero => rfl
  | succ m ih =>
    have hi := hall i (le_refl _) (by omega)
    rw [findEra,if_neg (by omega),ih fun k hk hkm => hall k (by omega) (by omega)]
    omega

/-- The chain pays the default subsidy of chains without rewards. -/
def AcParams.Idle (c : AcParams) : Prop := c.ENDSUBSIDY 0=0 ∧ c.REWARD 0=0

/-- A block is paid by the era it belongs to. -/
theorem minedSubsidy_eq (hc : c.Accepted) (hidle : ¬c.Idle) {n j : Nat} (hj : j ≤ c.LASTERA)
    (hera : c.InEra n j) : minedSubsidy c n=eraSubsidy c n j := by
  obtain ⟨hstart,hend⟩ := hera
  have hbefore : ∀k,0≤k → k<j → c.ENDSUBSIDY k≤n ∧ c.ENDSUBSIDY k≠0 := by
    intro k _ hk
    have hpos := hc.ENDSUBSIDY_pos k (by omega)
    have hmono := ENDSUBSIDY_mono hc (show k≤j-1 by omega) (by omega)
    rw [show j=j-1+1 by omega,eraStart_succ] at hstart
    omega
  have hcur : (if c.ENDSUBSIDY 0≠0 then findEra c n (c.LASTERA+1) 0 else 0)=j := by
    by_cases hzero : c.ENDSUBSIDY 0=0
    · rw [if_neg (not_not.2 hzero)]
      by_contra hne
      exact (hbefore 0 (le_refl _) (by omega)).2 hzero
    · rw [if_pos hzero]
      exact findEra_eq (Nat.zero_le _) (by omega) hbefore (hend.symm.imp id id)
  rw [minedSubsidy,if_neg (show ¬(c.ENDSUBSIDY 0=0 ∧ c.REWARD 0=0) from hidle),hcur]
  dsimp only
  rw [if_pos hj]

/-- Nothing is paid after the end of the last era. -/
theorem minedSubsidy_after (hc : c.Accepted) (hidle : ¬c.Idle) {n : Nat}
    (hlast : c.ENDSUBSIDY c.LASTERA≠0) (hn : c.ENDSUBSIDY c.LASTERA≤n) :
    minedSubsidy c n=0 := by
  have hall : ∀k,0≤k → k<0+(c.LASTERA+1) → c.ENDSUBSIDY k≤n ∧ c.ENDSUBSIDY k≠0 := by
    intro k _ hk
    by_cases heq : k=c.LASTERA
    · rw [heq]
      exact ⟨hn,hlast⟩
    · have hpos := hc.ENDSUBSIDY_pos k (by omega)
      have hmono := ENDSUBSIDY_mono hc (show k ≤ c.LASTERA-1 by omega) (by omega)
      have hlt := hc.ENDSUBSIDY_lt (c.LASTERA-1) (by omega)
      rw [show c.LASTERA-1+1=c.LASTERA by omega] at hlt
      have := hlt hlast
      omega
  have hzero := (hall 0 (le_refl _) (by omega)).2
  rw [minedSubsidy,if_neg (show ¬(c.ENDSUBSIDY 0=0 ∧ c.REWARD 0=0) from hidle),if_pos hzero,
    findEra_none hall]
  dsimp only
  rw [if_neg (by omega)]

end Eras

section Periods

variable {period decay curEnd : Nat}

/-- The money of the first `m` periods. -/
def periodMoney (period decay reward m : Nat) : Nat :=
  period*∑ s ∈ range m,(nextReward decay)^[s] reward

theorem periodMoney_succ (period decay reward m : Nat) :
    periodMoney period decay reward (m+1)=
      period*reward+periodMoney period decay (nextReward decay reward) m := by
  rw [periodMoney,sum_range_succ',Nat.mul_add,Nat.add_comm]
  rfl

/-- Result of the loop after `m` rounds. -/
def AfterRounds (period decay curEnd fuel k reward cur m : Nat) : Prop :=
  periodLoop id period decay curEnd fuel k reward cur=
    some ((nextReward decay)^[m] reward,cur+periodMoney period decay reward m)

theorem afterRounds_exit {fuel k : Nat} (hfuel : 0<fuel) (hk : curEnd≤k) (reward cur : Nat) :
    AfterRounds period decay curEnd fuel k reward cur 0 := by
  obtain ⟨fuel,rfl⟩ : ∃f,fuel=f+1 := ⟨fuel-1,by omega⟩
  rw [AfterRounds,periodLoop,if_neg (by omega)]
  simp [periodMoney]

theorem afterRounds_step {fuel k reward cur m : Nat} (hk : k<curEnd)
    (h : AfterRounds period decay curEnd fuel (intAsU64 (k+period)) (nextReward decay reward)
      (cur+period*reward) m) :
    AfterRounds period decay curEnd (fuel+1) k reward cur (m+1) := by
  rw [AfterRounds,periodLoop,if_pos hk,periodMoney_succ,← Nat.add_assoc,
    Function.iterate_succ_apply]
  exact h

/-- A period of less than 2^31 modulo 2^32 moves the counter up, and one of less
than 2^31 as often as the era begins a period. -/
theorem periodLoop_up (decay : Nat) (hcur : curEnd≤10000000) (hpos : 0<period%2^32)
    (hlow : period%2^32<2^31) (fuel k reward cur : Nat) (hfuel : curEnd-k<fuel) :
    ∃m,AfterRounds period decay curEnd fuel k reward cur m ∧
      (period<2^31 → m=windows period (curEnd-k)) ∧ (k<curEnd → 0 < m) := by
  induction fuel generalizing k reward cur with
  | zero => omega
  | succ fuel ih =>
    by_cases hk : k<curEnd
    · have hmod : (k+period)%2^32=k+period%2^32 := by omega
      have hnext : curEnd-intAsU64 (k+period)<fuel ∧
          (period<2^31 → curEnd-intAsU64 (k+period)=curEnd-k-period) := by
        unfold intAsU64
        rw [hmod]
        split
        · omega
        · omega
      obtain ⟨m,hm,hcount,-⟩ := ih (intAsU64 (k+period)) (nextReward decay reward)
        (cur+period*reward) hnext.1
      refine ⟨m+1,afterRounds_step hk hm,fun hp => ?_,fun _ => Nat.succ_pos m⟩
      rw [hcount hp,hnext.2 hp]
      exact (windows_step (by omega) (by omega)).symm
    · refine ⟨0,afterRounds_exit (Nat.succ_pos _) (by omega) _ _,fun _ => ?_,
        fun h => absurd h hk⟩
      rw [Nat.sub_eq_zero_of_le (by omega),windows_zero]

/-- A period of 2^31 or more modulo 2^32 moves the counter down. -/
theorem periodLoop_down (decay : Nat) (hcur : curEnd≤10000000) (hhigh : 2^31≤period%2^32)
    (fuel k reward cur : Nat) (hfuel : 0<fuel) (hk : k<curEnd → k+1<fuel) :
    ∃m,AfterRounds period decay curEnd fuel k reward cur m ∧ (k<curEnd → 0 < m) := by
  induction fuel generalizing k reward cur with
  | zero => omega
  | succ fuel ih =>
    by_cases hlt : k<curEnd
    · have hnext : intAsU64 (k+period)<curEnd → intAsU64 (k+period)+1<fuel := by
        have hmod : (k+period)%2^32=k+period%2^32 ∨ (k+period)%2^32+2^32=k+period%2^32 := by
          omega
        have hfuel := hk hlt
        unfold intAsU64
        split
        · omega
        · omega
      have hfuel := hk hlt
      obtain ⟨m,hm,-⟩ := ih (intAsU64 (k+period)) (nextReward decay reward)
        (cur+period*reward) (by omega) hnext
      exact ⟨m+1,afterRounds_step hlt hm,fun _ => Nat.succ_pos m⟩
    · exact ⟨0,afterRounds_exit (Nat.succ_pos _) (by omega) _ _,fun h => absurd h hlt⟩

/-- The loop ends, and its rounds are at least the periods that the era begins. -/
theorem periodLoop_rounds (decay : Nat) {h k : Nat} (hcur : curEnd≤10000000) (hh : curEnd≤h)
    (hk : k<curEnd) (hp : period%2^32≠0) (reward cur : Nat) :
    ∃m,AfterRounds period decay curEnd (h+1) (intAsU64 k) reward cur m ∧
      windows period (curEnd-k)≤ m ∧ (period<2^31 → m=windows period (curEnd-k)) := by
  have hk32 : intAsU64 k=k := by
    rw [intAsU64,if_pos (by omega)]
    omega
  have hlarge : ∀m,0 < m → 2^31≤period → windows period (curEnd-k)≤ m := by
    intro m hm hperiod
    refine windows_le ?_
    have := Nat.le_mul_of_pos_left period hm
    omega
  rw [hk32]
  by_cases hlow : period%2^32<2^31
  · obtain ⟨m,hm,hcount,hpos⟩ := periodLoop_up decay hcur (by omega) hlow (h+1) k
      reward cur (by omega)
    refine ⟨m,hm,?_,hcount⟩
    by_cases hsmall : period<2^31
    · exact (hcount hsmall).ge
    · exact hlarge m (hpos hk) (by omega)
  · obtain ⟨m,hm,hpos⟩ := periodLoop_down decay hcur (Nat.le_of_not_lt hlow) (h+1) k
      reward cur (Nat.succ_pos _) (fun _ => by omega)
    exact ⟨m,hm,hlarge m (hpos hk) (by omega),fun hsmall => by omega⟩

end Periods

section Accounting

variable {c : AcParams} {h j : Nat}

theorem eraEnd_le (c : AcParams) (h j : Nat) : c.eraEnd h j≤h := by
  unfold AcParams.eraEnd
  split
  · exact le_refl _
  · exact min_le_left _ _

theorem eraSupply_zero (u64 : Nat → Nat) (hR : c.REWARD j=0) (cur : Nat) :
    eraSupply u64 c h j cur=some cur := by
  rw [eraSupply,if_neg (by omega)]

theorem pred32_eq {x : Nat} (hpos : 0<x) (hx : x<2^32) : pred32 x=x-1 := by
  unfold pred32
  omega

theorem eraSupply_flat (u64 : Nat → Nat) (hR : c.REWARD j≠0) (hH : c.HALVING j=0) (cur : Nat) :
    eraSupply u64 c h j cur=some (u64 (cur+u64 (c.REWARD j*pred32 h))) := by
  rw [eraSupply,if_pos (by omega)]
  dsimp only
  rw [if_pos hH]

theorem eraSupply_stepped (u64 : Nat → Nat) (hR : c.REWARD j≠0) (hH : c.HALVING j≠0)
    (hD : c.DECAY j≠coin) (cur : Nat) :
    eraSupply u64 c h j cur=
      (periodLoop u64 (c.HALVING j) (c.DECAY j) (c.eraEnd h j) (h+1) (intAsU64 (c.eraStart j))
        (c.REWARD j) cur).map fun x => u64 (x.2+u64 (c.eraModulo h j*x.1)) := by
  rw [eraSupply,if_pos (by omega)]
  dsimp only
  rw [if_neg hH,if_neg hD]

theorem add_last_period (modulo reward money cur : Nat) :
    ((some (reward,cur+money)).map fun x : Nat × Nat => id (x.2+id (modulo*x.1)))=
      some (cur+(money+modulo*reward)) := by
  simp [Nat.add_assoc]

theorem eraSupply_linear (u64 : Nat → Nat) (hR : c.REWARD j≠0) (hH : c.HALVING j≠0)
    (hD : c.DECAY j=coin) (cur : Nat) :
    eraSupply u64 c h j cur=some (u64 (cur+(linearSupply c j (BitVec.ofNat 64 (c.HALVING j))
      (BitVec.ofNat 64 (c.eraBlocks h j/c.HALVING j%2^32))
      (BitVec.ofNat 64 (c.eraBlocks h j))).toNat)) := by
  rw [eraSupply,if_pos (by omega)]
  dsimp only
  rw [if_neg hH,if_pos hD]

theorem eraBlocks_eq (hmax : h≤10000000) (hstart : c.eraStart j<c.eraEnd h j) :
    c.eraBlocks h j=c.eraEnd h j-c.eraStart j := by
  have hend := eraEnd_le c h j
  unfold AcParams.eraBlocks
  omega

theorem eraModulo_eq (hmax : h≤10000000) (hstart : c.eraStart j<c.eraEnd h j) :
    c.eraModulo h j=(c.eraEnd h j-c.eraStart j)%c.HALVING j := by
  have hend := eraEnd_le c h j
  have hle := Nat.mod_le (c.eraEnd h j-c.eraStart j) (c.HALVING j)
  rw [AcParams.eraModulo,eraBlocks_eq hmax hstart,Nat.mod_eq_of_lt (by omega)]

theorem firstBlock_zero (c : AcParams) : c.firstBlock 0=1 := rfl

theorem firstBlock_of_pos (hpos : 0<c.eraStart j) : c.firstBlock j=c.eraStart j :=
  max_eq_right hpos

/-- The blocks of an era with periods, and height 0 in the first one. -/
theorem sum_pay_periods (hH : c.HALVING j≠0) (hfirst : j=0 ∨ 0<c.eraStart j) {b : Nat}
    (hb : c.eraStart j<b) :
    ∑ n ∈ Ico (c.firstBlock j) b,c.pay j n+(if j=0 then c.REWARD 0 else 0)=
      steppedSum (c.paidAfter j) (c.HALVING j) (b-c.eraStart j) := by
  have hall : ∑ n ∈ Ico (c.eraStart j) b,c.pay j n=
      steppedSum (c.paidAfter j) (c.HALVING j) (b-c.eraStart j) := by
    rw [sum_Ico_eq_sum_range,steppedSum]
    refine sum_congr rfl fun i _ => ?_
    rw [AcParams.pay,if_neg hH,Nat.add_sub_cancel_left]
  rw [← hall]
  rcases hfirst with rfl | hpos
  · have hzero : c.pay 0 0=c.REWARD 0 := by
      rw [AcParams.pay,if_neg hH,Nat.zero_sub,Nat.zero_div,paidAfter_zero]
    rw [eraStart_zero] at hb ⊢
    rw [if_pos rfl,firstBlock_zero,sum_eq_sum_Ico_succ_bot hb,hzero,Nat.add_comm]
  · have hne : j≠0 := by
      rintro rfl
      exact absurd hpos (lt_irrefl 0)
    rw [if_neg hne,firstBlock_of_pos hpos,Nat.add_zero]

theorem inEra_of_mem {b n : Nat} (hn : n ∈ Ico (c.firstBlock j) b)
    (hend : c.ENDSUBSIDY j=0 ∨ b ≤ c.ENDSUBSIDY j) : c.InEra n j := by
  obtain ⟨hlow,hhigh⟩ := mem_Ico.1 hn
  exact ⟨(le_max_right 1 _).trans hlow,by omega⟩

theorem eraEnd_le_end (c : AcParams) (h j : Nat) :
    c.ENDSUBSIDY j=0 ∨ c.eraEnd h j≤ c.ENDSUBSIDY j := by
  unfold AcParams.eraEnd
  split_ifs with hend
  · exact .inl hend
  · exact .inr (min_le_right _ _)

theorem overcount_unrewarded (hR : c.REWARD j=0) :
    (if c.DECAY j=coin then c.linearOvercount h j
      else windowExcess (c.rewardAfter j) (c.HALVING j) (c.eraEnd h j-c.eraStart j))=0 := by
  split_ifs
  · rw [AcParams.linearOvercount,if_pos (.inr (.inr hR))]
  · unfold windowExcess
    split_ifs
    · rfl
    · rw [rewardAfter_of_zero hR,rewardAfter_of_zero hR,Nat.mul_zero,Nat.mul_zero]

/-- What the closed form adds for an era: the money of its blocks and the
over-count, and more only where a period of 2^31 or more disturbs the counter. -/
theorem eraSupply_money (hj : c.Covers h j) (hh : 2≤h) (hmax : h≤10000000)
    (hfirst : j=0 ∨ 0<c.eraStart j) (hstart : c.eraStart j<c.eraEnd h j) (cur : Nat) :
    ∃extra,eraSupply id c h j cur=
        some (cur+(∑ n ∈ Ico (c.firstBlock j) (c.eraEnd h j),c.pay j n+c.overcount h j+extra)) ∧
      ((c.REWARD j≠0 → c.HALVING j<2^31) → extra=0) := by
  have hend := eraEnd_le c h j
  have hover : ¬h≤ c.eraStart j := by omega
  unfold AcParams.overcount
  rw [if_neg hover]
  by_cases hH : c.HALVING j=0
  · have hsum : ∑ n ∈ Ico (c.firstBlock j) (c.eraEnd h j),c.pay j n=
        c.REWARD j*(c.eraEnd h j-c.firstBlock j) := by
      rw [sum_const_nat (m := c.REWARD j) fun n _ => by rw [AcParams.pay,if_pos hH],Nat.card_Ico,
        Nat.mul_comm]
    have hle : c.eraEnd h j-c.firstBlock j≤h-1 := by
      unfold AcParams.firstBlock
      omega
    refine ⟨0,?_,fun _ => rfl⟩
    rw [if_pos hH,hsum,← Nat.mul_add,Nat.add_sub_cancel' hle,Nat.add_zero]
    by_cases hR : c.REWARD j=0
    · rw [eraSupply_zero id hR,hR,Nat.zero_mul,Nat.add_zero]
    · rw [eraSupply_flat id hR hH,pred32_eq (by omega) (by omega)]
      rfl
  rw [if_neg hH,← Nat.add_assoc,sum_pay_periods hH hfirst hstart]
  by_cases hR : c.REWARD j=0
  · have hunpaid : ∑ n ∈ Ico (c.firstBlock j) (c.eraEnd h j),c.pay j n=0 :=
      sum_eq_zero fun n hn => pay_of_zero hj (by have := (mem_Ico.1 hn).2; omega)
        (inEra_of_mem hn (eraEnd_le_end c h j)) hR
    have hsum := sum_pay_periods hH hfirst hstart
    have hfirstReward : (if j=0 then c.REWARD 0 else 0)=0 := by
      split_ifs with hzero
      · rwa [hzero] at hR
      · rfl
    rw [hunpaid,hfirstReward] at hsum
    refine ⟨0,?_,fun _ => rfl⟩
    rw [eraSupply_zero id hR,overcount_unrewarded hR,← hsum]
    rfl
  by_cases hcoin : c.DECAY j=coin
  · have hlinear := hj.linear hH hcoin
    have hamount := hlinear.amount
    refine ⟨0,?_,fun _ => rfl⟩
    have hmoney : linearSupply c j (BitVec.ofNat 64 (c.HALVING j))
        (BitVec.ofNat 64 (c.eraBlocks h j/c.HALVING j%2^32))
        (BitVec.ofNat 64 (c.eraBlocks h j))=BitVec.ofNat 64 (c.linearMoney h j) := by
      rw [eraBlocks_eq hmax hstart]
      rcases hlinear.shape with ⟨hzero,-⟩ | hflat | ⟨-,he⟩
      · exact absurd hzero hR
      · exact linearSupply_flat hflat
      · have hcur : c.eraEnd h j=c.ENDSUBSIDY j := by
          rw [AcParams.eraEnd,if_neg he.ENDSUBSIDY_ne,min_eq_right he.ENDSUBSIDY_le]
        have hle := he.ENDSUBSIDY_le
        have hsteps : c.steps j≤ c.ENDSUBSIDY j-c.eraStart j := Nat.div_le_self _ _
        have hmod : c.steps j%2^32=c.steps j := Nat.mod_eq_of_lt (by omega)
        rw [hcur] at hstart ⊢
        rw [← AcParams.steps,hmod]
        exact linearSupply_ended he hH hR hstart (by omega)
    rw [eraSupply_linear id hR hH hcoin,hmoney,BitVec.toNat_ofNat,Nat.mod_eq_of_lt (by omega),
      if_pos hcoin]
    have hpaid : c.paidAfter j=c.linearPay j := by
      funext s
      rw [AcParams.paidAfter,if_pos hcoin]
    rw [hpaid]
    rfl
  · have hpaid : c.paidAfter j=c.rewardAfter j := by
      funext s
      rw [AcParams.paidAfter,if_neg hcoin]
    obtain ⟨m,hm,hle,hcount⟩ := periodLoop_rounds (c.DECAY j) (by omega) hend hstart
      (hj.counter hR hH hcoin) (c.REWARD j) cur
    rw [AfterRounds] at hm
    have hsupply := eraSupply_stepped (h := h) id hR hH hcoin cur
    rw [hm] at hsupply
    have hmoney := hsupply.trans (add_last_period _ _ _ _)
    have hpart := (Nat.mod_lt (c.eraEnd h j-c.eraStart j) (Nat.pos_of_ne_zero hH)).le
    have hmono := windowMoney_mono (c.rewardAfter j) hpart hle
    rw [if_neg hcoin,hpaid,steppedSum_add_excess _ (Nat.pos_of_ne_zero hH)]
    rw [eraModulo_eq hmax hstart] at hmoney
    obtain ⟨extra,hextra⟩ := Nat.exists_eq_add_of_le hmono
    refine ⟨extra,?_,fun hsmall => ?_⟩
    · rw [hmoney]
      exact congrArg (fun x => some (cur+x)) hextra
    · rw [hcount (hsmall hR)] at hextra
      omega

theorem eraStart_lt (hc : c.Accepted) (hj : j ≤ c.LASTERA) (hend : c.ENDSUBSIDY j≠0) :
    c.eraStart j<c.ENDSUBSIDY j := by
  cases j with
  | zero =>
    rw [eraStart_zero]
    omega
  | succ j =>
    rw [eraStart_succ]
    exact hc.ENDSUBSIDY_lt j (by omega) hend

theorem eraStart_mono (hc : c.Accepted) {i : Nat} (hij : j≤ i) (hi : i ≤ c.LASTERA) :
    c.eraStart j≤ c.eraStart i := by
  cases j with
  | zero => exact Nat.zero_le _
  | succ j =>
    rw [show i=i-1+1 by omega,eraStart_succ,eraStart_succ]
    exact ENDSUBSIDY_mono hc (by omega) (by omega)

/-- The blocks of an era, as the chain pays them. -/
theorem sum_mined_eq (hc : c.Accepted) (hidle : ¬c.Idle) (hmax : h≤10000000)
    (hj : j ≤ c.LASTERA) (hcov : c.eraStart j<h → c.Covers h j) {b : Nat} (hb : b≤h)
    (hend : c.ENDSUBSIDY j=0 ∨ b ≤ c.ENDSUBSIDY j) :
    ∑ n ∈ Ico (c.firstBlock j) b,minedSubsidy c n=
      ∑ n ∈ Ico (c.firstBlock j) b,c.pay j n := by
  refine sum_congr rfl fun n hn => ?_
  have hera := inEra_of_mem hn hend
  have hlt := (mem_Ico.1 hn).2
  rw [minedSubsidy_eq hc hidle hj hera,eraSubsidy_eq_pay hc hmax hj hcov (by omega) hera]

/-- What the closed form counts too much for the eras from `j` on. -/
def AcParams.overcounts (c : AcParams) (h j : Nat) : Nat :=
  ∑ i ∈ Ico j (c.LASTERA+1),c.overcount h i

theorem overcounts_of_not_begun (hc : c.Accepted) (hj : h≤ c.eraStart j) :
    c.overcounts h j=0 :=
  sum_eq_zero fun i hi => by
    obtain ⟨hlow,hhigh⟩ := mem_Ico.1 hi
    have hmono := eraStart_mono hc hlow (by omega)
    rw [AcParams.overcount,if_pos (by omega)]

/-- The periods of the eras begun by `h` are below 2^31. -/
def AcParams.ShortPeriods (c : AcParams) (h : Nat) : Prop :=
  ∀j ≤ c.LASTERA,c.eraStart j<h → c.REWARD j≠0 → c.HALVING j<2^31

/-- The era of `h` and the eras after it end the loop. -/
theorem eraLoop_stop {n cur : Nat} (hn : j+n=c.LASTERA+1)
    (hj : j≠0) (hstart : h≤ c.eraStart j) : eraLoop id c h n j cur=some cur := by
  cases n with
  | zero => rfl
  | succ n =>
    rw [AcParams.eraStart,if_neg hj] at hstart
    rw [eraLoop,if_pos ⟨hj,.inl hstart⟩]

/-- The closed form adds for the eras from `j` on what their blocks below `h` pay
and what it counts too much. -/
theorem eraLoop_pays (hc : c.Accepted) (hidle : ¬c.Idle) (hh : 2≤h) (hmax : h≤10000000)
    (hcov : ∀j ≤ c.LASTERA,c.eraStart j<h → c.Covers h j) (n j cur : Nat)
    (hn : j+n=c.LASTERA+1) (hfirst : j=0 ∨ 0<c.eraStart j) (hj : c.eraStart j≤h) :
    ∃extra,eraLoop id c h n j cur=
        some (cur+(∑ i ∈ Ico (c.firstBlock j) h,minedSubsidy c i+c.overcounts h j+extra)) ∧
      (c.ShortPeriods h → extra=0) := by
  induction n generalizing j cur with
  | zero =>
    obtain rfl : j=c.LASTERA+1 := by omega
    rw [eraStart_succ] at hfirst
    have hzero : ∑ i ∈ Ico (c.firstBlock (c.LASTERA+1)) h,minedSubsidy c i=0 := by
      refine sum_eq_zero fun i hi => minedSubsidy_after hc hidle (by omega) ?_
      have hlow := (mem_Ico.1 hi).1
      rw [AcParams.firstBlock,eraStart_succ] at hlow
      omega
    refine ⟨0,?_,fun _ => rfl⟩
    rw [hzero,AcParams.overcounts,Ico_self,sum_empty]
    rfl
  | succ n ih =>
    have hlast : j ≤ c.LASTERA := by omega
    by_cases hbreak : h=c.eraStart j
    · have hpos : 0<c.eraStart j := by omega
      have hne : j≠0 := by
        rintro rfl
        exact absurd hpos (lt_irrefl 0)
      refine ⟨0,?_,fun _ => rfl⟩
      rw [eraLoop_stop hn hne hbreak.le,overcounts_of_not_begun hc hbreak.le,
        firstBlock_of_pos hpos,← hbreak,Ico_self,sum_empty]
      rfl
    have hlt : c.eraStart j<h := lt_of_le_of_ne hj fun heq => hbreak heq.symm
    have hcovj := hcov j hlast hlt
    have hgo : ¬(j≠0 ∧ (h≤ c.ENDSUBSIDY (j-1) ∨ c.ENDSUBSIDY (j-1)=0 ∧ c.REWARD j=0 ∧
        (j=c.LASTERA ∨ c.DECAY j≠coin))) := by
      rintro ⟨hne,hend⟩
      have hprev : c.eraStart j=c.ENDSUBSIDY (j-1) := by rw [AcParams.eraStart,if_neg hne]
      have hpos := hc.ENDSUBSIDY_pos (j-1) (by omega)
      omega
    have hstart : c.eraStart j<c.eraEnd h j := by
      unfold AcParams.eraEnd
      split_ifs with hend
      · exact hlt
      · exact lt_min hlt (eraStart_lt hc hlast hend)
    obtain ⟨extra,hsupply,hextra⟩ := eraSupply_money hcovj hh hmax hfirst hstart cur
    rw [← sum_mined_eq hc hidle hmax hlast (hcov j hlast) (eraEnd_le c h j)
      (eraEnd_le_end c h j)] at hsupply
    have hcounts : c.overcounts h j=c.overcount h j+c.overcounts h (j+1) :=
      sum_eq_sum_Ico_succ_bot (by omega) _
    rw [eraLoop,if_neg hgo,hsupply,Option.bind_some]
    by_cases hdone : c.ENDSUBSIDY j≠0 ∧ c.ENDSUBSIDY j≤h
    · have hera : c.eraEnd h j=c.ENDSUBSIDY j := by
        rw [AcParams.eraEnd,if_neg hdone.1,min_eq_right hdone.2]
      have hnext : c.firstBlock (j+1)=c.ENDSUBSIDY j := by
        rw [AcParams.firstBlock,eraStart_succ]
        omega
      obtain ⟨rest,hrest,hrestZero⟩ := ih (j+1) _ (by omega)
        (.inr (by rw [eraStart_succ]; omega)) (by rw [eraStart_succ]; exact hdone.2)
      have hfirstLe : c.firstBlock j≤ c.ENDSUBSIDY j := by
        unfold AcParams.firstBlock
        omega
      refine ⟨extra+rest,?_,fun hshort => ?_⟩
      · rw [hrest,hnext,hera,hcounts,← sum_Ico_consecutive _ hfirstLe hdone.2]
        congr 1
        omega
      · rw [hextra (hshort j hlast hlt),hrestZero hshort]
    · have hera : c.eraEnd h j=h := by
        unfold AcParams.eraEnd
        split_ifs
        · rfl
        · exact min_eq_left (by omega)
      have hlater : c.overcounts h (j+1)=0 ∧
          ∀cur,eraLoop id c h n (j+1) cur=some cur := by
        by_cases hend : c.ENDSUBSIDY j=0
        · have hpos := hc.ENDSUBSIDY_pos j
          obtain rfl : n=0 := by omega
          obtain rfl : j=c.LASTERA := by omega
          exact ⟨by rw [AcParams.overcounts,Ico_self,sum_empty],fun _ => rfl⟩
        · have hover : h≤ c.eraStart (j+1) := by
            rw [eraStart_succ]
            omega
          exact ⟨overcounts_of_not_begun hc hover,
            fun cur => eraLoop_stop (by omega) (Nat.succ_ne_zero j) hover⟩
      refine ⟨extra,?_,fun hshort => hextra (hshort j hlast hlt)⟩
      rw [hlater.2,hera,hcounts,hlater.1,Nat.add_zero]

end Accounting

end Zdeex.Emission
