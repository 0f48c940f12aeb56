import Mathlib.Algebra.BigOperators.Ring.Finset
import Mathlib.Data.BitVec
import Mathlib.Tactic.LinearCombination
import Mathlib.Tactic.Ring
import Zdeex.Emission.ScSupply

namespace Zdeex.Emission

open Zdeex.Framework Finset

/-- What a linear era has gone through at its end. -/
def AcParams.difference (c : AcParams) (j : Nat) : Nat :=
  if j=c.LASTERA then c.REWARD j
  else if c.REWARD (j+1)≤ c.REWARD j then c.REWARD j-c.REWARD (j+1)
  else c.REWARD (j+1)-c.REWARD j

/-- A linear era goes down to the reward of the next one, and the last one to zero. -/
def AcParams.Falling (c : AcParams) (j : Nat) : Prop := j=c.LASTERA ∨ c.REWARD (j+1)≤ c.REWARD j

instance (c : AcParams) (j : Nat) : Decidable (c.Falling j) :=
  inferInstanceAs (Decidable (_ ∨ _))

/-- The reward of a linear era after `s` periods. -/
def AcParams.linearPay (c : AcParams) (j s : Nat) : Nat :=
  let moved := c.difference j*(s*c.HALVING j)/(c.ENDSUBSIDY j-c.eraStart j)
  if c.Falling j then c.REWARD j-moved else c.REWARD j+moved

/-- The whole periods of an era that is over. -/
def AcParams.steps (c : AcParams) (j : Nat) : Nat :=
  (c.ENDSUBSIDY j-c.eraStart j)/c.HALVING j

/-- What the closed form adds for a linear era that is over beyond what its blocks
pay: down, the step of the closed form is rounded, and up, a block more is
counted at each step. -/
def AcParams.linearOvercount (c : AcParams) (h j : Nat) : Nat :=
  if c.ENDSUBSIDY j=0 ∨ h<c.ENDSUBSIDY j ∨ c.REWARD j=0 then 0
  else if c.Falling j then
    c.HALVING j*∑ s ∈ range (c.steps j),
      (c.difference j*s/c.steps j-c.difference j/c.steps j*s)
  else c.difference j

/-- What the closed form adds for a linear era that it sums up correctly. -/
def AcParams.linearMoney (c : AcParams) (h j : Nat) : Nat :=
  steppedSum (c.linearPay j) (c.HALVING j) (c.eraEnd h j-c.eraStart j)+c.linearOvercount h j

/-- A linear era that is over, in whole periods: its triangles are not cut, going
up its steps are not rounded, and the products fit in 64 bits. -/
structure AcParams.Ended (c : AcParams) (h j : Nat) : Prop where
  ENDSUBSIDY_ne : c.ENDSUBSIDY j≠0
  ENDSUBSIDY_le : c.ENDSUBSIDY j≤h
  whole : c.HALVING j∣c.ENDSUBSIDY j-c.eraStart j
  even : 2∣c.HALVING j*(c.difference j/c.steps j)
  step : c.Falling j ∨ c.steps j∣c.difference j
  numerator_lt : c.difference j*(c.ENDSUBSIDY j-c.eraStart j-c.HALVING j)<2^63
  product_lt : c.HALVING j*c.difference j<2^64

section Difference

variable (c : AcParams) (j : Nat)

theorem difference_le (hfall : c.Falling j) : c.difference j≤ c.REWARD j := by
  unfold AcParams.difference
  split_ifs with hlast hle
  · exact le_rfl
  · omega
  · exact absurd hfall (by rintro (h | h) <;> omega)

theorem add_difference_lt (hrise : ¬c.Falling j) : c.REWARD j+c.difference j<2^62 := by
  have hnext := c.REWARD_lt (j+1)
  unfold AcParams.Falling at hrise
  unfold AcParams.difference
  rw [if_neg (by omega),if_neg (by omega)]
  omega

theorem falling_of_level (hD : c.difference j=0) : c.Falling j := by
  unfold AcParams.difference at hD
  unfold AcParams.Falling
  split_ifs at hD <;> omega

/-- The sign of the difference, as the source tests it. -/
theorem msb_sub :
    (BitVec.ofNat 64 (c.REWARD j)-BitVec.ofNat 64 (c.REWARD (j+1))).msb=
      !decide (c.REWARD (j+1)≤ c.REWARD j) := by
  have hR := c.REWARD_lt j
  have hnext := c.REWARD_lt (j+1)
  rw [BitVec.msb_eq_decide,BitVec.toNat_sub,BitVec.toNat_ofNat,BitVec.toNat_ofNat]
  by_cases hle : c.REWARD (j+1)≤ c.REWARD j
  · simp only [hle,decide_true,Bool.not_true,decide_eq_false_iff_not]
    omega
  · simp only [hle,decide_false,Bool.not_false,decide_eq_true_eq]
    omega

theorem ofNat_sub_of_le {a b : Nat} (h : b≤a) :
    BitVec.ofNat 64 a-BitVec.ofNat 64 b=BitVec.ofNat 64 (a-b) := by
  change (a : BitVec 64)-(b : BitVec 64)=((a-b : Nat) : BitVec 64)
  rw [Nat.cast_sub h]

/-- `subsidyDifference` of the source. -/
theorem subsidyDifference_eq :
    (if j=c.LASTERA then BitVec.ofNat 64 (c.REWARD j)
      else if (BitVec.ofNat 64 (c.REWARD j)-BitVec.ofNat 64 (c.REWARD (j+1))).msb then
        -(BitVec.ofNat 64 (c.REWARD j)-BitVec.ofNat 64 (c.REWARD (j+1)))
      else BitVec.ofNat 64 (c.REWARD j)-BitVec.ofNat 64 (c.REWARD (j+1)))=
      BitVec.ofNat 64 (c.difference j) := by
  unfold AcParams.difference
  rw [msb_sub]
  by_cases hlast : j=c.LASTERA
  · rw [if_pos hlast,if_pos hlast]
  rw [if_neg hlast,if_neg hlast]
  by_cases hle : c.REWARD (j+1)≤ c.REWARD j
  · rw [if_pos hle,if_neg (by simp [hle]),ofNat_sub_of_le hle]
  · rw [if_neg hle,if_pos (by simp [hle]),neg_sub,ofNat_sub_of_le (by omega)]

end Difference

section Subsidy

variable {c : AcParams} {n j : Nat}

/-- The subsidy of a linear era, with its numerator and denominator given. -/
theorem linearSubsidy_of_numerator {N k : Nat} (hN : N≠0) (hN64 : N<2^63)
    (hden : BitVec.ofNat 64 (c.ENDSUBSIDY j)-BitVec.ofNat 64 (c.eraStart j)=BitVec.ofNat 64 N)
    (hnum : BitVec.ofNat 64 N-(BitVec.ofNat 64 (c.ENDSUBSIDY j)-BitVec.ofNat 64 n+
      (BitVec.ofNat 64 n-BitVec.ofNat 64 (c.eraStart j))%BitVec.ofNat 64 (c.HALVING j))=
        BitVec.ofNat 64 k)
    (hk : c.difference j*k<2^63) (hle : k≤N) :
    (linearSubsidy c n j).toNat=
      if c.Falling j then c.REWARD j-c.difference j*k/N else c.REWARD j+c.difference j*k/N := by
  have hR := c.REWARD_lt j
  have hzero : BitVec.ofNat 64 N≠0 := by
    intro h
    have := congrArg BitVec.toNat h
    rw [BitVec.toNat_ofNat,Nat.mod_eq_of_lt (by omega)] at this
    exact hN this
  have hquot : (BitVec.ofNat 64 (c.difference j)*BitVec.ofNat 64 k).sdiv (BitVec.ofNat 64 N)=
      BitVec.ofNat 64 (c.difference j*k/N) := by
    have hprod : BitVec.ofNat 64 (c.difference j)*BitVec.ofNat 64 k=
        BitVec.ofNat 64 (c.difference j*k) := (BitVec.ofNat_mul _ _).symm
    have hmsb : (BitVec.ofNat 64 (c.difference j*k)).msb=false := by
      rw [BitVec.msb_eq_false_iff_two_mul_lt,BitVec.toNat_ofNat]
      omega
    have hmsb' : (BitVec.ofNat 64 N).msb=false := by
      rw [BitVec.msb_eq_false_iff_two_mul_lt,BitVec.toNat_ofNat]
      omega
    rw [hprod,BitVec.sdiv_eq,hmsb,hmsb']
    apply BitVec.eq_of_toNat_eq
    have hle := Nat.div_le_self (c.difference j*k) N
    dsimp only
    rw [BitVec.udiv_eq,BitVec.toNat_udiv,BitVec.toNat_ofNat,BitVec.toNat_ofNat,
      BitVec.toNat_ofNat,Nat.mod_eq_of_lt (by omega),Nat.mod_eq_of_lt (by omega),
      Nat.mod_eq_of_lt (by omega)]
  have hmoved : c.difference j*k/N≤ c.difference j :=
    Nat.div_le_of_le_mul (by rw [Nat.mul_comm]; exact Nat.mul_le_mul_right _ hle)
  generalize c.difference j*k/N=moved at hquot hmoved ⊢
  have hdiff := subsidyDifference_eq c j
  rw [msb_sub] at hdiff
  unfold linearSubsidy
  dsimp only
  rw [hden,hnum,if_neg hzero]
  by_cases hlast : j=c.LASTERA
  · rw [if_pos hlast] at hdiff
    have hle := difference_le c j (.inl hlast)
    rw [if_neg (by simp [hlast]),if_pos hlast,if_pos (.inl hlast),hdiff,hquot,
      ← hdiff,ofNat_sub_of_le (by omega),BitVec.toNat_ofNat,Nat.mod_eq_of_lt (by omega)]
  rw [if_neg hlast] at hdiff
  rw [if_neg hlast,msb_sub]
  by_cases hfall : c.REWARD (j+1)≤ c.REWARD j
  · have hle := difference_le c j (.inr hfall)
    rw [if_neg (by simp [hfall])] at hdiff
    rw [if_neg (by simp [hfall]),if_pos (.inr hfall),hdiff,hquot,
      ofNat_sub_of_le (by omega),BitVec.toNat_ofNat,Nat.mod_eq_of_lt (by omega)]
  · have hlt := add_difference_lt c j (by unfold AcParams.Falling; omega)
    rw [if_pos (by simp [hfall])] at hdiff
    rw [if_pos (by simp [hlast,hfall]),if_neg (by unfold AcParams.Falling; omega),hdiff,hquot,
      ← BitVec.ofNat_add,BitVec.toNat_ofNat,Nat.mod_eq_of_lt (by omega)]

/-- Inside a linear era a block pays the reward of its period. -/
theorem linearSubsidy_eq_pay (hp : c.HALVING j<2^64) (hend : c.ENDSUBSIDY j<2^63)
    (hlow : c.eraStart j≤n) (hhigh : n<c.ENDSUBSIDY j)
    (hprod : c.difference j*((n-c.eraStart j)/c.HALVING j*c.HALVING j)<2^63) :
    (linearSubsidy c n j).toNat=c.linearPay j ((n-c.eraStart j)/c.HALVING j) := by
  have hk := Nat.div_mul_le_self (n-c.eraStart j) (c.HALVING j)
  refine linearSubsidy_of_numerator (by omega) (by omega) (ofNat_sub_of_le (by omega)) ?_ hprod
    (by omega)
  have hmod : BitVec.ofNat 64 (n-c.eraStart j)%BitVec.ofNat 64 (c.HALVING j)=
      BitVec.ofNat 64 ((n-c.eraStart j)%c.HALVING j) := by
    apply BitVec.eq_of_toNat_eq
    have hle := Nat.mod_le (n-c.eraStart j) (c.HALVING j)
    have hlt : n-c.eraStart j<2^64 := by omega
    rw [BitVec.toNat_umod,BitVec.toNat_ofNat,BitVec.toNat_ofNat,BitVec.toNat_ofNat,
      Nat.mod_eq_of_lt hp,Nat.mod_eq_of_lt hlt,Nat.mod_eq_of_lt (hle.trans_lt hlt)]
  have hsplit := Nat.div_add_mod' (n-c.eraStart j) (c.HALVING j)
  rw [ofNat_sub_of_le hlow,hmod,ofNat_sub_of_le (by omega),← BitVec.ofNat_add,
    ofNat_sub_of_le (by omega)]
  congr 1
  omega

/-- Without a difference every block pays the same. -/
theorem linearSubsidy_level (hD : c.difference j=0) (hend : c.ENDSUBSIDY j<2^64)
    (hlt : c.eraStart j<c.ENDSUBSIDY j) : (linearSubsidy c n j).toNat=c.REWARD j := by
  have hR := c.REWARD_lt j
  have hden : BitVec.ofNat 64 (c.ENDSUBSIDY j)-BitVec.ofNat 64 (c.eraStart j)≠0 := by
    intro h
    have := congrArg BitVec.toNat (ofNat_sub_of_le hlt.le ▸ h)
    rw [BitVec.toNat_ofNat,Nat.mod_eq_of_lt (by omega)] at this
    exact absurd this (by simp; omega)
  have hdiff := subsidyDifference_eq c j
  rw [msb_sub,hD] at hdiff
  have hfall := falling_of_level c j hD
  unfold linearSubsidy
  dsimp only
  rw [if_neg hden]
  by_cases hlast : j=c.LASTERA
  · have hR0 : c.REWARD j=0 := by
      unfold AcParams.difference at hD
      rwa [if_pos hlast] at hD
    rw [if_neg (by simp [hlast]),if_pos hlast,hR0]
    simp
  · have hle := hfall.resolve_left hlast
    rw [if_neg hlast,if_neg (by simp [hle])] at hdiff
    rw [if_neg hlast,if_neg (by rw [msb_sub]; simp [hle]),hdiff,BitVec.zero_mul,
      BitVec.zero_sdiv,BitVec.sub_zero,BitVec.toNat_ofNat]
    omega

end Subsidy

section Supply

variable {c : AcParams} {h j : Nat}

/-- `stepDifference` of the source in an era that is over. -/
theorem stepDifference_eq {p m D : Nat} (hp : p≠0) (hm : m≠0) (hblocks : m*p<2^64)
    (hprod : p*D<2^64) :
    BitVec.ofNat 64 p*BitVec.ofNat 64 D/
        (if BitVec.ofNat 64 m*BitVec.ofNat 64 p=0 then 1 else BitVec.ofNat 64 m*BitVec.ofNat 64 p)=
      BitVec.ofNat 64 (D/m) := by
  have hpos : 0 < m*p := Nat.mul_pos (by omega) (by omega)
  have hne : BitVec.ofNat 64 (m*p)≠0 := by
    intro h
    have := congrArg BitVec.toNat h
    rw [BitVec.toNat_ofNat,Nat.mod_eq_of_lt hblocks] at this
    exact absurd this (by simp; omega)
  have hDm : D/m≤p*D := (Nat.div_le_self D m).trans (Nat.le_mul_of_pos_left D (by omega))
  rw [← BitVec.ofNat_mul,← BitVec.ofNat_mul,if_neg hne]
  apply BitVec.eq_of_toNat_eq
  rw [BitVec.toNat_udiv,BitVec.toNat_ofNat,BitVec.toNat_ofNat,BitVec.toNat_ofNat,
    Nat.mod_eq_of_lt hprod,Nat.mod_eq_of_lt hblocks,Nat.mod_eq_of_lt (by omega),
    Nat.mul_comm m p,Nat.mul_div_mul_left _ _ (by omega)]

/-- `stepTriangle` of the source. -/
theorem stepTriangle_eq {p q t : Nat} (ht : p*q=2*t) (hlt : p*q<2^64) :
    (BitVec.ofNat 64 p*BitVec.ofNat 64 q) >>> 1=BitVec.ofNat 64 t := by
  rw [← BitVec.ofNat_mul]
  apply BitVec.eq_of_toNat_eq
  rw [BitVec.toNat_ushiftRight,BitVec.toNat_ofNat,BitVec.toNat_ofNat,Nat.shiftRight_eq_div_pow]
  omega

/-- A falling staircase and its minor triangle twice are the rectangle around it. -/
theorem sum_falling {R q m : Nat} (hq : q*m≤R) :
    2*∑ s ∈ range m,(R-q*s)+q*(m*(m-1))=2*(R*m) := by
  have hstep : ∀s∈range m,R-q*s+q*s=R := fun s hs =>
    Nat.sub_add_cancel ((Nat.mul_le_mul_left q (mem_range.1 hs).le).trans hq)
  have hall : ∑ s ∈ range m,(R-q*s)+q*∑ s ∈ range m,s=R*m := by
    rw [mul_sum,← sum_add_distrib,sum_congr rfl hstep,sum_const,card_range,smul_eq_mul,
      Nat.mul_comm]
  rw [← sum_range_id_mul_two,← hall]
  ring

theorem sum_rising (R q m : Nat) :
    2*∑ s ∈ range m,(R+q*s)=2*(R*m)+q*(m*(m-1)) := by
  rw [sum_add_distrib,← mul_sum,sum_const,card_range,smul_eq_mul,← sum_range_id_mul_two]
  ring

/-- The falling closed form of an era of `m` periods. -/
theorem falling_form {R p q t m : Nat} (ht : p*q=2*t) (hq : q*m≤R) :
    BitVec.ofNat 64 t*BitVec.ofNat 64 m+BitVec.ofNat 64 t*BitVec.ofNat 64 m*BitVec.ofNat 64 m+
        (BitVec.ofNat 64 R-BitVec.ofNat 64 q*BitVec.ofNat 64 m)*BitVec.ofNat 64 (m*p)=
      BitVec.ofNat 64 (p*∑ s ∈ range m,(R-q*s)) := by
  have hsum : p*∑ s ∈ range m,(R-q*s)+t*(m*(m-1))=R*p*m := by
    have h := congrArg (p*·) (sum_falling hq)
    have hassoc : p*(q*(m*(m-1)))=2*(t*(m*(m-1))) := by
      rw [← Nat.mul_assoc,ht,Nat.mul_assoc]
    have hrect : p*(2*(R*m))=2*(R*p*m) := by ring
    rw [Nat.mul_add,hassoc,hrect,Nat.mul_left_comm] at h
    omega
  have hcast := congrArg (Nat.cast : Nat → BitVec 64) hsum
  have ht' := congrArg (Nat.cast : Nat → BitVec 64) (ht.trans (Nat.two_mul t))
  change (t : BitVec 64)*m+t*m*m+(R-q*m)*((m*p : Nat) : BitVec 64)=
    ((p*∑ s ∈ range m,(R-q*s) : Nat) : BitVec 64)
  cases m with
  | zero => simp
  | succ k =>
    rw [Nat.add_sub_cancel] at hcast
    simp only [Nat.cast_add,Nat.cast_mul,Nat.cast_one] at hcast ht' ⊢
    linear_combination -hcast-(k+1)*(k+1)*ht'

/-- The rising closed form of an era of `m` periods counts a block more a step. -/
theorem rising_form {R p q t m : Nat} (ht : p*q=2*t) (hm : m≠0) :
    BitVec.ofNat 64 t*BitVec.ofNat 64 (m-1)+
        BitVec.ofNat 64 t*BitVec.ofNat 64 (m-1)*BitVec.ofNat 64 (m-1)+
        BitVec.ofNat 64 q*BitVec.ofNat 64 m+BitVec.ofNat 64 R*BitVec.ofNat 64 (m*p)=
      BitVec.ofNat 64 (p*∑ s ∈ range m,(R+q*s)+q*m) := by
  have hsum : p*∑ s ∈ range m,(R+q*s)=R*p*m+t*(m*(m-1)) := by
    have h := congrArg (p*·) (sum_rising R q m)
    have hassoc : p*(q*(m*(m-1)))=2*(t*(m*(m-1))) := by
      rw [← Nat.mul_assoc,ht,Nat.mul_assoc]
    have hrect : p*(2*(R*m))=2*(R*p*m) := by ring
    rw [Nat.mul_add,hassoc,hrect,Nat.mul_left_comm] at h
    omega
  obtain ⟨k,rfl⟩ : ∃k,m=k+1 := ⟨m-1,by omega⟩
  rw [hsum,Nat.add_sub_cancel]
  change (t : BitVec 64)*k+t*k*k+q*((k+1 : Nat) : BitVec 64)+R*(((k+1)*p : Nat) : BitVec 64)=
    ((R*p*(k+1)+t*((k+1)*k)+q*(k+1) : Nat) : BitVec 64)
  simp only [Nat.cast_add,Nat.cast_mul,Nat.cast_one]
  ring

theorem linearSupply_of_falling (hfall : c.Falling j) (period nSteps blocks : BitVec 64) :
    linearSupply c j period nSteps blocks=
      let stepDifference := period*BitVec.ofNat 64 (c.difference j)/
        (if nSteps*period=0 then 1 else nSteps*period)
      let stepTriangle := (period*stepDifference) >>> 1
      stepTriangle*nSteps+stepTriangle*nSteps*nSteps+
        (BitVec.ofNat 64 (c.REWARD j)-stepDifference*nSteps)*blocks := by
  have hflag : (decide (j=c.LASTERA) ||
      !(BitVec.ofNat 64 (c.REWARD j)-BitVec.ofNat 64 (c.REWARD (j+1))).msb)=true := by
    rw [msb_sub]
    simpa [AcParams.Falling] using hfall
  unfold linearSupply
  dsimp only
  rw [if_pos hflag,subsidyDifference_eq]

theorem linearSupply_of_rising (hrise : ¬c.Falling j) (period nSteps blocks : BitVec 64) :
    linearSupply c j period nSteps blocks=
      let stepDifference := period*BitVec.ofNat 64 (c.difference j)/
        (if nSteps*period=0 then 1 else nSteps*period)
      let stepTriangle := (period*stepDifference) >>> 1
      let less := ((nSteps-1).setWidth 32).setWidth 64
      stepTriangle*less+stepTriangle*less*less+stepDifference*nSteps+
        BitVec.ofNat 64 (c.REWARD j)*blocks := by
  have hflag : ¬(decide (j=c.LASTERA) ||
      !(BitVec.ofNat 64 (c.REWARD j)-BitVec.ofNat 64 (c.REWARD (j+1))).msb)=true := by
    rw [msb_sub]
    simpa [AcParams.Falling] using hrise
  unfold linearSupply
  dsimp only
  rw [if_neg hflag,subsidyDifference_eq]

theorem linearPay_zero (c : AcParams) (j : Nat) : c.linearPay j 0=c.REWARD j := by
  simp [AcParams.linearPay]

theorem linearPay_level (hD : c.difference j=0) (s : Nat) : c.linearPay j s=c.REWARD j := by
  simp [AcParams.linearPay,hD]

/-- The reward is the same in all blocks that the closed form counts. -/
def AcParams.Flat (c : AcParams) (h j : Nat) : Prop :=
  c.difference j=0 ∨ c.Falling j ∧ c.eraEnd h j-c.eraStart j<c.HALVING j

theorem falling_of_flat (hflat : c.Flat h j) : c.Falling j :=
  hflat.elim (falling_of_level c j) And.left

theorem linearMoney_flat (hflat : c.Flat h j) :
    c.linearMoney h j=c.REWARD j*(c.eraEnd h j-c.eraStart j) := by
  have hsum : steppedSum (c.linearPay j) (c.HALVING j) (c.eraEnd h j-c.eraStart j)=
      c.REWARD j*(c.eraEnd h j-c.eraStart j) := by
    rw [steppedSum,sum_const_nat (m := c.REWARD j),card_range,Nat.mul_comm]
    intro i hi
    rcases hflat with hD | ⟨-,hlt⟩
    · exact linearPay_level hD _
    · rw [Nat.div_eq_of_lt ((mem_range.1 hi).trans hlt),linearPay_zero]
  have hover : c.linearOvercount h j=0 := by
    unfold AcParams.linearOvercount
    split_ifs with hopen hfall
    · rfl
    · rcases hflat with hD | ⟨-,hlt⟩
      · rw [sum_eq_zero fun s _ => by rw [hD]; simp,Nat.mul_zero]
      · have hend : c.eraEnd h j=c.ENDSUBSIDY j := by
          rw [AcParams.eraEnd,if_neg (by omega),min_eq_right (by omega)]
        rw [hend] at hlt
        rw [AcParams.steps,Nat.div_eq_of_lt hlt,sum_range_zero,Nat.mul_zero]
    · exact absurd (falling_of_flat hflat) hfall
  rw [AcParams.linearMoney,hsum,hover,Nat.add_zero]

theorem linearSupply_flat (hflat : c.Flat h j) :
    linearSupply c j (BitVec.ofNat 64 (c.HALVING j))
        (BitVec.ofNat 64 ((c.eraEnd h j-c.eraStart j)/c.HALVING j%2^32))
        (BitVec.ofNat 64 (c.eraEnd h j-c.eraStart j))=BitVec.ofNat 64 (c.linearMoney h j) := by
  rw [linearSupply_of_falling (falling_of_flat hflat),linearMoney_flat hflat,BitVec.ofNat_mul]
  rcases hflat with hD | ⟨-,hlt⟩
  · simp [hD]
  · rw [Nat.div_eq_of_lt hlt]
    simp

/-- The reward of an era that is over, by the number of its steps. -/
theorem linearPay_ended (he : c.Ended h j) (hpos : c.HALVING j≠0) {s : Nat} :
    c.linearPay j s=if c.Falling j then c.REWARD j-c.difference j*s/c.steps j
      else c.REWARD j+c.difference j*s/c.steps j := by
  have hblocks : c.steps j*c.HALVING j=c.ENDSUBSIDY j-c.eraStart j := Nat.div_mul_cancel he.whole
  rw [AcParams.linearPay,← hblocks,← Nat.mul_assoc,Nat.mul_div_mul_right _ _ (by omega)]

theorem linearMoney_ended (he : c.Ended h j) (hpos : c.HALVING j≠0) (hR : c.REWARD j≠0) :
    c.linearMoney h j=if c.Falling j then
        c.HALVING j*∑ s ∈ range (c.steps j),(c.REWARD j-c.difference j/c.steps j*s)
      else c.HALVING j*∑ s ∈ range (c.steps j),(c.REWARD j+c.difference j/c.steps j*s)+
        c.difference j/c.steps j*c.steps j := by
  have hend : c.eraEnd h j=c.ENDSUBSIDY j := by
    rw [AcParams.eraEnd,if_neg he.ENDSUBSIDY_ne,min_eq_right he.ENDSUBSIDY_le]
  have hblocks : c.steps j*c.HALVING j=c.ENDSUBSIDY j-c.eraStart j := Nat.div_mul_cancel he.whole
  have hle := he.ENDSUBSIDY_le
  rw [AcParams.linearMoney,hend,← hblocks,steppedSum_windows _ (by omega),
    AcParams.linearOvercount,if_neg (by have := he.ENDSUBSIDY_ne; omega)]
  by_cases hfall : c.Falling j
  · rw [if_pos hfall,if_pos hfall,← Nat.mul_add,← sum_add_distrib]
    refine congrArg _ (sum_congr rfl fun s hs => ?_)
    have hquot : c.difference j/c.steps j*s≤ c.difference j*s/c.steps j := by
      rw [Nat.mul_comm,Nat.mul_comm _ s]
      exact Nat.mul_div_le_mul_div_assoc _ _ _
    have hmoved : c.difference j*s/c.steps j≤ c.difference j :=
      Nat.div_le_of_le_mul (by
        rw [Nat.mul_comm]
        exact Nat.mul_le_mul_right _ (mem_range.1 hs).le)
    have hR := difference_le c j hfall
    rw [linearPay_ended he hpos,if_pos hfall]
    omega
  · have hdvd := he.step.resolve_left hfall
    rw [if_neg hfall,if_neg hfall,Nat.div_mul_cancel hdvd]
    refine congrArg (c.HALVING j*·+c.difference j) (sum_congr rfl fun s _ => ?_)
    rw [linearPay_ended he hpos,if_neg hfall,Nat.mul_div_right_comm hdvd]

theorem linearSupply_ended (he : c.Ended h j) (hpos : c.HALVING j≠0) (hR : c.REWARD j≠0)
    (hlt : c.eraStart j<c.ENDSUBSIDY j) (hh : c.ENDSUBSIDY j<2^32) :
    linearSupply c j (BitVec.ofNat 64 (c.HALVING j)) (BitVec.ofNat 64 (c.steps j))
        (BitVec.ofNat 64 (c.ENDSUBSIDY j-c.eraStart j))=BitVec.ofNat 64 (c.linearMoney h j) := by
  have hblocks : c.steps j*c.HALVING j=c.ENDSUBSIDY j-c.eraStart j := Nat.div_mul_cancel he.whole
  have hm : c.steps j≠0 := by
    rintro hzero
    rw [hzero,Nat.zero_mul] at hblocks
    omega
  have hmle : c.steps j≤ c.ENDSUBSIDY j-c.eraStart j := Nat.div_le_self _ _
  obtain ⟨t,ht⟩ := he.even
  have hstep : BitVec.ofNat 64 (c.HALVING j)*BitVec.ofNat 64 (c.difference j)/
      (if BitVec.ofNat 64 (c.steps j)*BitVec.ofNat 64 (c.HALVING j)=0 then 1
        else BitVec.ofNat 64 (c.steps j)*BitVec.ofNat 64 (c.HALVING j))=
      BitVec.ofNat 64 (c.difference j/c.steps j) :=
    stepDifference_eq hpos hm (by omega) he.product_lt
  have htri : (BitVec.ofNat 64 (c.HALVING j)*BitVec.ofNat 64 (c.difference j/c.steps j)) >>> 1=
      BitVec.ofNat 64 t :=
    stepTriangle_eq ht ((Nat.mul_le_mul_left _ (Nat.div_le_self _ _)).trans_lt he.product_lt)
  rw [linearMoney_ended he hpos hR,← hblocks]
  by_cases hfall : c.Falling j
  · rw [if_pos hfall,linearSupply_of_falling hfall]
    dsimp only
    rw [hstep,htri]
    exact falling_form ht ((Nat.div_mul_le_self _ _).trans (difference_le c j hfall))
  · have hless : ((BitVec.ofNat 64 (c.steps j)-1).setWidth 32).setWidth 64=
        BitVec.ofNat 64 (c.steps j-1) := by
      rw [show (1 : BitVec 64)=BitVec.ofNat 64 1 from rfl,ofNat_sub_of_le (by omega)]
      apply BitVec.eq_of_toNat_eq
      rw [BitVec.toNat_setWidth,BitVec.toNat_setWidth,BitVec.toNat_ofNat]
      omega
    rw [if_neg hfall,linearSupply_of_rising hfall]
    dsimp only
    rw [hstep,htri,hless]
    exact rising_form ht hm

end Supply

end Zdeex.Emission
