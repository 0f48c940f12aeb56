import Mathlib.Algebra.BigOperators.Intervals
import Mathlib.Algebra.Order.BigOperators.Group.Finset

namespace Zdeex.Framework

open Finset

variable (r : Nat → Nat) {p : Nat}

/-- What is paid at the first `n` positions when the pay changes every `p`. -/
def steppedSum (r : Nat → Nat) (p n : Nat) : Nat := ∑ i ∈ range n,r (i/p)

theorem steppedSum_windows (hp : 0<p) (m : Nat) :
    steppedSum r p (m*p)=p*∑ s ∈ range m,r s := by
  unfold steppedSum
  induction m with
  | zero => simp
  | succ m ih =>
    have hwindow : ∀i∈range p,r ((m*p+i)/p)=r m := by
      intro i hi
      rw [Nat.mul_comm m p,Nat.mul_add_div hp,Nat.div_eq_of_lt (mem_range.1 hi),Nat.add_zero]
    rw [Nat.succ_mul,sum_range_add,ih,sum_const_nat hwindow,sum_range_succ,card_range,Nat.mul_add]

/-- The windows that `n` positions begin. -/
def windows (p n : Nat) : Nat := if p∣n then n/p else n/p+1

/-- What the windows that `n` positions begin, and a part of the next one as long as
the rest, pay beyond these positions. -/
def windowExcess (r : Nat → Nat) (p n : Nat) : Nat :=
  if p∣n then 0 else (p-n%p)*r (n/p)+n%p*r (n/p+1)

/-- Whole windows, and the part of one that is left. -/
theorem steppedSum_eq (hp : 0<p) (n : Nat) :
    steppedSum r p n=p*∑ s ∈ range (n/p),r s+n%p*r (n/p) := by
  have hrest : ∀i∈range (n%p),r ((n/p*p+i)/p)=r (n/p) := by
    intro i hi
    have hlt := (mem_range.1 hi).trans (Nat.mod_lt n hp)
    rw [Nat.mul_comm (n/p) p,Nat.mul_add_div hp,Nat.div_eq_of_lt hlt,Nat.add_zero]
  rw [← steppedSum_windows r hp,steppedSum]
  nth_rewrite 1 [← Nat.div_add_mod' n p]
  rw [sum_range_add,sum_const_nat hrest,card_range]
  rfl

theorem steppedSum_add_excess (hp : 0<p) (n : Nat) :
    steppedSum r p n+windowExcess r p n=
      p*∑ s ∈ range (windows p n),r s+n%p*r (windows p n) := by
  rw [steppedSum_eq r hp]
  unfold windowExcess windows
  split_ifs with hdvd
  · rfl
  · have hlt := Nat.mod_lt n hp
    have hpay : n%p*r (n/p)+(p-n%p)*r (n/p)=p*r (n/p) := by
      rw [← Nat.add_mul]
      congr 1
      omega
    rw [sum_range_succ,Nat.mul_add,← hpay]
    omega

/-- More windows pay more, the part of the next one included. -/
theorem windowMoney_mono {t : Nat} (ht : t≤p) :
    Monotone fun m => p*∑ s ∈ range m,r s+t*r m :=
  monotone_nat_of_le_succ fun m => by
    have hpart := Nat.mul_le_mul_right (r m) ht
    rw [sum_range_succ,Nat.mul_add]
    omega

theorem windows_zero (p : Nat) : windows p 0=0 := by
  rw [windows,if_pos (Nat.dvd_zero p),Nat.zero_div]

theorem windows_le {m n : Nat} (h : n ≤ m*p) : windows p n≤ m := by
  unfold windows
  split_ifs with hdvd
  · exact Nat.div_le_of_le_mul (by rwa [Nat.mul_comm] at h)
  · refine Nat.div_lt_of_lt_mul (lt_of_le_of_ne (by rwa [Nat.mul_comm] at h) ?_)
    rintro rfl
    exact hdvd ⟨m,rfl⟩

/-- The first window is the one that is begun first. -/
theorem windows_step {n : Nat} (hp : 0<p) (hn : 0<n) : windows p n=windows p (n-p)+1 := by
  unfold windows
  by_cases hle : p≤n
  · have hdiv : n/p=(n-p)/p+1 := Nat.div_eq_sub_div hp hle
    rw [hdiv]
    by_cases hdvd : p∣n
    · rw [if_pos hdvd,if_pos (Nat.dvd_sub hdvd (Nat.dvd_refl p))]
    · have hrest : ¬p∣n-p := fun h => hdvd (by
        have hadd := Nat.dvd_add h (Nat.dvd_refl p)
        rwa [Nat.sub_add_cancel hle] at hadd)
      rw [if_neg hdvd,if_neg hrest]
  · have hnot : ¬p∣n := fun h => hle (Nat.le_of_dvd hn h)
    rw [if_neg hnot,Nat.sub_eq_zero_of_le (by omega),if_pos (Nat.dvd_zero p),Nat.zero_div,
      Nat.div_eq_of_lt (by omega)]

end Zdeex.Framework
