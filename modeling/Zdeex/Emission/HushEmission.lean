import Mathlib.Tactic.Common
import Mathlib.Tactic.IntervalCases
import Zdeex.Framework.StepTable

namespace Zdeex.Emission

open Zdeex.Framework

/-- An `int64_t` argument stored in an `int32_t`. -/
def toInt32 (x : Int) : Int := (BitVec.ofInt 32 x).toInt

/-- Default of `-z2zheight`, the height of the first halving. -/
def defaultZ2zheight : Int := 340000

/-- The `else if` chain of `hush_block_subsidy` after the first halving. -/
def subsidyTable : List (Int × Nat) :=
  [(2020000,281250000),(3700000,140625000),(5380000,70312500),(7060000,35156250),
    (8740000,17578125),(10420000,8789062),(12100000,4394531),(15460000,2197265),
    (17140000,1098632),(18820000,549316),(23860000,274658),(23860000,137329),
    (25540000,68664),(27220000,34332),(27220000,17166),(28900000,8583),(30580000,4291),
    (32260000,2145),(33940000,1072),(35620000,536),(37300000,268),(38980000,134),
    (40660000,67),(42340000,33),(44020000,16),(45700000,8),(47380000,4),(49060000,2),
    (50740000,1)]

/-- The `else if` chain of `hush_commission` after the first halving. -/
def commissionTable : List (Int × Nat) :=
  [(2020000,31250000),(3700000,15625000),(5380000,7812500),(7060000,3906250),
    (8740000,1953125),(10420000,976562),(12100000,488281),(15460000,244140),
    (17140000,122070),(18820000,61035),(23860000,30517),(23860000,15258),
    (25540000,7629),(27220000,3814),(27220000,1907),(28900000,953),(30580000,476),
    (32260000,238),(33940000,119),(35620000,59),(37300000,29),(38980000,14),
    (40660000,7),(42340000,3),(44020000,1),(45700000,0),(47380000,0),(49060000,0),
    (50740000,0)]

/-- `z2zheight` is the value of the argument `-z2zheight`. -/
def hushBlockSubsidy (z2zheight height : Int) : Nat :=
  if height<128 then 0
  else if height<toInt32 z2zheight then 1125000000
  else stepAt subsidyTable 0 height

/-- The halving intervals are computed in the source but used only in a message. -/
def hushCommission (z2zheight height : Int) : Nat :=
  if height<129 then 0
  else if height<toInt32 z2zheight then 125000000
  else stepAt commissionTable 0 height

theorem commissionTable_eq : commissionTable=subsidyTable.map fun e => (e.1,e.2/9) := by
  decide

/-- The two tables are in step at every height with a founders reward, and that
reward is a tenth of the total up to rounding. -/
theorem commission_eq_subsidy_div_nine (z2zheight height : Int) (h : 129≤height) :
    hushCommission z2zheight height=hushBlockSubsidy z2zheight height/9 ∧
    10*hushCommission z2zheight height≤
      hushBlockSubsidy z2zheight height+hushCommission z2zheight height ∧
    hushBlockSubsidy z2zheight height+hushCommission z2zheight height<
      10*hushCommission z2zheight height+9 := by
  have hdiv : hushCommission z2zheight height=hushBlockSubsidy z2zheight height/9 := by
    unfold hushCommission hushBlockSubsidy
    have hc : ¬height<129 := by omega
    have hs : ¬height<128 := by omega
    rw [if_neg hc,if_neg hs]
    split_ifs with hbefore
    · rfl
    · rw [commissionTable_eq]
      exact stepAt_map (fun s => s/9) subsidyTable 0 height
  refine ⟨hdiv,?_,?_⟩ <;> omega

theorem commission_eq_subsidy_div_nine_mined :
    hushCommission defaultZ2zheight 340000=hushBlockSubsidy defaultZ2zheight 340000/9 :=
  (commission_eq_subsidy_div_nine defaultZ2zheight 340000 (by decide)).1

/-- The schedule in the comments: a halving every 1680000 blocks. -/
def scheduledSubsidy (height : Int) : Nat :=
  281250000/2^((height-340000)/1680000).toNat

/-- Thresholds of the table counted in halving intervals: the 8th is missing, as
are the 12th and 13th, and the 14th and 16th appear twice. -/
def subsidyIntervals : List (Nat × Nat) :=
  [(1,281250000),(2,140625000),(3,70312500),(4,35156250),(5,17578125),(6,8789062),
    (7,4394531),(9,2197265),(10,1098632),(11,549316),(14,274658),(14,137329),(15,68664),
    (16,34332),(16,17166),(17,8583),(18,4291),(19,2145),(20,1072),(21,536),(22,268),(23,134),
    (24,67),(25,33),(26,16),(27,8),(28,4),(29,2),(30,1)]

theorem subsidyTable_eq :
    subsidyTable=subsidyIntervals.map fun e => (340000+1680000*(e.1 : Int),e.2) := by
  decide

theorem subsidyIntervals_correct_iff (k : Nat) (hk : k<30) :
    stepAt subsidyIntervals 0 k=281250000/2^k ↔ k<8 := by
  interval_cases k <;> decide

/-- From the default first halving on, the table follows the schedule exactly up
to the first missing threshold and after everything has become zero. -/
theorem subsidy_on_schedule_iff (height : Int) (h : 340000≤height) :
    hushBlockSubsidy defaultZ2zheight height=scheduledSubsidy height ↔
      height<13780000 ∨ 50740000≤height := by
  obtain ⟨k,hk⟩ : ∃k : Nat,(height-340000)/1680000=(k : Int) :=
    Int.eq_ofNat_of_zero_le (by omega)
  have hsub : hushBlockSubsidy defaultZ2zheight height=stepAt subsidyIntervals 0 k := by
    have hfirst : toInt32 defaultZ2zheight=340000 := by decide
    unfold hushBlockSubsidy
    rw [if_neg (by omega),hfirst,if_neg (by omega),subsidyTable_eq]
    exact stepAt_reindex (fun j : Nat => 340000+1680000*(j : Int)) _ _ _ _ (by intro j; omega)
  have hsched : scheduledSubsidy height=281250000/2^k := by
    unfold scheduledSubsidy
    rw [hk,Int.toNat_natCast]
  rw [hsub,hsched]
  by_cases hlast : k<30
  · rw [subsidyIntervals_correct_iff k hlast]
    omega
  · have hzero : stepAt subsidyIntervals 0 k=0 := by
      apply stepAt_default
      intro e he
      have hbound : e.1≤30 := by
        revert e
        decide
      omega
    have hpow : 2^30≤2^k := Nat.pow_le_pow_right (by decide) (by omega)
    have hdiv : 281250000/2^k=0 := Nat.div_eq_of_lt (lt_of_lt_of_le (by decide) hpow)
    rw [hzero,hdiv]
    exact ⟨fun _ => .inr (by omega),fun _ => rfl⟩

theorem subsidy_on_schedule_iff_early :
    hushBlockSubsidy defaultZ2zheight 2020000=scheduledSubsidy 2020000 :=
  (subsidy_on_schedule_iff 2020000 (by decide)).mpr (.inl (by decide))

/-- At the missing threshold the reward is twice the scheduled one. -/
theorem subsidy_late_at_13780000 :
    hushBlockSubsidy defaultZ2zheight 13780000=2197265 ∧ scheduledSubsidy 13780000=1098632 := by
  decide

end Zdeex.Emission
