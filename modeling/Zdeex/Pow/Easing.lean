import Mathlib.Data.Nat.Factorization.Basic
import Mathlib.Tactic.Linarith
import Mathlib.Tactic.Positivity
import Zdeex.Pow.CheckProofOfWork
import Zdeex.Pow.Compact

namespace Zdeex.Pow.Easing

open Zdeex.Framework BaseUint

section Definitions

/-- An `int32_t` product. -/
def toInt32 (x : Int) : Int := x.bmod (2^32)

/-- A block time between a second and an hour. -/
structure Blocktime where
  seconds : Int
  pos : 1 ≤ seconds
  le_hour : seconds≤3600

variable (ASSETCHAINS_BLOCKTIME : Blocktime)

/-- `A *= 3`, as often as the argument says. -/
def cubes : Nat → BitVec 64
  | 0 => 1
  | i+1 => cubes i*3

/-- The polynomial for the part of a block time. -/
def partOf (modval : Int) : Int :=
  let T := ASSETCHAINS_BLOCKTIME.seconds
  if modval≠0 then 3600*100+(toInt32 (3600*110*modval)).tdiv T+
    (toInt32 (3600*60*modval*modval)).tdiv (T*T)
  else 3600*100

def zawyExponentialVal360000 (num : Int) : BitVec 64 :=
  let n := num.tdiv ASSETCHAINS_BLOCKTIME.seconds
  let A := if n>0 then cubes n.toNat else 1
  A*BitVec.ofInt 64 (partOf ASSETCHAINS_BLOCKTIME (num.tmod ASSETCHAINS_BLOCKTIME.seconds))

def zawyExponential (bnTarget : BaseUint) (mult : Int) : Except String BaseUint := do
  let bnTarget ← bnTarget.div (ofUint64 (100*3600))
  return bnTarget.mul (ofUint64 (zawyExponentialVal360000 ASSETCHAINS_BLOCKTIME mult))

/-- The test for an overflow, after the fact. -/
def overflowTest (easy origtarget bnTarget : BaseUint) : BaseUint :=
  if bnTarget.compareTo origtarget<0 ∨ bnTarget.compareTo easy>0 then easy else bnTarget

/-- The branch of `GetNextWorkRequired` for `mult > 1`. -/
def expBranch (bnTarget : BaseUint) (mult : Int) : Except String BaseUint := do
  let easy := (BaseUint.setCompact (HUSH_MINDIFF_NBITS &&& ~~~3)).1
  let eased ← zawyExponential ASSETCHAINS_BLOCKTIME bnTarget mult
  return overflowTest easy bnTarget eased

/-- The elapsed times that `hush_adaptivepow_target` compares. -/
structure Times where
  diff : Int
  tipdiff : Int
  diff_lt : diff<2^31
  tipdiff_lt : tipdiff<2^31

/-- The elapsed time that counts. -/
def Times.elapsed (t : Times) : Int :=
  if t.tipdiff>13*ASSETCHAINS_BLOCKTIME.seconds then t.tipdiff else t.diff

/-- The condition for an adjustment. -/
def Times.Adjusts (t : Times) (height : Int) : Prop :=
  t.elapsed ASSETCHAINS_BLOCKTIME≥13*ASSETCHAINS_BLOCKTIME.seconds ∧
    (height<30 ∨ t.tipdiff>2*ASSETCHAINS_BLOCKTIME.seconds)

instance (t : Times) (height : Int) : Decidable (t.Adjusts ASSETCHAINS_BLOCKTIME height) :=
  inferInstanceAs (Decidable (_ ∧ _))

def Times.mult (t : Times) : Int :=
  let T := ASSETCHAINS_BLOCKTIME.seconds
  (t.elapsed ASSETCHAINS_BLOCKTIME-12*T).tdiv T*T+T.tdiv 2

/-- `hush_adaptivepow_target` above a tip; without one the target stays. -/
def hushAdaptivepowTarget (height : Int) (bnTarget : BaseUint) (tip : Option Times) : BaseUint :=
  match tip with
  | some t =>
      if height>10 ∧ t.Adjusts ASSETCHAINS_BLOCKTIME height then
        let mult := BitVec.ofInt 64 (t.mult ASSETCHAINS_BLOCKTIME)
        overflowTest (BaseUint.setCompact HUSH_MINDIFF_NBITS).1 bnTarget
          (bnTarget.mul (ofUint64 (mult*mult)))
      else bnTarget
  | none => bnTarget

end Definitions

section Test

/-- What is asked of an eased target. -/
structure Eased (limit target product eased : Nat) : Prop where
  value : eased=min limit product
  notLower : target≤eased

/-- The product is reached and is not below the target, or it is not below the limit and the test
catches its residue. -/
def Caught (limit target product residue : Nat) : Prop :=
  residue=product ∧ target≤product ∨ (residue<target ∨ limit ≤ residue) ∧ limit≤product

theorem val_overflowTest (easy origtarget bnTarget : BaseUint) :
    (overflowTest easy origtarget bnTarget).val=
      if bnTarget.val<origtarget.val ∨ easy.val<bnTarget.val then easy.val else bnTarget.val := by
  simp only [overflowTest,compareTo_neg bnTarget origtarget,compareTo_pos bnTarget easy]
  split_ifs <;> rfl

theorem eased_iff {limit target product residue : Nat} (h : target≤limit) :
    Eased limit target product (if residue<target ∨ limit < residue then limit else residue) ↔
      Caught limit target product residue := by
  constructor
  · rintro ⟨hvalue,hlower⟩
    unfold Caught
    split_ifs at hvalue hlower with htest
    · have hlimit : limit≤product := by omega
      exact .inr ⟨by omega,hlimit⟩
    · rcases Nat.lt_or_ge product limit with hbelow | habove
      · exact .inl ⟨by omega,by omega⟩
      · exact .inr ⟨by omega,habove⟩
  · rintro (⟨rfl,hlower⟩ | ⟨hcaught,hlimit⟩)
    · split_ifs with htest
      · exact ⟨by omega,h⟩
      · exact ⟨by omega,hlower⟩
    · have hmin : min limit product=limit := Nat.min_eq_left hlimit
      split_ifs with htest
      · exact ⟨hmin.symm,h⟩
      · exact ⟨by omega,by omega⟩

end Test

section Exponential

variable (T : Blocktime) (num : Int)

/-- The factor for an elapsed time over unbounded integers, in parts of 360000. -/
def factor : Nat :=
  let modval := num.tmod T.seconds
  3^(num.tdiv T.seconds).toNat*(3600*100+(3600*110*modval).tdiv T.seconds+
    (3600*60*modval*modval).tdiv (T.seconds*T.seconds)).toNat

/-- The same reduced to 32 bits in the polynomial and to 64 bits in the end. -/
def factorResidue : Nat :=
  (3^(num.tdiv T.seconds).toNat*partOf T (num.tmod T.seconds)%2^64).toNat

/-- No product passes its word: the polynomial stays in 32 bits, the factor in 64 and the target
in 256. -/
structure Unreduced (q : Nat) : Prop where
  polynomial : num.tmod T.seconds<100
  word : factor T num<2^64
  product : q*factor T num<2^256

theorem cubes_eq (n : Nat) : cubes n=BitVec.ofInt 64 (3^n) := by
  induction n with
  | zero => rfl
  | succ n ih =>
    rw [cubes,ih,pow_succ,BitVec.ofInt_mul]
    rfl

theorem zawyExponentialVal360000_toNat (hnum : 0≤num) :
    (zawyExponentialVal360000 T num).toNat=factorResidue T num := by
  have hpos := T.pos
  have hquotient : 0≤num.tdiv T.seconds := Int.tdiv_nonneg hnum (by omega)
  have hcubes : (if num.tdiv T.seconds>0 then cubes (num.tdiv T.seconds).toNat else 1)=
      BitVec.ofInt 64 (3^(num.tdiv T.seconds).toNat) := by
    rw [← cubes_eq]
    split_ifs with h
    · rfl
    · rw [show num.tdiv T.seconds=0 by omega]
      rfl
  unfold zawyExponentialVal360000 factorResidue
  dsimp only
  rw [hcubes,← BitVec.ofInt_mul,BitVec.toNat_ofInt]
  rfl

/-- The target that the branch eases to. -/
theorem expBranch_spec (bnTarget : BaseUint) (hnum : 0≤num) :
    ∃eased,expBranch T bnTarget num=.ok eased ∧
      eased.val=if bnTarget.val/360000*factorResidue T num%2^256<bnTarget.val ∨
          (BaseUint.setCompact (HUSH_MINDIFF_NBITS &&& ~~~3)).1.val<
            bnTarget.val/360000*factorResidue T num%2^256
        then (BaseUint.setCompact (HUSH_MINDIFF_NBITS &&& ~~~3)).1.val
        else bnTarget.val/360000*factorResidue T num%2^256 := by
  have hdivisor : (ofUint64 (100*3600)).val=360000 := val_ofUint64 _
  obtain ⟨q,hq,hqval⟩ := (div_spec bnTarget (ofUint64 (100*3600))).2 (by rw [hdivisor]; decide)
  rw [hdivisor] at hqval
  have hproduct : (q.mul (ofUint64 (zawyExponentialVal360000 T num))).val=
      bnTarget.val/360000*factorResidue T num%2^256 := by
    rw [val_mul,val_ofUint64,zawyExponentialVal360000_toNat T num hnum,hqval]
  refine ⟨overflowTest (BaseUint.setCompact (HUSH_MINDIFF_NBITS &&& ~~~3)).1 bnTarget
    (q.mul (ofUint64 (zawyExponentialVal360000 T num))),?_,?_⟩
  · rw [expBranch,zawyExponential,hq]
    rfl
  · rw [val_overflowTest,hproduct]

/-- For times the division and the remainder are those of the naturals. -/
theorem tmod_bounds (hnum : 0≤num) : 0≤num.tmod T.seconds ∧ num.tmod T.seconds<T.seconds :=
  ⟨Int.tmod_nonneg _ hnum,Int.tmod_lt_of_pos _ (by have := T.pos; omega)⟩

/-- The polynomial over unbounded integers. -/
def exactPart (modval : Int) : Int :=
  3600*100+(3600*110*modval).tdiv T.seconds+
    (3600*60*modval*modval).tdiv (T.seconds*T.seconds)

theorem square_bounds {modval : Int} (h0 : 0≤ modval) (h : modval<T.seconds) :
    0≤3600*60*modval*modval ∧ 3600*60*modval*modval<216000*(T.seconds*T.seconds) := by
  have hsquare : modval*modval<T.seconds*T.seconds := by nlinarith
  constructor
  · positivity
  · rw [mul_assoc]
    omega

theorem toInt32_linear {modval : Int} (h0 : 0≤ modval) (h : modval<T.seconds) :
    toInt32 (3600*110*modval)=3600*110*modval := by
  have hhour := T.le_hour
  exact Int.bmod_eq_of_le (by omega) (by omega)

/-- A remainder below a hundred seconds leaves the polynomial whole. -/
theorem partOf_small {modval : Int} (h0 : 0≤ modval) (h : modval<T.seconds)
    (hsmall : modval<100) : partOf T modval=exactPart T modval := by
  have hsquare : 3600*60*modval*modval≤3600*60*99*99 := by nlinarith
  have hnonneg : 0≤3600*60*modval*modval := (square_bounds T h0 h).1
  have hwhole : toInt32 (3600*60*modval*modval)=3600*60*modval*modval :=
    Int.bmod_eq_of_le (by omega) (by omega)
  unfold partOf exactPart
  dsimp only
  rw [toInt32_linear T h0 h,hwhole]
  split_ifs with hzero
  · rfl
  · rw [not_not.mp hzero]
    simp

/-- From a hundred seconds on the square is reduced, and the polynomial is short by fewer than
twenty bits. -/
theorem partOf_large {modval : Int} (h : modval<T.seconds) (hlarge : 100≤ modval) :
    0<exactPart T modval-partOf T modval ∧ exactPart T modval-partOf T modval<2^19 := by
  have hhour := T.le_hour
  obtain ⟨hnonneg,hlt⟩ := square_bounds T (by omega) h
  have hleast : 3600*60*100*100≤3600*60*modval*modval := by nlinarith
  have hT : 101*101≤T.seconds*T.seconds := by nlinarith
  have hT' : T.seconds*T.seconds≤3600*3600 := by nlinarith
  have hreduced : -2^31≤toInt32 (3600*60*modval*modval) ∧
      toInt32 (3600*60*modval*modval)<2^31 ∧
      toInt32 (3600*60*modval*modval)+2^32≤3600*60*modval*modval := by
    unfold toInt32
    rw [Int.bmod_def]
    split_ifs <;> omega
  obtain ⟨hlow,hhigh,hshort⟩ := hreduced
  unfold partOf exactPart
  dsimp only
  rw [if_pos (by omega),toInt32_linear T (by omega) h]
  generalize toInt32 (3600*60*modval*modval)=reduced at *
  generalize 3600*60*modval*modval=square at *
  generalize T.seconds*T.seconds=squareT at *
  have hpos : 0<squareT := by omega
  have hquotient : square.tdiv squareT=square/squareT := Int.tdiv_eq_ediv_of_nonneg hnonneg
  have hsmall : square/squareT<216000 := Int.ediv_lt_of_lt_mul hpos hlt
  have hle : squareT*(square/squareT)≤ square := Int.mul_ediv_self_le hpos.ne'
  have hgt : square<squareT*(square/squareT)+squareT := Int.lt_mul_ediv_self_add hpos
  rw [hquotient]
  rcases Int.lt_or_le reduced 0 with hneg | hnonneg'
  · have hreduced : reduced.tdiv squareT= -((-reduced)/squareT) := by
      rw [← Int.tdiv_eq_ediv_of_nonneg (by omega),Int.neg_tdiv,neg_neg]
    have hmost : (-reduced)/squareT<2^18 := Int.ediv_lt_of_lt_mul hpos (by omega)
    have hleast' : 0≤(-reduced)/squareT := Int.ediv_nonneg (by omega) hpos.le
    have hquot : 1≤ square/squareT := Int.le_ediv_of_mul_le hpos (by omega)
    rw [hreduced]
    constructor <;> omega
  · have hreduced : reduced.tdiv squareT=reduced/squareT := Int.tdiv_eq_ediv_of_nonneg hnonneg'
    have hleast' : 0≤ reduced/squareT := Int.ediv_nonneg hnonneg' hpos.le
    have hfloor : squareT*(reduced/squareT)≤ reduced := Int.mul_ediv_self_le hpos.ne'
    have hless : reduced/squareT<square/squareT := by
      by_contra hno
      have hmul := mul_le_mul_of_nonneg_left (not_lt.mp hno) hpos.le
      omega
    rw [hreduced]
    constructor <;> omega

theorem exactPart_pos {modval : Int} (h0 : 0≤ modval) : 3600*100≤exactPart T modval := by
  have hpos := T.pos
  have hlinear : 0≤(3600*110*modval).tdiv T.seconds := Int.tdiv_nonneg (by omega) (by omega)
  have hsquare : 0≤(3600*60*modval*modval).tdiv (T.seconds*T.seconds) :=
    Int.tdiv_nonneg (by positivity) (by positivity)
  unfold exactPart
  omega

theorem factor_eq (hnum : 0≤num) : (factor T num : Int)=
    3^(num.tdiv T.seconds).toNat*exactPart T (num.tmod T.seconds) := by
  have hpart := exactPart_pos T (tmod_bounds T num hnum).1
  unfold factor
  dsimp only
  rw [Nat.cast_mul,Nat.cast_pow]
  change (3^_ : Int)*((exactPart T (num.tmod T.seconds)).toNat : Int)=_
  rw [Int.toNat_of_nonneg (by omega)]

theorem factorResidue_eq : (factorResidue T num : Int)=
    3^(num.tdiv T.seconds).toNat*partOf T (num.tmod T.seconds)%2^64 :=
  Int.toNat_of_nonneg (Int.emod_nonneg _ (by decide))

theorem factorResidue_lt : factorResidue T num<2^64 := by
  have h := factorResidue_eq T num
  omega

/-- Where the polynomial is whole the factor is reduced to 64 bits. -/
theorem factorResidue_small (hnum : 0≤num) (hsmall : num.tmod T.seconds<100) :
    factorResidue T num=factor T num%2^64 := by
  obtain ⟨h0,hlt⟩ := tmod_bounds T num hnum
  have hresidue := factorResidue_eq T num
  rw [partOf_small T h0 hlt hsmall,← factor_eq T num hnum] at hresidue
  omega

/-- A multiple of 2^256 whose one factor is short of twenty twos has 238 of them in the other. -/
theorem dvd_of_dvd_mul {q w : Nat} (h : 2^256∣q*w) (hw : ¬2^19∣w) : 2^237∣q := by
  obtain ⟨k,m,hodd,rfl⟩ := Nat.exists_eq_two_pow_mul_odd (n := w) fun hzero =>
    hw (hzero ▸ dvd_zero _)
  have hk : k<19 := by
    by_contra hno
    exact hw ((pow_dvd_pow 2 (not_lt.mp hno)).mul_right m)
  have hcoprime : Nat.Coprime (2^256) m := Nat.Coprime.pow_left 256 (Nat.coprime_two_left.mpr hodd)
  rw [← mul_assoc] at h
  have htwos : 2^237*2^19∣q*2^k := by
    rw [← pow_add]
    exact hcoprime.dvd_of_dvd_mul_right h
  have hmore : 2^237*2^19∣q*2^19 := htwos.trans (Nat.mul_dvd_mul_left q (pow_dvd_pow 2 hk.le))
  exact Nat.dvd_of_mul_dvd_mul_right (by positivity) hmore

/-- A product that is reduced somewhere, and is not above the targets, is not reached. -/
theorem reached_of_reduced {q : Nat} (hnum : 0≤num) (hreduced : ¬Unreduced T num q)
    (hproduct : q*factor T num<2^256) (hq : q<2^237)
    (h : q*factorResidue T num%2^256=q*factor T num) : q=0 := by
  by_contra hne
  obtain ⟨h0,hlt⟩ := tmod_bounds T num hnum
  rcases Int.lt_or_le (num.tmod T.seconds) 100 with hsmall | hlarge
  · have hword : 2^64≤factor T num := by
      by_contra hno
      exact hreduced ⟨hsmall,not_le.mp hno,hproduct⟩
    have hless : factorResidue T num<factor T num := by
      rw [factorResidue_small T num hnum hsmall]
      omega
    have hmul := Nat.mul_lt_mul_of_pos_left hless (Nat.pos_of_ne_zero hne)
    rw [Nat.mod_eq_of_lt (hmul.trans hproduct)] at h
    omega
  · obtain ⟨hshort,hbits⟩ := partOf_large T hlt hlarge
    have hfactor := factor_eq T num hnum
    have hresidue := factorResidue_eq T num
    generalize exactPart T (num.tmod T.seconds)=exact at *
    generalize partOf T (num.tmod T.seconds)=part at *
    generalize (num.tdiv T.seconds).toNat=n at *
    have hturns : (2^256 : Int)∣(q : Int)*((factor T num : Int)-factorResidue T num) := by
      refine ⟨(q*factor T num : Int)/2^256-(q*factorResidue T num : Int)/2^256,?_⟩
      have hcast : ((q*factorResidue T num%2^256 : Nat) : Int)=(q*factor T num : Nat) := by rw [h]
      push_cast at hcast
      have hdiv := Int.emod_add_mul_ediv (q*factorResidue T num : Int) (2^256)
      have hzero : (q*factor T num : Int)/2^256=0 :=
        Int.ediv_eq_zero_of_lt (by positivity) (by exact_mod_cast hproduct)
      rw [hzero,mul_sub]
      omega
    have htwos : ¬2^19∣((factor T num : Int)-factorResidue T num).natAbs := by
      intro hdvd
      have hdvd' : (2^19 : Int)∣(factor T num : Int)-factorResidue T num := by
        rw [← Int.dvd_natAbs]
        exact_mod_cast hdvd
      have hcube : (2^19 : Int)∣3^n*(exact-part) := by
        have hmod : (3^n*part)%2^64=3^n*part-2^64*(3^n*part/2^64) := Int.emod_def _ _
        rw [hfactor,hresidue,hmod] at hdvd'
        have hsum : 3^n*(exact-part)=(3^n*exact-(3^n*part-2^64*(3^n*part/2^64)))-
            2^19*(2^45*(3^n*part/2^64)) := by ring
        rw [hsum]
        exact dvd_sub hdvd' (Dvd.intro _ rfl)
      have hcoprime : Nat.Coprime (2^19) (3^n) := Nat.Coprime.pow 19 n (by decide)
      have hcube' : 2^19∣3^n*(exact-part).natAbs := by
        have habs := Int.natAbs_dvd_natAbs.mpr hcube
        rwa [Int.natAbs_mul,Int.natAbs_pow,Int.natAbs_pow] at habs
      have hle := Nat.le_of_dvd (by omega) (hcoprime.dvd_of_dvd_mul_left hcube')
      omega
    have hturns' : 2^256∣q*((factor T num : Int)-factorResidue T num).natAbs := by
      have habs := Int.natAbs_dvd_natAbs.mpr hturns
      rwa [Int.natAbs_mul,Int.natAbs_pow,Int.natAbs_natCast] at habs
    have hdvd := dvd_of_dvd_mul hturns' htwos
    exact absurd (Nat.le_of_dvd (Nat.pos_of_ne_zero hne) hdvd) (not_le.mpr hq)

end Exponential

section Adaptive

variable (T : Blocktime)

/-- The factor fits into 64 bits. -/
theorem mult_bounds (t : Times) {height : Int} (h : t.Adjusts T height) :
    1≤t.mult T ∧ t.mult T<2^31+1800 := by
  have hpos := T.pos
  have hhour := T.le_hour
  have hdiff := t.diff_lt
  have htipdiff := t.tipdiff_lt
  have helapsed := h.1
  have hlt : t.elapsed T<2^31 := by
    unfold Times.elapsed
    split_ifs
    · exact htipdiff
    · exact hdiff
  have hround : (t.elapsed T-12*T.seconds).tdiv T.seconds*T.seconds≤
      t.elapsed T-12*T.seconds := by
    rw [Int.tdiv_eq_ediv_of_nonneg (by omega)]
    exact Int.ediv_mul_le _ (by omega)
  have hone : T.seconds≤(t.elapsed T-12*T.seconds).tdiv T.seconds*T.seconds := by
    have hquotient : 1≤(t.elapsed T-12*T.seconds).tdiv T.seconds := by
      rw [Int.tdiv_eq_ediv_of_nonneg (by omega)]
      exact Int.le_ediv_of_mul_le (by omega) (by omega)
    have hmul := Int.mul_le_mul_of_nonneg_right hquotient (by omega : 0≤T.seconds)
    rwa [Int.one_mul] at hmul
  have hhalf : T.seconds.tdiv 2=T.seconds/2 := Int.tdiv_eq_ediv_of_nonneg (by omega)
  unfold Times.mult
  dsimp only
  rw [hhalf]
  omega

theorem hushAdaptivepowTarget_val (bnTarget : BaseUint) {t : Times} {height : Int}
    (hheight : height>10) (h : t.Adjusts T height) :
    (hushAdaptivepowTarget T height bnTarget (some t)).val=
      if bnTarget.val*(t.mult T).toNat^2%2^256<bnTarget.val ∨
          (BaseUint.setCompact HUSH_MINDIFF_NBITS).1.val<
            bnTarget.val*(t.mult T).toNat^2%2^256
        then (BaseUint.setCompact HUSH_MINDIFF_NBITS).1.val
        else bnTarget.val*(t.mult T).toNat^2%2^256 := by
  obtain ⟨hone,hlt⟩ := mult_bounds T t h
  have hmult : (BitVec.ofInt 64 (t.mult T)).toNat=(t.mult T).toNat := by
    rw [BitVec.toNat_ofInt,Int.emod_eq_of_lt (by omega) (by omega)]
  have hsquare : (t.mult T).toNat*(t.mult T).toNat<2^64 := by
    have hle : (t.mult T).toNat≤2^31+1800 := by omega
    exact (Nat.mul_le_mul hle hle).trans_lt (by decide)
  rw [hushAdaptivepowTarget,if_pos ⟨hheight,h⟩]
  dsimp only
  rw [val_overflowTest,val_mul,val_ofUint64,BitVec.toNat_mul,hmult,Nat.mod_eq_of_lt hsquare,
    ← Nat.pow_two]

end Adaptive

section Easing

variable (T : Blocktime)

/-- The least difficulty, with and without the two bits of the flag. -/
def minimumDifficulty : Nat := (BaseUint.setCompact HUSH_MINDIFF_NBITS).1.val

def easyTarget : Nat := (BaseUint.setCompact (HUSH_MINDIFF_NBITS &&& ~~~3)).1.val

/-- For which targets and elapsed times a product that is reduced is caught: it is not below the
limit, and its residue is outside of the range that the test lets through. -/
def CaughtReduced (limit target product residue : Nat) : Prop :=
  limit≤product ∧ ¬(target≤ residue ∧ residue<limit)

theorem easyTarget_lt : easyTarget<2^253 := by decide +kernel

theorem expBranch_eased_iff (bnTarget : BaseUint) {num : Int} (htarget : bnTarget.val≤easyTarget)
    (hnum : 0≤num) : (∃eased,expBranch T bnTarget num=.ok eased ∧
        Eased easyTarget bnTarget.val (bnTarget.val/360000*factor T num) eased.val) ↔
      Caught easyTarget bnTarget.val (bnTarget.val/360000*factor T num)
        (bnTarget.val/360000*factorResidue T num%2^256) := by
  obtain ⟨eased,heased,hval⟩ := expBranch_spec T num bnTarget hnum
  rw [← eased_iff htarget]
  constructor
  · rintro ⟨eased',heased',h⟩
    obtain rfl : eased=eased' := Except.ok.inj (heased.symm.trans heased')
    rwa [hval] at h
  · intro h
    refine ⟨eased,heased,?_⟩
    rwa [hval]

/-- A product that no word reduces is reached, and only has to be above the target. -/
theorem caught_of_unreduced {num : Int} {limit target q : Nat} (hnum : 0≤num)
    (htarget : target≤limit) (h : Unreduced T num q) :
    Caught limit target (q*factor T num) (q*factorResidue T num%2^256) ↔
      target≤q*factor T num := by
  have hresidue : q*factorResidue T num%2^256=q*factor T num := by
    rw [factorResidue_small T num hnum h.polynomial,Nat.mod_eq_of_lt h.word,
      Nat.mod_eq_of_lt h.product]
  rw [hresidue]
  unfold Caught
  omega

/-- A product that some word reduces is missed when it is below the limit, unless the target is
zero. -/
theorem caught_of_reduced {num : Int} {target : Nat} (hnum : 0≤num)
    (htarget : target≤easyTarget) (h : ¬Unreduced T num (target/360000)) :
    Caught easyTarget target (target/360000*factor T num)
        (target/360000*factorResidue T num%2^256) ↔
      target=0 ∨ CaughtReduced easyTarget target (target/360000*factor T num)
        (target/360000*factorResidue T num%2^256) := by
  have hlimit := easyTarget_lt
  have hreached := @reached_of_reduced T num (target/360000) hnum h
  have hzero : target/360000=0 → target/360000*factor T num=0 := fun hq => by rw [hq,Nat.zero_mul]
  have hnone : target=0 → target/360000*factorResidue T num%2^256=0 := fun ht => by
    rw [ht,Nat.zero_div,Nat.zero_mul,Nat.zero_mod]
  unfold Caught CaughtReduced
  generalize target/360000*factor T num=product at *
  generalize target/360000*factorResidue T num%2^256=residue at *
  constructor
  · rintro (⟨heq,hle⟩ | ⟨hcaught,hle⟩)
    · rcases Nat.lt_or_ge product easyTarget with hbelow | habove
      · left
        have hq := hreached (by omega) (by omega) heq
        have := hzero hq
        omega
      · exact .inr ⟨habove,by omega⟩
    · exact .inr ⟨hle,by omega⟩
  · rintro (rfl | ⟨hle,houtside⟩)
    · have hproduct := hzero (Nat.zero_div _)
      exact .inl ⟨(hnone rfl).trans hproduct.symm,Nat.zero_le _⟩
    · exact .inr ⟨by omega,hle⟩

/-- The eased target of both functions is the product over unbounded integers up to the limit
where no word reduces the product and it is not below the target; where one does, a product below
the limit is missed, and one above it is caught by the test or not as its residue falls. -/
theorem easing_exact_iff :
    (∀(bnTarget : BaseUint) (num : Int),bnTarget.val≤easyTarget → 1<num →
      ((∃eased,expBranch T bnTarget num=.ok eased ∧
          Eased easyTarget bnTarget.val (bnTarget.val/360000*factor T num) eased.val) ↔
        (Unreduced T num (bnTarget.val/360000) ∧ bnTarget.val≤bnTarget.val/360000*factor T num) ∨
        (¬Unreduced T num (bnTarget.val/360000) ∧ (bnTarget.val=0 ∨
          CaughtReduced easyTarget bnTarget.val (bnTarget.val/360000*factor T num)
            (bnTarget.val/360000*factorResidue T num%2^256))))) ∧
    ∀(bnTarget : BaseUint) (t : Times) (height : Int),bnTarget.val ≤ minimumDifficulty →
      height>10 → t.Adjusts T height →
      (Eased minimumDifficulty bnTarget.val (bnTarget.val*(t.mult T).toNat^2)
          (hushAdaptivepowTarget T height bnTarget (some t)).val ↔
        bnTarget.val*(t.mult T).toNat^2<2^256 ∨
          CaughtReduced minimumDifficulty bnTarget.val (bnTarget.val*(t.mult T).toNat^2)
            (bnTarget.val*(t.mult T).toNat^2%2^256)) := by
  constructor
  · intro bnTarget num htarget hnum
    rw [expBranch_eased_iff T bnTarget htarget (by omega)]
    by_cases hreduced : Unreduced T num (bnTarget.val/360000)
    · rw [caught_of_unreduced T (by omega) htarget hreduced]
      constructor
      · exact fun h => .inl ⟨hreduced,h⟩
      · rintro (⟨-,h⟩ | ⟨hno,-⟩)
        · exact h
        · exact absurd hreduced hno
    · rw [caught_of_reduced T (by omega) htarget hreduced]
      constructor
      · exact fun h => .inr ⟨hreduced,h⟩
      · rintro (⟨hyes,-⟩ | ⟨-,h⟩)
        · exact absurd hyes hreduced
        · exact h
  · intro bnTarget t height htarget hheight hadjusts
    obtain ⟨hone,-⟩ := mult_bounds T t hadjusts
    have hlower : bnTarget.val≤bnTarget.val*(t.mult T).toNat^2 :=
      Nat.le_mul_of_pos_right _ (Nat.pow_pos (by omega))
    have hlimit : minimumDifficulty<2^256 := val_lt _
    rw [hushAdaptivepowTarget_val T bnTarget hheight hadjusts]
    refine (eased_iff htarget).trans ?_
    generalize bnTarget.val*(t.mult T).toNat^2=product at *
    unfold Caught CaughtReduced
    rcases Nat.lt_or_ge product (2^256) with hfits | hwraps
    · rw [Nat.mod_eq_of_lt hfits]
      exact iff_of_true (.inl ⟨rfl,hlower⟩) (.inl hfits)
    · have hmod : product%2^256<2^256 := Nat.mod_lt _ (Nat.two_pow_pos 256)
      constructor
      · rintro (⟨heq,-⟩ | ⟨hcaught,hle⟩)
        · omega
        · exact .inr ⟨hle,by omega⟩
      · rintro (hfits | ⟨hle,houtside⟩)
        · omega
        · exact .inr ⟨by omega,hle⟩

end Easing

def minute : Blocktime := ⟨60,by decide,by decide⟩

/-- After half an hour and seven blocks the factor has more than 64 bits; it is reduced and the
test does not see it. -/
theorem half_hour_wraps : ¬∃eased,
    expBranch minute (uintToArith256 (1#256<<<180)) 1800=.ok eased ∧
      Eased easyTarget (uintToArith256 (1#256<<<180)).val
        ((uintToArith256 (1#256<<<180)).val/360000*factor minute 1800) eased.val := by
  obtain ⟨eased,heased,hval⟩ :=
    expBranch_spec minute 1800 (uintToArith256 (1#256<<<180)) (by decide)
  rintro ⟨eased',heased',h⟩
  obtain rfl : eased=eased' := Except.ok.inj (heased.symm.trans heased')
  have hvalue := h.value
  rw [hval,val_uintToArith256] at hvalue
  revert hvalue
  decide +kernel

def adaptiveTimes : Times := ⟨800,800,by decide,by decide⟩

theorem easing_exact_minute :
    (∃eased,expBranch minute (uintToArith256 (1#256<<<200)) 90=.ok eased ∧
      Eased easyTarget (uintToArith256 (1#256<<<200)).val
        ((uintToArith256 (1#256<<<200)).val/360000*factor minute 90) eased.val) ∧
    Eased minimumDifficulty (uintToArith256 (1#256<<<200)).val
      ((uintToArith256 (1#256<<<200)).val*(adaptiveTimes.mult minute).toNat^2)
      (hushAdaptivepowTarget minute 100 (uintToArith256 (1#256<<<200)) (some adaptiveTimes)).val := by
  obtain ⟨hzawy,hadaptive⟩ := easing_exact_iff minute
  constructor
  · refine (hzawy _ 90 (by decide +kernel) (by decide)).mpr (.inl ⟨⟨by decide,?_,?_⟩,?_⟩)
    all_goals decide +kernel
  · refine (hadaptive _ adaptiveTimes 100 (by decide +kernel) (by decide) (by decide)).mpr ?_
    exact .inl (by decide +kernel)

end Zdeex.Pow.Easing
