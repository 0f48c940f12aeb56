import Zdeex.Pow.BaseUint
import Zdeex.Pow.Compact
import Mathlib.Tactic.NormNum
import Mathlib.Algebra.Order.BigOperators.Group.List

namespace Zdeex.Pow.StakeTarget

open Zdeex.Framework BaseUint

section Definitions

/-- A block of the active chain, with what `hush_segid` finds in it. -/
structure CBlockIndex where
  segid : Int
  hash : BitVec 256

/-- The percentage of staked blocks that is aimed at. -/
structure Goal where
  perc : Int
  pos : 1≤perc
  le_hundred : perc≤100

/-- An `int32_t` product. -/
def toInt32 (x : Int) : Int := x.bmod (2^32)

/-- `arith_uint256` of an `int32_t`. -/
def ofInt32 (x : Int) : BaseUint := ofUint64 (BitVec.ofInt 64 x)

/-- The counters of the loop over the window. -/
structure Counters where
  n : Nat
  m : Nat
  percPoS : Int
  sum : BaseUint

def Counters.init : Counters := ⟨0,0,0,ofUint64 0⟩

def Counters.count (s : Counters) (pindex : CBlockIndex) : Counters :=
  if pindex.segid≥0 then {s with n := s.n+1, percPoS := s.percPoS+1}
  else {s with sum := s.sum.add (uintToArith256 pindex.hash), m := s.m+1}

variable (chainActive : Int → Option CBlockIndex) (ASSETCHAINS_STAKED : Nat)
  (STAKING_MIN_DIFF : BitVec 32)

/-- The blocks of the last hundred heights; the first two blocks of the chain do not count. -/
def window (height : Int) : List CBlockIndex :=
  (List.range 100).filterMap fun (i : Nat) =>
    if height-100+(i : Int)≤1 then none else chainActive (height-100+(i : Int))

def counters (height : Int) : Counters := (window chainActive height).foldl .count .init

/-- A short window is filled up with the goal. -/
def Counters.percent (s : Counters) (goalperc : Int) : Int :=
  if s.m+s.n<100 then (toInt32 (s.percPoS*s.n+goalperc*(100-s.n))).tdiv 100 else s.percPoS

/-- No percentage of zero goes on. -/
def positive (percPoS : Int) : Int := if percPoS=0 then 1 else percPoS

def Counters.average (s : Counters) (target : BaseUint) : Except String BaseUint :=
  if s.m>0 then do
    let ave ← s.sum.div (ofInt32 s.m)
    return if ave.compareTo target>0 then target else ave
  else .ok target

def easydiff : BaseUint := (BaseUint.setCompact STAKING_MIN_DIFF).1

/-- The average of two targets, weighted by the percentages. -/
def between (ave : BaseUint) (percPoS goalperc : Int) : Except String BaseUint :=
  ((ave.mul (ofInt32 goalperc)).add ((easydiff STAKING_MIN_DIFF).mul (ofInt32 percPoS))).div
    (ofInt32 (percPoS+goalperc))

/-- More staked blocks than aimed at: the target rises. -/
def raised (ave : BaseUint) (percPoS goalperc : Int) : Except String BaseUint := do
  let quotient ← ave.div (ofInt32 (toInt32 (goalperc*goalperc)))
  let bnTarget := quotient.mul (ofInt32 (toInt32 (percPoS*percPoS*percPoS)))
  if bnTarget.compareTo (easydiff STAKING_MIN_DIFF)>0 then return easydiff STAKING_MIN_DIFF
  else if bnTarget.compareTo ave<0 then
    let bnTarget ← between STAKING_MIN_DIFF ave percPoS goalperc
    return if bnTarget.compareTo ave<0 then ave else bnTarget
  else return bnTarget

/-- Fewer staked blocks than aimed at: the target falls. -/
def lowered (ave : BaseUint) (percPoS goalperc : Int) : Except String BaseUint := do
  let quotient ← ave.div (ofInt32 (toInt32 (goalperc*goalperc*goalperc*goalperc)))
  return quotient.mul (ofInt32 (toInt32 (percPoS*percPoS)))

def adjusted (ave : BaseUint) (percPoS goalperc : Int) : Except String BaseUint :=
  if percPoS<goalperc then lowered ave percPoS goalperc
  else if percPoS>goalperc then raised STAKING_MIN_DIFF ave percPoS goalperc
  else .ok ave

/-- The first blocks keep the target. -/
def Early (height : Int) : Prop := height≤10 ∨ ASSETCHAINS_STAKED=100 ∧ height≤100

instance (height : Int) : Decidable (Early ASSETCHAINS_STAKED height) :=
  inferInstanceAs (Decidable (_ ∨ _))

/-- The new target with the percentage of staked blocks that is handed out. -/
def hushPoWtarget (target : BaseUint) (height : Int) (goal : Goal) :
    Except String (BaseUint × Int) :=
  if Early ASSETCHAINS_STAKED height then .ok (target,0)
  else do
    let s := counters chainActive height
    let percPoS := s.percent goal.perc
    let ave ← s.average target
    let bnTarget ← adjusted STAKING_MIN_DIFF ave (positive percPoS) goal.perc
    return (bnTarget,percPoS)

/-- The hashes of the window's blocks that are not staked. -/
def workHashes (height : Int) : List Nat :=
  ((window chainActive height).filter fun pindex => pindex.segid<0).map fun pindex =>
    pindex.hash.toNat

/-- The average over unbounded integers, at most the target. -/
def exactAverage (height : Int) (target : Nat) : Nat :=
  if workHashes chainActive height=[] then target
  else min target ((workHashes chainActive height).sum/(workHashes chainActive height).length)

/-- The products of percentages that are formed in 32 bits. -/
def percentProducts (n : Nat) (percPoS goalperc : Int) : List Int :=
  [n*n,goalperc*(100-n),n*n+goalperc*(100-n),percPoS*percPoS,percPoS*percPoS*percPoS,
    goalperc*goalperc,goalperc*goalperc*goalperc,goalperc*goalperc*goalperc*goalperc]

/-- What is asked of the new target. -/
structure Sane (height : Int) (target : BaseUint) (goal : Goal) (ave bnTarget : BaseUint)
    (percPoS : Int) : Prop where
  sum : (counters chainActive height).sum.val=(workHashes chainActive height).sum
  average : ave.val=exactAverage chainActive height target.val
  below : percPoS<goal.perc → bnTarget.val≤ave.val
  equal : percPoS=goal.perc → bnTarget.val=ave.val
  above : percPoS>goal.perc →
    min ave.val (easydiff STAKING_MIN_DIFF).val≤bnTarget.val ∧
      bnTarget.val ≤ max ave.val (easydiff STAKING_MIN_DIFF).val
  products : ∀product ∈ percentProducts (counters chainActive height).n (positive percPoS)
    goal.perc,toInt32 product=product

end Definitions

section Window

variable (chainActive : Int → Option CBlockIndex) (height : Int)

/-- What the loop has counted after some blocks. -/
theorem counters_foldl (w : List CBlockIndex) (s : Counters) :
    (w.foldl .count s).m=s.m+(w.filter fun pindex => pindex.segid<0).length ∧
      (w.foldl .count s).n+(w.foldl .count s).m=s.n+s.m+w.length ∧
      (w.foldl .count s).percPoS=s.percPoS+(w.foldl .count s).n-s.n ∧
      (w.foldl .count s).sum.val=(s.sum.val+((w.filter fun pindex =>
        pindex.segid<0).map fun pindex => pindex.hash.toNat).sum)%2^256 := by
  induction w generalizing s with
  | nil =>
    refine ⟨rfl,rfl,?_,?_⟩
    · simp only [List.foldl_nil]
      omega
    · exact (Nat.mod_eq_of_lt (val_lt s.sum)).symm
  | cons pindex w ih =>
    obtain ⟨hm,hnm,hperc,hsum⟩ := ih (s.count pindex)
    rw [List.foldl_cons,hsum,hnm,hperc,hm]
    by_cases hstaked : pindex.segid≥0
    · have hnot : ¬pindex.segid<0 := by omega
      have hcount : s.count pindex={s with n := s.n+1, percPoS := s.percPoS+1} :=
        if_pos hstaked
      rw [hcount,List.filter_cons_of_neg (by simpa using hnot)]
      refine ⟨rfl,?_,?_,rfl⟩
      · simp only [List.length_cons]
        omega
      · simp only
        omega
    · have hwork : pindex.segid<0 := by omega
      have hcount : s.count pindex=
          {s with sum := s.sum.add (uintToArith256 pindex.hash), m := s.m+1} := if_neg hstaked
      rw [hcount,List.filter_cons_of_pos (by simpa using hwork)]
      refine ⟨?_,?_,rfl,?_⟩
      · simp only [List.length_cons]
        omega
      · simp only [List.length_cons]
        omega
      · simp only [val_add,val_uintToArith256,List.map_cons,List.sum_cons]
        rw [Nat.mod_add_mod,Nat.add_assoc]

theorem counters_m : (counters chainActive height).m=(workHashes chainActive height).length := by
  have h := (counters_foldl (window chainActive height) .init).1
  rw [workHashes,List.length_map]
  exact h.trans (Nat.zero_add _)

theorem counters_percPoS :
    (counters chainActive height).percPoS=(counters chainActive height).n := by
  obtain ⟨-,-,h,-⟩ := counters_foldl (window chainActive height) .init
  have hinit : Counters.init.percPoS=0 ∧ Counters.init.n=0 := ⟨rfl,rfl⟩
  unfold counters
  omega

theorem counters_le :
    (counters chainActive height).n+(counters chainActive height).m≤100 := by
  obtain ⟨-,h,-,-⟩ := counters_foldl (window chainActive height) .init
  have hwindow : (window chainActive height).length≤100 := by
    have hfilter := List.length_filterMap_le (fun (i : Nat) =>
      if height-100+(i : Int)≤1 then none else chainActive (height-100+(i : Int))) (List.range 100)
    rwa [List.length_range] at hfilter
  have hinit : Counters.init.n=0 ∧ Counters.init.m=0 := ⟨rfl,rfl⟩
  unfold counters
  omega

theorem counters_sum : (counters chainActive height).sum.val=
    (workHashes chainActive height).sum%2^256 := by
  obtain ⟨-,-,-,h⟩ := counters_foldl (window chainActive height) .init
  have hzero : Counters.init.sum.val=0 := val_ofUint64 0
  rw [hzero,Nat.zero_add] at h
  exact h

end Window

section Percentages

theorem toInt32_of_small {x : Int} (h0 : 0≤x) (h : x≤100000000) : toInt32 x=x := by
  unfold toInt32
  rw [Int.bmod_eq_of_le] <;> omega

/-- Products of percentages grow by a factor of a hundred at most. -/
theorem percent_mul {x y b : Int} (h0 : 0≤x) (hx : x≤b) (hy0 : 0≤y) (hy : y≤100) :
    0≤x*y ∧ x*y≤b*100 :=
  ⟨Int.mul_nonneg h0 hy0,Int.mul_le_mul hx hy hy0 (h0.trans hx)⟩

/-- The products of percentages fit into 32 bits. -/
theorem percentProducts_small {n : Nat} {percPoS goalperc : Int} (hn : n≤100)
    (hp0 : 0≤percPoS) (hp : percPoS≤100) (hg0 : 0≤goalperc) (hg : goalperc≤100) :
    ∀product ∈ percentProducts n percPoS goalperc,toInt32 product=product := by
  obtain ⟨hnn0,hnn⟩ := percent_mul (Int.natCast_nonneg n) (b := 100) (by omega)
    (Int.natCast_nonneg n) (by omega)
  obtain ⟨hgn0,hgn⟩ := percent_mul hg0 hg (y := 100-n) (by omega) (by omega)
  obtain ⟨hpp0,hpp⟩ := percent_mul hp0 hp hp0 hp
  obtain ⟨hppp0,hppp⟩ := percent_mul hpp0 hpp hp0 hp
  obtain ⟨hgg0,hgg⟩ := percent_mul hg0 hg hg0 hg
  obtain ⟨hggg0,hggg⟩ := percent_mul hgg0 hgg hg0 hg
  obtain ⟨hgggg0,hgggg⟩ := percent_mul hggg0 hggg hg0 hg
  intro product hproduct
  simp only [percentProducts,List.mem_cons,List.not_mem_nil,or_false] at hproduct
  apply toInt32_of_small <;> rcases hproduct with rfl | rfl | rfl | rfl | rfl | rfl | rfl | rfl <;>
    omega

/-- The percentage stands between zero and a hundred. -/
theorem percent_bounds {s : Counters} (goal : Goal) (hperc : s.percPoS=s.n) (hn : s.n+s.m≤100) :
    0 ≤ s.percent goal.perc ∧ s.percent goal.perc≤100 := by
  have hpos := goal.pos
  have hhundred := goal.le_hundred
  obtain ⟨hnn0,hnn⟩ := percent_mul (Int.natCast_nonneg s.n) (le_refl (s.n : Int))
    (Int.natCast_nonneg s.n) (by omega)
  obtain ⟨hgn0,hgn⟩ := percent_mul (x := 100-(s.n : Int)) (by omega) (le_refl _)
    (by omega : 0≤goal.perc) hhundred
  have hcomm := Int.mul_comm goal.perc (100-s.n)
  unfold Counters.percent
  split_ifs with hshort
  · rw [hperc,toInt32_of_small (by omega) (by omega),
      Int.tdiv_eq_ediv_of_nonneg (by omega)]
    omega
  · omega

theorem positive_bounds {percPoS : Int} (h0 : 0≤percPoS) (h : percPoS≤100) :
    1≤positive percPoS ∧ positive percPoS≤100 := by
  unfold positive
  split_ifs <;> omega

end Percentages

section Targets

variable (STAKING_MIN_DIFF : BitVec 32)

theorem val_ofInt32 {x : Int} (h0 : 0≤x) (h : x≤100000000) : (ofInt32 x).val=x.toNat := by
  rw [ofInt32,val_ofUint64,BitVec.toNat_ofInt,Int.emod_eq_of_lt (by omega) (by omega)]

/-- Division by a small positive number does not throw. -/
theorem div_ofInt32 (a : BaseUint) {x : Int} (h0 : 1≤x) (h : x≤100000000) :
    ∃q,a.div (ofInt32 x)=.ok q ∧ q.val=a.val/x.toNat := by
  have hval := val_ofInt32 (by omega : 0≤x) h
  obtain ⟨q,hq,hqval⟩ := (div_spec a (ofInt32 x)).2 (by omega)
  exact ⟨q,hq,by rw [hqval,hval]⟩

theorem average_spec {s : Counters} (target : BaseUint) (hm : s.m≤100) :
    ∃ave,s.average target=.ok ave ∧
      ave.val=if s.m=0 then target.val else min target.val (s.sum.val/s.m) := by
  unfold Counters.average
  split_ifs with hpos hzero
  · omega
  · obtain ⟨ave,have_eq,hval⟩ :=
      div_ofInt32 s.sum (by omega : 1≤(s.m : Int)) (by omega : (s.m : Int)≤100000000)
    rw [Int.toNat_natCast] at hval
    refine ⟨_,by rw [have_eq]; rfl,?_⟩
    by_cases hcap : ave.compareTo target>0
    · rw [if_pos hcap]
      have hlt := (compareTo_pos ave target).mp hcap
      omega
    · rw [if_neg hcap]
      have hle := mt (compareTo_pos ave target).mpr hcap
      omega
  · exact ⟨target,rfl,rfl⟩
  · omega

/-- The weighted average of two numbers is at most the larger one, wrapped or not. -/
theorem between_spec (ave : BaseUint) {percPoS goalperc : Int} (hp0 : 1≤percPoS)
    (hp : percPoS≤100) (hg0 : 1≤goalperc) (hg : goalperc≤100) :
    ∃r,between STAKING_MIN_DIFF ave percPoS goalperc=.ok r ∧
      r.val ≤ max ave.val (easydiff STAKING_MIN_DIFF).val := by
  obtain ⟨r,hr,hval⟩ := div_ofInt32 ((ave.mul (ofInt32 goalperc)).add
    ((easydiff STAKING_MIN_DIFF).mul (ofInt32 percPoS))) (by omega : 1≤percPoS+goalperc) (by omega)
  refine ⟨r,hr,?_⟩
  rw [hval,val_add,val_mul,val_mul,val_ofInt32 (by omega) (by omega),
    val_ofInt32 (by omega) (by omega)]
  generalize (easydiff STAKING_MIN_DIFF).val=easy
  obtain ⟨p,rfl⟩ := Int.eq_ofNat_of_zero_le (by omega : 0≤percPoS)
  obtain ⟨g,rfl⟩ := Int.eq_ofNat_of_zero_le (by omega : 0≤goalperc)
  have hsum : ((p : Int)+(g : Int)).toNat=p+g := by omega
  rw [hsum,Int.toNat_natCast,Int.toNat_natCast]
  have hleft := Nat.mod_le (ave.val*g) (2^256)
  have hright := Nat.mod_le (easy*p) (2^256)
  have hall := Nat.mod_le (ave.val*g%2^256+easy*p%2^256) (2^256)
  have hmax : ave.val*g+easy*p ≤ max ave.val easy*(p+g) := by
    have hg := Nat.mul_le_mul_right g (Nat.le_max_left ave.val easy)
    have hp := Nat.mul_le_mul_right p (Nat.le_max_right ave.val easy)
    rw [Nat.mul_add]
    omega
  apply Nat.div_le_of_le_mul
  rw [Nat.mul_comm (p+g)]
  omega

/-- A quotient by a number that is multiplied by at most this number. -/
theorem quotient_mul_le (a : Nat) {x y : Nat} (h : x≤y) : a/y*x≤a :=
  (Nat.mul_le_mul_left _ h).trans (Nat.div_mul_le_self a y)

theorem lowered_spec (ave : BaseUint) {percPoS goalperc : Int} (hp0 : 1≤percPoS)
    (hbelow : percPoS<goalperc) (hg : goalperc≤100) :
    ∃r,lowered ave percPoS goalperc=.ok r ∧ r.val≤ave.val := by
  have hproducts := percentProducts_small (n := 0) (by decide) (by omega : 0≤percPoS)
    (by omega) (by omega : 0≤goalperc) hg
  have hfourth : toInt32 (goalperc*goalperc*goalperc*goalperc)=
      goalperc*goalperc*goalperc*goalperc := hproducts _ (by simp [percentProducts])
  have hsquare : toInt32 (percPoS*percPoS)=percPoS*percPoS :=
    hproducts _ (by simp [percentProducts])
  obtain ⟨p,rfl⟩ := Int.eq_ofNat_of_zero_le (by omega : 0≤percPoS)
  obtain ⟨g,rfl⟩ := Int.eq_ofNat_of_zero_le (by omega : 0≤goalperc)
  have hp : p≤100 := by omega
  have hg' : g≤100 := by omega
  have hg0 : 1≤g := by omega
  have hgg : g*g≤10000 := Nat.mul_le_mul hg' hg'
  have hggg : g*g*g≤1000000 := Nat.mul_le_mul hgg hg'
  have hgggg : g*g*g*g≤100000000 := Nat.mul_le_mul hggg hg'
  have hpp : p*p≤10000 := Nat.mul_le_mul hp hp
  have hgggg0 : 1≤g*g*g*g :=
    Nat.mul_pos (Nat.mul_pos (Nat.mul_pos hg0 hg0) hg0) hg0
  have hle : p*p≤g*g*g*g := by
    have hlt : p≤g := by omega
    calc p*p≤g*g := Nat.mul_le_mul hlt hlt
      _≤g*g*(g*g) := Nat.le_mul_of_pos_right _ (Nat.mul_pos hg0 hg0)
      _=g*g*g*g := (Nat.mul_assoc _ _ _).symm
  have hcast : (g : Int)*g*g*g=((g*g*g*g : Nat) : Int) := by push_cast; rfl
  have hcast' : (p : Int)*p=((p*p : Nat) : Int) := by push_cast; rfl
  obtain ⟨q,hq,hqval⟩ := div_ofInt32 ave (by omega : 1≤(g : Int)*g*g*g) (by omega)
  refine ⟨q.mul (ofInt32 ((p : Int)*p)),?_,?_⟩
  · rw [lowered,hfourth,hsquare,hq]
    rfl
  · have hto : ((g : Int)*g*g*g).toNat=g*g*g*g := by omega
    have hto' : ((p : Int)*p).toNat=p*p := by omega
    rw [val_mul,hqval,val_ofInt32 (by omega) (by omega),hto,hto']
    exact (Nat.mod_le _ _).trans (quotient_mul_le ave.val hle)

theorem raised_spec (ave : BaseUint) {percPoS goalperc : Int} (hp : percPoS≤100)
    (habove : percPoS>goalperc) (hg0 : 1≤goalperc) :
    ∃r,raised STAKING_MIN_DIFF ave percPoS goalperc=.ok r ∧
      min ave.val (easydiff STAKING_MIN_DIFF).val ≤ r.val ∧
      r.val ≤ max ave.val (easydiff STAKING_MIN_DIFF).val := by
  have hsquare : toInt32 (goalperc*goalperc)=goalperc*goalperc :=
    percentProducts_small (n := 0) (by decide) (by omega : 0≤percPoS) hp (by omega : 0≤goalperc)
      (by omega) _ (by simp [percentProducts])
  obtain ⟨hgg0,hgg⟩ := percent_mul (by omega : 0≤goalperc) (by omega : goalperc≤100)
    (by omega : 0≤goalperc) (by omega)
  have hgg1 : 1≤goalperc*goalperc := Int.mul_pos (by omega) (by omega)
  obtain ⟨q,hq,-⟩ := div_ofInt32 ave hgg1 (by omega)
  obtain ⟨r,hr,hrle⟩ := between_spec STAKING_MIN_DIFF ave (by omega : 1≤percPoS) hp hg0 (by omega)
  rw [raised,hsquare,hq]
  dsimp only [bind,Except.bind]
  split_ifs with heasy hlow
  · exact ⟨_,rfl,Nat.min_le_right _ _,Nat.le_max_right _ _⟩
  · rw [hr]
    dsimp only
    split_ifs with hless
    · exact ⟨_,rfl,Nat.min_le_left _ _,Nat.le_max_left _ _⟩
    · have hge := mt (compareTo_neg r ave).mpr hless
      exact ⟨_,rfl,by omega,hrle⟩
  · have hle := mt (compareTo_pos _ _).mpr heasy
    have hge := mt (compareTo_neg _ _).mpr hlow
    exact ⟨_,rfl,by omega,by omega⟩

/-- The adjusted target against the average. -/
theorem adjusted_spec (ave : BaseUint) {percPoS : Int} (goal : Goal) (hp0 : 1≤percPoS)
    (hp : percPoS≤100) :
    ∃r,adjusted STAKING_MIN_DIFF ave percPoS goal.perc=.ok r ∧
      (percPoS<goal.perc → r.val≤ave.val) ∧ (percPoS=goal.perc → r.val=ave.val) ∧
      (percPoS>goal.perc → min ave.val (easydiff STAKING_MIN_DIFF).val ≤ r.val ∧
        r.val ≤ max ave.val (easydiff STAKING_MIN_DIFF).val) := by
  have hpos := goal.pos
  have hhundred := goal.le_hundred
  unfold adjusted
  split_ifs with hbelow habove
  · obtain ⟨r,hr,hle⟩ := lowered_spec ave hp0 hbelow hhundred
    exact ⟨r,hr,fun _ => hle,fun h => by omega,fun h => by omega⟩
  · obtain ⟨r,hr,hbounds⟩ := raised_spec STAKING_MIN_DIFF ave hp habove hpos
    exact ⟨r,hr,fun h => by omega,fun h => by omega,fun _ => hbounds⟩
  · exact ⟨ave,rfl,fun _ => Nat.le_refl _,fun _ => rfl,fun h => absurd h habove⟩

end Targets

section Balance

variable (chainActive : Int → Option CBlockIndex) (ASSETCHAINS_STAKED : Nat)
  (STAKING_MIN_DIFF : BitVec 32)

/-- The new target of a height after the first ones. -/
theorem hushPoWtarget_spec (target : BaseUint) {height : Int} (goal : Goal)
    (h : ¬Early ASSETCHAINS_STAKED height) :
    ∃ave bnTarget,(counters chainActive height).average target=.ok ave ∧
      hushPoWtarget chainActive ASSETCHAINS_STAKED STAKING_MIN_DIFF target height goal=
        .ok (bnTarget,(counters chainActive height).percent goal.perc) ∧
      (ave.val=exactAverage chainActive height target.val →
        (counters chainActive height).sum.val=(workHashes chainActive height).sum →
        Sane chainActive STAKING_MIN_DIFF height target goal ave bnTarget
          ((counters chainActive height).percent goal.perc)) := by
  have hpos := goal.pos
  have hhundred := goal.le_hundred
  have hcount := counters_le chainActive height
  obtain ⟨hp0,hp⟩ := percent_bounds goal (counters_percPoS chainActive height) hcount
  obtain ⟨hpos0,hpos100⟩ := positive_bounds hp0 hp
  obtain ⟨ave,have_eq,-⟩ :=
    average_spec target (by omega : (counters chainActive height).m≤100)
  obtain ⟨bnTarget,hadjusted,hbelow,hequal,habove⟩ :=
    adjusted_spec STAKING_MIN_DIFF ave goal hpos0 hpos100
  refine ⟨ave,bnTarget,have_eq,?_,fun haverage hsum => ⟨hsum,haverage,?_,?_,?_,?_⟩⟩
  · rw [hushPoWtarget,if_neg h]
    dsimp only [bind,Except.bind]
    rw [have_eq]
    dsimp only
    rw [hadjusted]
    rfl
  · intro hlow
    by_cases hone : positive ((counters chainActive height).percent goal.perc)<goal.perc
    · exact hbelow hone
    · refine (hequal ?_).le
      revert hone
      unfold positive
      split_ifs <;> omega
  · intro heq
    apply hequal
    rw [positive,if_neg (by omega)]
    exact heq
  · intro hhigh
    apply habove
    rw [positive,if_neg (by omega)]
    exact hhigh
  · exact percentProducts_small (by omega) (by omega) hpos100 (by omega) hhundred

/-- After the first heights the new target is sane exactly when the hashes of the window's work
blocks add up to less than 2^256. -/
theorem staking_target_sane_iff (target : BaseUint) (height : Int) (goal : Goal)
    (h : ¬Early ASSETCHAINS_STAKED height) :
    (∃ave bnTarget percPoS,(counters chainActive height).average target=.ok ave ∧
        hushPoWtarget chainActive ASSETCHAINS_STAKED STAKING_MIN_DIFF target height goal=
          .ok (bnTarget,percPoS) ∧
        Sane chainActive STAKING_MIN_DIFF height target goal ave bnTarget percPoS) ↔
      (workHashes chainActive height).sum<2^256 := by
  constructor
  · rintro ⟨ave,bnTarget,percPoS,-,-,hsane⟩
    rw [← hsane.sum]
    exact val_lt _
  · intro hfits
    obtain ⟨ave,bnTarget,have_eq,hresult,hsane⟩ := hushPoWtarget_spec chainActive
      ASSETCHAINS_STAKED STAKING_MIN_DIFF target goal h
    have hsum : (counters chainActive height).sum.val=(workHashes chainActive height).sum := by
      rw [counters_sum,Nat.mod_eq_of_lt hfits]
    have hcount := counters_le chainActive height
    obtain ⟨ave',have_eq',haverage⟩ :=
      average_spec target (by omega : (counters chainActive height).m≤100)
    obtain rfl : ave=ave' := Except.ok.inj (have_eq.symm.trans have_eq')
    refine ⟨ave,bnTarget,_,have_eq,hresult,hsane ?_ hsum⟩
    rw [haverage,hsum,counters_m,exactAverage]
    simp only [List.length_eq_zero_iff]

/-- Few work blocks cannot make the sum wrap. -/
theorem few_work_blocks {height : Int} (limit : Nat)
    (hlimit : ∀hash ∈ workHashes chainActive height,hash≤limit)
    (hfew : (workHashes chainActive height).length*limit<2^256) :
    (workHashes chainActive height).sum<2^256 := by
  have hle : (workHashes chainActive height).sum≤(workHashes chainActive height).length*limit :=
    List.sum_le_card_nsmul _ limit hlimit
  exact hle.trans_lt hfew

end Balance

section Chains

/-- The proof-of-work limit of the main network. -/
def powLimit : BitVec 256 :=
  0x0f0f0f0f0f0f0f0f0f0f0f0f0f0f0f0f0f0f0f0f0f0f0f0f0f0f0f0f0f0f0f0f

/-- A chain of blocks at the limit, all of them mined. -/
def easyChain : Int → Option CBlockIndex := fun _ => some ⟨-1,powLimit⟩

/-- A chain in which every tenth block is mined. -/
def stakedChain : Int → Option CBlockIndex :=
  fun height => some ⟨if height%10=0 then -1 else 5,powLimit⟩

def half : Goal := ⟨50,by decide,by decide⟩

theorem workHashes_easyChain : workHashes easyChain 200=List.replicate 100 powLimit.toNat := by
  decide +kernel

/-- A hundred hashes at the limit add up to more than 256 bits hold. -/
theorem easy_window_wraps : (∀hash ∈ workHashes easyChain 200,hash≤powLimit.toNat) ∧
    ¬∃ave bnTarget percPoS,(counters easyChain 200).average (uintToArith256 powLimit)=.ok ave ∧
      hushPoWtarget easyChain 50 0x200f0f0f (uintToArith256 powLimit) 200 half=
        .ok (bnTarget,percPoS) ∧
      Sane easyChain 0x200f0f0f 200 (uintToArith256 powLimit) half ave bnTarget percPoS := by
  constructor
  · rw [workHashes_easyChain]
    intro hash hhash
    exact (List.eq_of_mem_replicate hhash).le
  · rintro ⟨ave,bnTarget,percPoS,-,-,hsane⟩
    have hsum := hsane.sum
    have hlt := val_lt (counters easyChain 200).sum
    rw [hsum,workHashes_easyChain] at hlt
    revert hlt
    decide +kernel

theorem staking_target_sane_half :
    ∃ave bnTarget percPoS,(counters stakedChain 200).average (uintToArith256 powLimit)=.ok ave ∧
      hushPoWtarget stakedChain 50 0x200f0f0f (uintToArith256 powLimit) 200 half=
        .ok (bnTarget,percPoS) ∧
      Sane stakedChain 0x200f0f0f 200 (uintToArith256 powLimit) half ave bnTarget percPoS := by
  have hwork : workHashes stakedChain 200=List.replicate 10 powLimit.toNat := by decide +kernel
  apply (staking_target_sane_iff stakedChain 50 0x200f0f0f (uintToArith256 powLimit) 200 half
    (by decide)).mpr
  apply few_work_blocks stakedChain powLimit.toNat
  · rw [hwork]
    intro hash hhash
    exact (List.eq_of_mem_replicate hhash).le
  · rw [hwork]
    decide +kernel

end Chains

end Zdeex.Pow.StakeTarget
