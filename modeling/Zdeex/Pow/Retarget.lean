import Mathlib.Data.List.Induction
import Zdeex.Pow.Compact

namespace Zdeex.Pow.Retarget

open Zdeex.Framework Floating BaseUint

section Definitions

inductive Network
  | main
  | test
  | regtest
  deriving DecidableEq

/-- What `Consensus::Params` holds of the retargeting. -/
structure Params where
  powLimit : BitVec 256
  powAlternate : BitVec 256
  nPowAveragingWindow : Nat
  nPowMaxAdjustDown : Int
  nPowMaxAdjustUp : Int
  nPowTargetSpacing : Int

namespace Params

variable (p : Params)

def averagingWindowTimespan : Int := p.nPowAveragingWindow*p.nPowTargetSpacing

def minActualTimespan : Int := (p.averagingWindowTimespan*(100-p.nPowMaxAdjustUp)).tdiv 100

def maxActualTimespan : Int := (p.averagingWindowTimespan*(100+p.nPowMaxAdjustDown)).tdiv 100

end Params

/-- The limit of `CMainParams` and of `CRegTestParams`. -/
def fifteens : BitVec 256 := 0x0f0f0f0f0f0f0f0f0f0f0f0f0f0f0f0f0f0f0f0f0f0f0f0f0f0f0f0f0f0f0f0f

/-- The limit of `CTestNetParams`. -/
def sevenAndOnes : BitVec 256 := 0x07ffffffffffffffffffffffffffffffffffffffffffffffffffffffffffffff

def Network.params (nPowTargetSpacing : Int) : Network → Params
  | .main => ⟨fifteens,fifteens,17,32,16,nPowTargetSpacing⟩
  | .test => ⟨sevenAndOnes,sevenAndOnes,17,32,16,nPowTargetSpacing⟩
  | .regtest => ⟨fifteens,fifteens,17,0,0,nPowTargetSpacing⟩

/-- A chain without adaptive proof of work; the spacing is the one of the network or was set
by `chainparams_commandline` or `hush_changeblocktime`. -/
structure Chain where
  SMART_CHAIN_SYMBOL : List Char
  network : Network
  nPowTargetSpacing : Int
  equihash : Bool
  ASSETCHAINS_ADAPTIVEPOW : Int
  spacing : nPowTargetSpacing=60 ∨ nPowTargetSpacing=75 ∨ nPowTargetSpacing=150
  fixed : ASSETCHAINS_ADAPTIVEPOW≤0

/-- `AveragingWindowTimespan` of `pow.cpp`. -/
def averagingWindowTimespan : Int := 1275

namespace Chain

variable (c : Chain)

def params : Params := c.network.params c.nPowTargetSpacing

/-- The first five characters are compared. -/
def ishush3 : Prop := c.SMART_CHAIN_SYMBOL.take 5=['H','U','S','H','3']

instance : Decidable c.ishush3 := inferInstanceAs (Decidable (_=_))

def AWT : Int :=
  if c.ishush3 then averagingWindowTimespan else c.params.averagingWindowTimespan

def bnLimit : BaseUint :=
  uintToArith256 (if c.equihash then c.params.powLimit else c.params.powAlternate)

/-- The timespan after the damping and the bounds. -/
def actualTimespan (nLastBlockTime nFirstBlockTime : BitVec 32) : Int :=
  let nActualTimespan := (nLastBlockTime.toNat : Int)-nFirstBlockTime.toNat
  let nActualTimespan := c.AWT+(nActualTimespan-c.AWT).tdiv 4
  if c.ASSETCHAINS_ADAPTIVEPOW≤0 then
    let nActualTimespan := if nActualTimespan<c.params.minActualTimespan then
      c.params.minActualTimespan else nActualTimespan
    if nActualTimespan > c.params.maxActualTimespan then c.params.maxActualTimespan
    else nActualTimespan
  else nActualTimespan

/-- `GetCompact` with its assertions. -/
def compactOf (bn : BaseUint) : Except String (BitVec 32) :=
  match bn.getCompact false with
  | some nCompact => .ok nCompact
  | none => .error "assertion failed"

/-- `CalculateNextWorkRequired`; the factor is converted to 32 bits. -/
def calculateNextWorkRequired (bnAvg : BaseUint) (nLastBlockTime nFirstBlockTime : BitVec 32) :
    Except String (BitVec 32) := do
  let bnNew ← bnAvg.div (ofUint64 (BitVec.ofInt 64 c.AWT))
  let bnNew := bnNew.mulWord (BitVec.ofInt 32 (c.actualTimespan nLastBlockTime nFirstBlockTime))
  compactOf (if bnNew.compareTo c.bnLimit>0 then c.bnLimit else bnNew)

/-- What `GetNextWorkRequired` reads of a block. -/
structure CBlockIndex where
  nBits : BitVec 32
  medianTimePast : BitVec 32

/-- The sum of the targets of the window. -/
def bnTot (window : List CBlockIndex) : BaseUint :=
  window.foldl (fun bnTot block => bnTot.add (BaseUint.setCompact block.nBits).1) (ofUint64 0)

/-- `GetNextWorkRequired`, with the blocks before the last one, latest first. -/
def getNextWorkRequired (pindexLast : CBlockIndex) (before : List CBlockIndex) :
    Except String (BitVec 32) :=
  let window := c.params.nPowAveragingWindow
  match (pindexLast::before)[window]? with
  | some pindexFirst => do
      let bnAvg ← (bnTot ((pindexLast::before).take window)).div
        (ofUint64 (BitVec.ofNat 64 window))
      c.calculateNextWorkRequired bnAvg pindexLast.medianTimePast pindexFirst.medianTimePast
  | none => compactOf c.bnLimit

end Chain

end Definitions

section Rounding

/-- The compact form keeps fifteen bits at least. -/
theorem compactOf_spec (x : BaseUint) : ∃nCompact,Chain.compactOf x=.ok nCompact ∧
    (BaseUint.setCompact nCompact).1.val≤x.val ∧
      (2^15-1)*x.val≤2^15*(BaseUint.setCompact nCompact).1.val := by
  obtain ⟨c,hc,-⟩ := getCompact_spec x
  obtain ⟨-,-,hnormal,-,hval⟩ := setCompact_of_getCompact hc
  obtain ⟨hle,hlt⟩ :=
    decode_mantissa_le (b := 256) (k := 3) (n := compactSize c) (v := x.val) (by decide)
  rw [← hval] at hle hlt
  refine ⟨c,by rw [Chain.compactOf,hc],hle,?_⟩
  rcases Nat.lt_or_ge (compactSize c) 4 with hsmall | hlarge
  · rw [show compactSize c-3=0 by omega,pow_zero] at hlt
    omega
  · have hne : x.val≠0 := fun hzero => by
      have := hnormal.zero hzero
      omega
    have hleast := hnormal.least hne
    have hpow : 256^(compactSize c-1)=256^(compactSize c-3)*2^16 := by
      rw [show compactSize c-1=compactSize c-3+2 by omega,pow_add]
      rfl
    rw [hpow] at hleast
    omega

end Rounding

section Chain

variable (c : Chain)

/-- What is asked of the target for an average and a pair of times. Divided by the timespan, the
average counts up to a multiple of it, and the compact form keeps fifteen bits. -/
structure Bounded (bnAvg : BaseUint) (nLastBlockTime nFirstBlockTime : BitVec 32)
    (target : Nat) : Prop where
  limit : target ≤ c.bnLimit.val
  upper : 100*target≤132*bnAvg.val
  lower : (2^15-1)*min (100*c.bnLimit.val) (84*(bnAvg.val/c.AWT.toNat*c.AWT.toNat))≤
    2^15*(100*target)
  neutral : (nLastBlockTime.toNat : Int)-nFirstBlockTime.toNat=c.AWT →
    target≤bnAvg.val ∧ (2^15-1)*(bnAvg.val/c.AWT.toNat*c.AWT.toNat)≤2^15*target
  product : 0 ≤ c.actualTimespan nLastBlockTime nFirstBlockTime ∧
    bnAvg.val/c.AWT.toNat*(c.actualTimespan nLastBlockTime nFirstBlockTime).toNat<2^256

/-- The new target, bounded. -/
def Retargets (bnAvg : BaseUint) (nLastBlockTime nFirstBlockTime : BitVec 32) : Prop :=
  ∃nBits,c.calculateNextWorkRequired bnAvg nLastBlockTime nFirstBlockTime=.ok nBits ∧
    Bounded c bnAvg nLastBlockTime nFirstBlockTime (BaseUint.setCompact nBits).1.val

/-- The window that `pow.cpp` has for HUSH3 is the one of its spacing, and the least timespan is
not rounded. -/
structure Agrees : Prop where
  window : c.ishush3 → c.nPowTargetSpacing=75
  rounding : c.network≠.regtest → c.nPowTargetSpacing≠60

/-- The limit in the compact form. -/
def compactLimit : Nat :=
  match Chain.compactOf c.bnLimit with
  | .ok nBits => (BaseUint.setCompact nBits).1.val
  | .error _ => 0

/-- The timespan of HUSH3 at its first spacing for times that are this far apart. -/
def longTimespan (diff : Int) : Int :=
  if c.network=.regtest then 2550 else min 3366 (max 2142 (1275+(diff-1275).tdiv 4))

/-- The averages and the differences of times for which the bounds are kept. A chain that does not
agree keeps them below the window, where the target is zero; with 60 seconds while the timespan
is not below 84 percent; and HUSH3 with 150 seconds for an average near the limit, or of fewer
than four windows. -/
inductive Keeps (avg : Nat) (diff : Int) : Prop
  | agrees (h : Agrees c)
  | small (h : (avg : Int)<c.AWT)
  | slow (hnetwork : c.network≠.regtest) (hspacing : c.nPowTargetSpacing=60)
    (h : (if c.ishush3 then 456 else 365)≤diff)
  | few (hspacing : c.nPowTargetSpacing=150) (hfew : avg<5100)
    (h : 100*(avg/1275*(longTimespan c diff).toNat)≤132*avg)
    (hneutral : diff=1275 → avg/1275*(longTimespan c diff).toNat≤avg)
  | nearLimit (hspacing : c.nPowTargetSpacing=150) (h : 100*compactLimit c≤132*avg)
    (hneutral : diff=1275 → compactLimit c≤avg)

theorem bnLimit_val : c.bnLimit.val=
    if c.network=.test then sevenAndOnes.toNat else fifteens.toNat := by
  unfold Chain.bnLimit Chain.params
  rw [val_uintToArith256]
  cases c.network <;> cases c.equihash <;> rfl

theorem bnLimit_bounds : 2^15 ≤ c.bnLimit.val ∧ 17*c.bnLimit.val<2^256 := by
  rw [bnLimit_val]
  split_ifs
  · decide +kernel
  · decide +kernel

theorem AWT_pos : 0<c.AWT ∧ c.AWT≤2550 := by
  have hspacing := c.spacing
  unfold Chain.AWT averagingWindowTimespan Params.averagingWindowTimespan Chain.params
  split_ifs
  · omega
  · cases c.network <;> simp only [Network.params] <;> omega

/-- The bounds of the timespan, with those of a window of 1020 seconds rounded. -/
inductive Window (spacing low high : Int) : Prop
  | fixed (h : low=17*spacing ∧ high=17*spacing) (hnetwork : c.network=.regtest)
  | sixty (hspacing : spacing=60) (h : low=856 ∧ high=1346) (hnetwork : c.network≠.regtest)
  | seventyFive (hspacing : spacing=75) (h : low=1071 ∧ high=1683)
  | hundredFifty (hspacing : spacing=150) (h : low=2142 ∧ high=3366)

theorem window_bounds : Window c c.nPowTargetSpacing c.params.minActualTimespan
    c.params.maxActualTimespan := by
  unfold Params.minActualTimespan Params.maxActualTimespan Params.averagingWindowTimespan
    Chain.params
  cases hnetwork : c.network with
  | main | test =>
    rcases c.spacing with hspacing | hspacing | hspacing
    · rw [hspacing]
      exact .sixty rfl (by decide) (by rw [hnetwork]; decide)
    · rw [hspacing]
      exact .seventyFive rfl (by decide)
    · rw [hspacing]
      exact .hundredFifty rfl (by decide)
  | regtest =>
    rcases c.spacing with hspacing | hspacing | hspacing
    all_goals
      rw [hspacing]
      exact .fixed (by decide) hnetwork

theorem minActualTimespan_bounds : 856 ≤ c.params.minActualTimespan ∧
    c.params.minActualTimespan ≤ c.params.maxActualTimespan ∧
      c.params.maxActualTimespan≤3366 := by
  have hspacing := c.spacing
  rcases window_bounds c with ⟨h,-⟩ | ⟨-,h,-⟩ | ⟨-,h⟩ | ⟨-,h⟩ <;> omega

/-- The timespan is brought within the bounds. -/
theorem actualTimespan_eq (nLastBlockTime nFirstBlockTime : BitVec 32) :
    c.actualTimespan nLastBlockTime nFirstBlockTime=
      min c.params.maxActualTimespan (max c.params.minActualTimespan
        (c.AWT+((nLastBlockTime.toNat : Int)-nFirstBlockTime.toNat-c.AWT).tdiv 4)) := by
  obtain ⟨-,horder,-⟩ := minActualTimespan_bounds c
  unfold Chain.actualTimespan
  dsimp only
  rw [if_pos c.fixed]
  split_ifs <;> omega

/-- What the code computes. -/
theorem calculateNextWorkRequired_spec (bnAvg : BaseUint)
    (nLastBlockTime nFirstBlockTime : BitVec 32) :
    ∃nBits,c.calculateNextWorkRequired bnAvg nLastBlockTime nFirstBlockTime=.ok nBits ∧
      (BaseUint.setCompact nBits).1.val≤
        min c.bnLimit.val (bnAvg.val/c.AWT.toNat*
          (c.actualTimespan nLastBlockTime nFirstBlockTime).toNat%2^256) ∧
      (2^15-1)*min c.bnLimit.val (bnAvg.val/c.AWT.toNat*
          (c.actualTimespan nLastBlockTime nFirstBlockTime).toNat%2^256)≤
        2^15*(BaseUint.setCompact nBits).1.val ∧
      (c.bnLimit.val<bnAvg.val/c.AWT.toNat*
          (c.actualTimespan nLastBlockTime nFirstBlockTime).toNat%2^256 →
        (BaseUint.setCompact nBits).1.val=compactLimit c) := by
  obtain ⟨hpos,hsmall⟩ := AWT_pos c
  obtain ⟨hmin,horder,hmax⟩ := minActualTimespan_bounds c
  have hactual := actualTimespan_eq c nLastBlockTime nFirstBlockTime
  have hdivisor : (ofUint64 (BitVec.ofInt 64 c.AWT)).val=c.AWT.toNat := by
    rw [val_ofUint64,BitVec.toNat_ofInt,Int.emod_eq_of_lt hpos.le (by omega)]
  have hfactor : (BitVec.ofInt 32 (c.actualTimespan nLastBlockTime nFirstBlockTime)).toNat=
      (c.actualTimespan nLastBlockTime nFirstBlockTime).toNat := by
    rw [BitVec.toNat_ofInt,Int.emod_eq_of_lt (by omega) (by omega)]
  obtain ⟨q,hq,hqval⟩ := (div_spec bnAvg (ofUint64 (BitVec.ofInt 64 c.AWT))).2
    (by rw [hdivisor]; omega)
  rw [hdivisor] at hqval
  have hproduct : (q.mulWord (BitVec.ofInt 32
      (c.actualTimespan nLastBlockTime nFirstBlockTime))).val=bnAvg.val/c.AWT.toNat*
        (c.actualTimespan nLastBlockTime nFirstBlockTime).toNat%2^256 := by
    rw [val_mulWord,hqval,hfactor]
  rw [Chain.calculateNextWorkRequired,hq,← hproduct]
  change ∃nBits,Chain.compactOf (if (q.mulWord _).compareTo c.bnLimit>0 then c.bnLimit
    else q.mulWord _)=.ok nBits ∧ _
  generalize q.mulWord (BitVec.ofInt 32
    (c.actualTimespan nLastBlockTime nFirstBlockTime))=bnNew
  have hcompare := compareTo_pos bnNew c.bnLimit
  obtain ⟨nBits,hbits,hle,hge⟩ :=
    compactOf_spec (if bnNew.compareTo c.bnLimit>0 then c.bnLimit else bnNew)
  have hvalue : (if bnNew.compareTo c.bnLimit>0 then c.bnLimit else bnNew).val=
      min c.bnLimit.val bnNew.val := by
    split_ifs with habove
    · rw [Nat.min_eq_left (hcompare.mp habove).le]
    · rw [Nat.min_eq_right (Nat.le_of_not_lt fun hlt => habove (hcompare.mpr hlt))]
  rw [hvalue] at hle hge
  refine ⟨nBits,hbits,hle,hge,fun habove => ?_⟩
  rw [if_pos (hcompare.mpr habove)] at hbits
  unfold compactLimit
  rw [hbits]

/-- A quarter, rounded towards zero. -/
theorem tdiv_four (x : Int) :
    0≤x ∧ 4*x.tdiv 4≤x ∧ x<4*x.tdiv 4+4 ∨ x<0 ∧ x≤4*x.tdiv 4 ∧ 4*x.tdiv 4<x+4 := by
  rcases Int.lt_or_le x 0 with hneg | hnonneg
  · obtain ⟨y,rfl⟩ : ∃y,x= -y := ⟨-x,(neg_neg x).symm⟩
    rw [Int.neg_tdiv,Int.tdiv_eq_ediv_of_nonneg (by omega)]
    omega
  · rw [Int.tdiv_eq_ediv_of_nonneg hnonneg]
    omega

theorem AWT_eq : c.AWT=if c.ishush3 then 1275 else 17*c.nPowTargetSpacing := by
  unfold Chain.AWT
  split_ifs
  · rfl
  · unfold Params.averagingWindowTimespan Chain.params
    cases c.network <;> rfl

/-- With the window of the spacing and a least timespan that is not rounded, the timespan stays
between 84 and 132 percent. -/
theorem actualTimespan_of_agrees (h : Agrees c) (nLastBlockTime nFirstBlockTime : BitVec 32) :
    84*c.AWT≤100*c.actualTimespan nLastBlockTime nFirstBlockTime ∧
      100*c.actualTimespan nLastBlockTime nFirstBlockTime≤132*c.AWT ∧
      ((nLastBlockTime.toNat : Int)-nFirstBlockTime.toNat=c.AWT →
        c.actualTimespan nLastBlockTime nFirstBlockTime=c.AWT) := by
  obtain ⟨hwindow,hrounding⟩ := h
  have hAWT : c.AWT=17*c.nPowTargetSpacing := by
    rw [AWT_eq]
    split_ifs with hhush
    · rw [hwindow hhush]
      rfl
    · rfl
  have hbounds : 84*c.AWT≤100*c.params.minActualTimespan ∧ c.params.minActualTimespan ≤ c.AWT ∧
      c.AWT ≤ c.params.maxActualTimespan ∧ 100*c.params.maxActualTimespan≤132*c.AWT := by
    have hspacing := c.spacing
    rcases window_bounds c with ⟨h,-⟩ | ⟨h,-,hnetwork⟩ | ⟨h,h'⟩ | ⟨h,h'⟩
    · omega
    · exact absurd h (hrounding hnetwork)
    · omega
    · omega
  have hactual := actualTimespan_eq c nLastBlockTime nFirstBlockTime
  refine ⟨by omega,by omega,fun htime => ?_⟩
  rw [htime,Int.sub_self,Int.zero_tdiv] at hactual
  omega

/-- The bounds follow from those of the timespan. -/
theorem bounded_target {q A n avg limit target : Nat} (hq : q*A≤avg) (hlow : 84*A≤100*n)
    (hhigh : 100*n≤132*A) (hle : target ≤ min limit (q*n))
    (hge : (2^15-1)*min limit (q*n)≤2^15*target) : target≤limit ∧ 100*target≤132*avg ∧
      (2^15-1)*min (100*limit) (84*(q*A))≤2^15*(100*target) := by
  have hleast : 84*(q*A)≤100*(q*n) := by
    have := Nat.mul_le_mul_left q hlow
    rw [Nat.mul_left_comm,Nat.mul_left_comm q 100] at this
    exact this
  have hmost : 100*(q*n)≤132*(q*A) := by
    have := Nat.mul_le_mul_left q hhigh
    rw [Nat.mul_left_comm,Nat.mul_left_comm q 132] at this
    exact this
  omega

variable {bnAvg : BaseUint} {nLastBlockTime nFirstBlockTime : BitVec 32}

/-- The product stays below 256 bits on every chain. -/
theorem product_lt (nLastBlockTime nFirstBlockTime : BitVec 32)
    (havg : bnAvg.val ≤ c.bnLimit.val) : bnAvg.val/c.AWT.toNat*
    (c.actualTimespan nLastBlockTime nFirstBlockTime).toNat<2^256 := by
  obtain ⟨-,hlimit⟩ := bnLimit_bounds c
  obtain ⟨hmin,horder,hmax⟩ := minActualTimespan_bounds c
  have hactual := actualTimespan_eq c nLastBlockTime nFirstBlockTime
  have hAWT : 1020 ≤ c.AWT := by
    have hspacing := c.spacing
    rw [AWT_eq]
    split_ifs <;> omega
  have hq : bnAvg.val/c.AWT.toNat*c.AWT.toNat≤bnAvg.val := Nat.div_mul_le_self _ _
  have hfour : (c.actualTimespan nLastBlockTime nFirstBlockTime).toNat≤4*c.AWT.toNat := by omega
  have hmul := Nat.mul_le_mul_left (bnAvg.val/c.AWT.toNat) hfour
  rw [Nat.mul_left_comm] at hmul
  omega

/-- What is left to ask of the target that the code computes. -/
theorem retargets_iff (nLastBlockTime nFirstBlockTime : BitVec 32)
    (havg : bnAvg.val ≤ c.bnLimit.val) : ∃target,
    (Retargets c bnAvg nLastBlockTime nFirstBlockTime ↔
      Bounded c bnAvg nLastBlockTime nFirstBlockTime target) ∧
    target≤ min c.bnLimit.val (bnAvg.val/c.AWT.toNat*
      (c.actualTimespan nLastBlockTime nFirstBlockTime).toNat) ∧
    (2^15-1)*min c.bnLimit.val (bnAvg.val/c.AWT.toNat*
      (c.actualTimespan nLastBlockTime nFirstBlockTime).toNat)≤2^15*target ∧
    (c.bnLimit.val<bnAvg.val/c.AWT.toNat*
      (c.actualTimespan nLastBlockTime nFirstBlockTime).toNat → target=compactLimit c) := by
  obtain ⟨nBits,hbits,hspec⟩ :=
    calculateNextWorkRequired_spec c bnAvg nLastBlockTime nFirstBlockTime
  rw [Nat.mod_eq_of_lt (product_lt c _ _ havg)] at hspec
  refine ⟨_,⟨?_,fun h => ⟨nBits,hbits,h⟩⟩,hspec⟩
  rintro ⟨nBits',hbits',h⟩
  obtain rfl : nBits=nBits' := Except.ok.inj (hbits.symm.trans hbits')
  exact h

theorem retargets_of_timespan (havg : bnAvg.val ≤ c.bnLimit.val)
    (hlow : 84*c.AWT≤100*c.actualTimespan nLastBlockTime nFirstBlockTime)
    (hhigh : 100*c.actualTimespan nLastBlockTime nFirstBlockTime≤132*c.AWT)
    (hneutral : (nLastBlockTime.toNat : Int)-nFirstBlockTime.toNat=c.AWT →
      c.actualTimespan nLastBlockTime nFirstBlockTime=c.AWT) :
    Retargets c bnAvg nLastBlockTime nFirstBlockTime := by
  obtain ⟨hpos,-⟩ := AWT_pos c
  have hproduct : bnAvg.val/c.AWT.toNat*
      (c.actualTimespan nLastBlockTime nFirstBlockTime).toNat<2^256 := product_lt c _ _ havg
  obtain ⟨target,hiff,hle,hge,-⟩ := retargets_iff c nLastBlockTime nFirstBlockTime havg
  have hq : bnAvg.val/c.AWT.toNat*c.AWT.toNat≤bnAvg.val := Nat.div_mul_le_self _ _
  obtain ⟨hmax,hupper,hlower⟩ := bounded_target hq (by omega) (by omega) hle hge
  refine hiff.mpr ⟨hmax,hupper,hlower,fun htime => ?_,by omega,hproduct⟩
  rw [hneutral htime,Nat.min_eq_right (hq.trans havg)] at hle hge
  exact ⟨hle.trans hq,hge⟩

theorem retargets_of_agrees (h : Agrees c) {bnAvg : BaseUint}
    (havg : bnAvg.val ≤ c.bnLimit.val) (nLastBlockTime nFirstBlockTime : BitVec 32) :
    Retargets c bnAvg nLastBlockTime nFirstBlockTime := by
  obtain ⟨hlow,hhigh,hneutral⟩ := actualTimespan_of_agrees c h nLastBlockTime nFirstBlockTime
  exact retargets_of_timespan c havg hlow hhigh hneutral

/-- An average below the window is divided to zero. -/
theorem retargets_of_small (havg : bnAvg.val ≤ c.bnLimit.val) (hsmall : (bnAvg.val : Int)<c.AWT) :
    Retargets c bnAvg nLastBlockTime nFirstBlockTime := by
  obtain ⟨hpos,-⟩ := AWT_pos c
  obtain ⟨hmin,horder,-⟩ := minActualTimespan_bounds c
  have hactual := actualTimespan_eq c nLastBlockTime nFirstBlockTime
  have hproduct : bnAvg.val/c.AWT.toNat*
      (c.actualTimespan nLastBlockTime nFirstBlockTime).toNat<2^256 := product_lt c _ _ havg
  obtain ⟨target,hiff,hle,-⟩ := retargets_iff c nLastBlockTime nFirstBlockTime havg
  have hzero : bnAvg.val/c.AWT.toNat=0 := Nat.div_eq_of_lt (by omega)
  rw [hzero,Nat.zero_mul,Nat.min_zero] at hle
  refine hiff.mpr ⟨by omega,by omega,?_,fun _ => ⟨by omega,?_⟩,by omega,hproduct⟩
  · rw [hzero,Nat.zero_mul,Nat.mul_zero,Nat.min_zero]
    omega
  · rw [hzero,Nat.zero_mul]
    omega

/-- A timespan below 84 percent shows in the target, whatever the average is. -/
theorem not_retargets_of_low (havg : bnAvg.val ≤ c.bnLimit.val) (hlarge : c.AWT≤bnAvg.val)
    (hlow : 2^15*(100*c.actualTimespan nLastBlockTime nFirstBlockTime)<(2^15-1)*(84*c.AWT)) :
    ¬Retargets c bnAvg nLastBlockTime nFirstBlockTime := by
  obtain ⟨hpos,-⟩ := AWT_pos c
  obtain ⟨hmin,horder,-⟩ := minActualTimespan_bounds c
  have hactual := actualTimespan_eq c nLastBlockTime nFirstBlockTime
  obtain ⟨target,hiff,hle,-⟩ := retargets_iff c nLastBlockTime nFirstBlockTime havg
  rw [hiff]
  intro hbounded
  have hlower := hbounded.lower
  have hq : bnAvg.val/c.AWT.toNat*c.AWT.toNat≤bnAvg.val := Nat.div_mul_le_self _ _
  have hone : 0<bnAvg.val/c.AWT.toNat := Nat.div_pos (by omega) (by omega)
  have hfactor : 2^15*(100*(c.actualTimespan nLastBlockTime nFirstBlockTime).toNat)<
      (2^15-1)*(84*c.AWT.toNat) := by omega
  have hmul := Nat.mul_lt_mul_of_pos_left hfactor hone
  rw [Nat.mul_left_comm,Nat.mul_left_comm _ 100,Nat.mul_left_comm _ (2^15-1),
    Nat.mul_left_comm _ 84] at hmul
  omega

/-- With 60 seconds the timespan is at least 84 percent for times that are not too close. -/
theorem sixty_iff (havg : bnAvg.val ≤ c.bnLimit.val) (hsixty : c.nPowTargetSpacing=60)
    (hagrees : ¬Agrees c) (hlarge : c.AWT≤bnAvg.val) :
    Retargets c bnAvg nLastBlockTime nFirstBlockTime ↔ c.network≠.regtest ∧
      (if c.ishush3 then 456 else 365)≤(nLastBlockTime.toNat : Int)-nFirstBlockTime.toNat := by
  have hAWT := AWT_eq c
  have hactual := actualTimespan_eq c nLastBlockTime nFirstBlockTime
  have hquarter := tdiv_four ((nLastBlockTime.toNat : Int)-nFirstBlockTime.toNat-c.AWT)
  generalize ((nLastBlockTime.toNat : Int)-nFirstBlockTime.toNat-c.AWT).tdiv 4=quarter at *
  rcases window_bounds c with ⟨h,hnetwork⟩ | ⟨-,h,hnetwork⟩ | ⟨h,-⟩ | ⟨h,-⟩
  · have hhush : c.ishush3 := by
      by_contra hno
      exact hagrees ⟨fun hcon => absurd hcon hno,fun hcon => absurd hnetwork hcon⟩
    rw [if_pos hhush] at hAWT
    refine iff_of_false ?_ fun hcon => hcon.1 hnetwork
    exact not_retargets_of_low c havg hlarge (by omega)
  · constructor
    · intro hretargets
      refine ⟨hnetwork,not_lt.mp fun hclose => ?_⟩
      refine not_retargets_of_low c havg hlarge ?_ hretargets
      split_ifs at hAWT hclose <;> omega
    · rintro ⟨-,hfar⟩
      split_ifs at hAWT hfar
      · exact retargets_of_timespan c havg (by omega) (by omega) (by omega)
      · exact retargets_of_timespan c havg (by omega) (by omega) (by omega)
  · omega
  · omega

/-- What HUSH3 does with 150 seconds. -/
structure LongWindow : Prop where
  spacing : c.nPowTargetSpacing=150
  window : c.AWT=1275

theorem longWindow_timespan (nLastBlockTime nFirstBlockTime : BitVec 32) (hlong : LongWindow c) :
    c.actualTimespan nLastBlockTime nFirstBlockTime=
        longTimespan c ((nLastBlockTime.toNat : Int)-nFirstBlockTime.toNat) ∧
      2142≤ c.actualTimespan nLastBlockTime nFirstBlockTime ∧
      c.actualTimespan nLastBlockTime nFirstBlockTime≤3366 := by
  obtain ⟨hspacing,hAWT⟩ := hlong
  have hactual := actualTimespan_eq c nLastBlockTime nFirstBlockTime
  unfold longTimespan
  rw [hAWT] at hactual
  rcases window_bounds c with ⟨h,hnetwork⟩ | ⟨h,-⟩ | ⟨h,-⟩ | ⟨-,h⟩
  · rw [if_pos hnetwork]
    omega
  · omega
  · omega
  · by_cases hnetwork : c.network=.regtest
    · have hreg : c.params.minActualTimespan=2550 := by
        unfold Params.minActualTimespan Params.averagingWindowTimespan Chain.params
        rw [hnetwork,hspacing]
        rfl
      omega
    · rw [if_neg hnetwork]
      omega

/-- The limit is changed a little by the compact form. -/
theorem compactLimit_bounds : compactLimit c ≤ c.bnLimit.val ∧
    (2^15-1)*c.bnLimit.val≤2^15*compactLimit c := by
  obtain ⟨nBits,hbits,hle,hge⟩ := compactOf_spec c.bnLimit
  unfold compactLimit
  rw [hbits]
  exact ⟨hle,hge⟩

/-- With a timespan above the window the lower bounds are kept. -/
theorem long_lower {q n limit target : Nat} (hn : 2142≤n) (hq : q*1275≤limit)
    (hge : (2^15-1)*min limit (q*n)≤2^15*target) :
    (2^15-1)*min (100*limit) (84*(q*1275))≤2^15*(100*target) ∧
      (2^15-1)*(q*1275)≤2^15*target := by
  have hmul := Nat.mul_le_mul_left q hn
  omega

/-- What is left to ask with 150 seconds. -/
theorem long_bounded_iff (havg : bnAvg.val ≤ c.bnLimit.val) (hlong : LongWindow c) : ∃n target,
    2142≤n ∧ n≤3366 ∧
    n=(longTimespan c ((nLastBlockTime.toNat : Int)-nFirstBlockTime.toNat)).toNat ∧
    (Retargets c bnAvg nLastBlockTime nFirstBlockTime ↔ 100*target≤132*bnAvg.val ∧
      ((nLastBlockTime.toNat : Int)-nFirstBlockTime.toNat=1275 → target≤bnAvg.val)) ∧
    target≤ min c.bnLimit.val (bnAvg.val/1275*n) ∧
    (2^15-1)*min c.bnLimit.val (bnAvg.val/1275*n)≤2^15*target ∧
    (c.bnLimit.val<bnAvg.val/1275*n → target=compactLimit c) := by
  obtain ⟨htimespan,hmin,hmax⟩ := longWindow_timespan c nLastBlockTime nFirstBlockTime hlong
  have hproduct : bnAvg.val/c.AWT.toNat*
      (c.actualTimespan nLastBlockTime nFirstBlockTime).toNat<2^256 := product_lt c _ _ havg
  obtain ⟨target,hiff,hspec⟩ := retargets_iff c nLastBlockTime nFirstBlockTime havg
  have hAWT : c.AWT.toNat=1275 := by rw [hlong.window]; rfl
  have hn : 2142≤(c.actualTimespan nLastBlockTime nFirstBlockTime).toNat := by omega
  rw [hAWT] at hspec
  obtain ⟨hlower,hneutral'⟩ := long_lower hn (by omega) hspec.2.1
  rw [← hAWT] at hlower hneutral'
  refine ⟨_,target,hn,by omega,congrArg Int.toNat htimespan,hiff.trans ⟨fun h => ?_,?_⟩,hspec⟩
  · have hneutral := h.neutral
    rw [hlong.window] at hneutral
    exact ⟨h.upper,fun htime => (hneutral htime).1⟩
  · rintro ⟨hupper,hneutral⟩
    refine ⟨hspec.1.trans (Nat.min_le_left _ _),hupper,hlower,fun htime => ?_,by omega,hproduct⟩
    rw [hlong.window] at htime
    exact ⟨hneutral htime,hneutral'⟩

/-- Below four windows the target is not rounded. -/
theorem long_few_iff (havg : bnAvg.val ≤ c.bnLimit.val) (hlong : LongWindow c)
    (hfew : bnAvg.val<5100) : Retargets c bnAvg nLastBlockTime nFirstBlockTime ↔
      100*(bnAvg.val/1275*
          (longTimespan c ((nLastBlockTime.toNat : Int)-nFirstBlockTime.toNat)).toNat)≤
        132*bnAvg.val ∧
      ((nLastBlockTime.toNat : Int)-nFirstBlockTime.toNat=1275 →
        bnAvg.val/1275*
            (longTimespan c ((nLastBlockTime.toNat : Int)-nFirstBlockTime.toNat)).toNat≤
          bnAvg.val) := by
  obtain ⟨hlimit,-⟩ := bnLimit_bounds c
  obtain ⟨n,target,-,hmax,hn,hiff,hle,hge,-⟩ :=
    @long_bounded_iff c _ nLastBlockTime nFirstBlockTime havg hlong
  have hwhole : bnAvg.val/1275*n≤3*3366 := Nat.mul_le_mul (by omega) hmax
  have htarget : target=bnAvg.val/1275*n := by omega
  rw [hiff,htarget,hn]

/-- From four windows on only a target cut off at the limit is not above 132 percent. -/
theorem long_limit_iff (havg : bnAvg.val ≤ c.bnLimit.val) (hlong : LongWindow c)
    (hlarge : 5100≤bnAvg.val) : Retargets c bnAvg nLastBlockTime nFirstBlockTime ↔
      100*compactLimit c≤132*bnAvg.val ∧
        ((nLastBlockTime.toNat : Int)-nFirstBlockTime.toNat=1275 →
          compactLimit c≤bnAvg.val) := by
  obtain ⟨hlimit,-⟩ := bnLimit_bounds c
  obtain ⟨-,hcompact⟩ := compactLimit_bounds c
  obtain ⟨n,target,hmin,-,-,hiff,hle,hge,hcut⟩ :=
    @long_bounded_iff c _ nLastBlockTime nFirstBlockTime havg hlong
  have hover : bnAvg.val/1275*2142≤bnAvg.val/1275*n := Nat.mul_le_mul_left _ hmin
  rw [hiff]
  constructor
  · rintro ⟨hupper,hneutral⟩
    have hlimited : c.bnLimit.val<bnAvg.val/1275*n := by omega
    rw [hcut hlimited] at hupper hneutral
    exact ⟨hupper,hneutral⟩
  · rintro ⟨hupper,hneutral⟩
    have hlimited : c.bnLimit.val<bnAvg.val/1275*n := by omega
    rw [hcut hlimited]
    exact ⟨hupper,hneutral⟩

theorem long_iff (havg : bnAvg.val ≤ c.bnLimit.val) (hlong : LongWindow c)
    (hlarge : c.AWT≤bnAvg.val) (hagrees : ¬Agrees c) :
    Retargets c bnAvg nLastBlockTime nFirstBlockTime ↔
      Keeps c bnAvg.val ((nLastBlockTime.toNat : Int)-nFirstBlockTime.toNat) := by
  obtain ⟨hlimit,-⟩ := bnLimit_bounds c
  obtain ⟨-,hcompact⟩ := compactLimit_bounds c
  have hspacing := hlong.spacing
  rcases Nat.lt_or_ge bnAvg.val 5100 with hfew | hmany
  · rw [long_few_iff c havg hlong hfew]
    constructor
    · rintro ⟨hupper,hneutral⟩
      exact .few hspacing hfew hupper hneutral
    · rintro (h | h | ⟨-,h,-⟩ | ⟨-,-,hupper,hneutral⟩ | ⟨-,h,-⟩)
      · exact absurd h hagrees
      · omega
      · omega
      · exact ⟨hupper,hneutral⟩
      · omega
  · rw [long_limit_iff c havg hlong hmany]
    constructor
    · rintro ⟨hupper,hneutral⟩
      exact .nearLimit hspacing hupper hneutral
    · rintro (h | h | ⟨-,h,-⟩ | ⟨-,h,-⟩ | ⟨-,hupper,hneutral⟩)
      · exact absurd h hagrees
      · omega
      · omega
      · omega
      · exact ⟨hupper,hneutral⟩

/-- For every chain, average up to the limit and pair of times. -/
theorem retarget_bounds_iff (bnAvg : BaseUint) (nLastBlockTime nFirstBlockTime : BitVec 32)
    (havg : bnAvg.val ≤ c.bnLimit.val) : Retargets c bnAvg nLastBlockTime nFirstBlockTime ↔
      Keeps c bnAvg.val ((nLastBlockTime.toNat : Int)-nFirstBlockTime.toNat) := by
  by_cases hagrees : Agrees c
  · exact iff_of_true (retargets_of_agrees c hagrees havg _ _) (.agrees hagrees)
  rcases Int.lt_or_le bnAvg.val c.AWT with hsmall | hlarge
  · exact iff_of_true (retargets_of_small c havg hsmall) (.small hsmall)
  have hspacing := c.spacing
  by_cases hsixty : c.nPowTargetSpacing=60
  · rw [sixty_iff c havg hsixty hagrees hlarge]
    constructor
    · rintro ⟨hnetwork,hfar⟩
      exact .slow hnetwork hsixty hfar
    · rintro (h | h | ⟨hnetwork,-,hfar⟩ | ⟨h,-⟩ | ⟨h,-⟩)
      · exact absurd h hagrees
      · omega
      · exact ⟨hnetwork,hfar⟩
      · omega
      · omega
  · have hhush : c.ishush3 ∧ c.nPowTargetSpacing=150 := by
      by_contra hno
      refine hagrees ⟨fun hhush => ?_,fun _ => hsixty⟩
      rcases hspacing with h | h | h
      · exact absurd h hsixty
      · exact h
      · exact absurd ⟨hhush,h⟩ hno
    have hAWT := AWT_eq c
    rw [if_pos hhush.1] at hAWT
    exact long_iff c havg ⟨hhush.2,hAWT⟩ hlarge hagrees

/-- Every target of the window within the limit: the sum does not wrap. -/
theorem bnTot_val {limit : Nat} {window : List Chain.CBlockIndex}
    (h : ∀block∈window,(BaseUint.setCompact block.nBits).1.val≤limit)
    (hroom : window.length*limit<2^256) :
    (Chain.bnTot window).val=
        (window.map fun block => (BaseUint.setCompact block.nBits).1.val).sum ∧
      (Chain.bnTot window).val≤window.length*limit := by
  induction window using List.reverseRecOn with
  | nil => simp [Chain.bnTot]
  | append_singleton window block ih =>
    rw [List.length_append,List.length_singleton,Nat.succ_mul] at hroom
    obtain ⟨hsum,hle⟩ := ih (fun b hb => h b (List.mem_append_left _ hb)) (by omega)
    have hblock := h block (List.mem_append_right _ (List.mem_singleton_self block))
    have hstep : Chain.bnTot (window++[block])=
        (Chain.bnTot window).add (BaseUint.setCompact block.nBits).1 := by
      rw [Chain.bnTot,List.foldl_append]
      rfl
    rw [hstep,val_add,Nat.mod_eq_of_lt (by omega),List.map_append,List.sum_append,hsum,
      List.length_append,List.length_singleton,Nat.succ_mul]
    exact ⟨by simp,by omega⟩

/-- The next target after blocks within the limit. -/
theorem getNextWorkRequired_bounded (h : Agrees c) {pindexLast pindexFirst : Chain.CBlockIndex}
    {before : List Chain.CBlockIndex} (hfirst : (pindexLast::before)[17]?=some pindexFirst)
    (hlimit : ∀block∈pindexLast::before,
      (BaseUint.setCompact block.nBits).1.val ≤ c.bnLimit.val) :
    ∃(bnAvg : BaseUint) (nBits : BitVec 32),
      bnAvg.val=(((pindexLast::before).take 17).map fun block =>
        (BaseUint.setCompact block.nBits).1.val).sum/17 ∧
      c.getNextWorkRequired pindexLast before=.ok nBits ∧
      Bounded c bnAvg pindexLast.medianTimePast pindexFirst.medianTimePast
        (BaseUint.setCompact nBits).1.val := by
  obtain ⟨-,hroom⟩ := bnLimit_bounds c
  have hwindow : c.params.nPowAveragingWindow=17 := by
    unfold Chain.params
    cases c.network <;> rfl
  have hlength : ((pindexLast::before).take 17).length=17 := by
    obtain ⟨hlt,-⟩ := List.getElem?_eq_some_iff.mp hfirst
    rw [List.length_take]
    omega
  obtain ⟨hsum,hle⟩ := @bnTot_val _ ((pindexLast::before).take 17)
    (fun block hblock => hlimit block (List.mem_of_mem_take hblock)) (by rw [hlength]; exact hroom)
  rw [hlength] at hle
  obtain ⟨bnAvg,hdiv,havg⟩ :=
    (div_spec (Chain.bnTot ((pindexLast::before).take 17)) (ofUint64 (BitVec.ofNat 64 17))).2
      (by simp)
  have hdivisor : (ofUint64 (BitVec.ofNat 64 17)).val=17 := val_ofUint64 _
  rw [hdivisor] at havg
  obtain ⟨nBits,hbits,hbounded⟩ := @retargets_of_agrees c h bnAvg (by omega)
    pindexLast.medianTimePast pindexFirst.medianTimePast
  refine ⟨bnAvg,nBits,by rw [havg,hsum],?_,hbounded⟩
  rw [Chain.getNextWorkRequired,hwindow,hfirst]
  dsimp only
  rw [hdiv]
  exact hbits

end Chain

/-- HUSH3 with the spacing of its first blocks. -/
def hushAtStart : Chain :=
  ⟨['H','U','S','H','3'],.main,150,true,0,.inr (.inr rfl),le_refl 0⟩

/-- The target rises by more than a half whatever the times are. -/
theorem hush_at_start_eased : ¬∀bnAvg : BaseUint,bnAvg.val≤hushAtStart.bnLimit.val →
    ∀nLastBlockTime nFirstBlockTime,
      Retargets hushAtStart bnAvg nLastBlockTime nFirstBlockTime := by
  intro h
  have hfour : (ofUint64 5100).val=5100 := val_ofUint64 _
  obtain ⟨hlimit,-⟩ := bnLimit_bounds hushAtStart
  obtain ⟨-,hcompact⟩ := compactLimit_bounds hushAtStart
  have havg : (ofUint64 5100).val≤hushAtStart.bnLimit.val := by omega
  have hkeeps := (long_limit_iff hushAtStart havg ⟨rfl,by decide⟩ hfour.ge).mp (h _ havg 0 0)
  omega

/-- A chain of another name with a block every minute. -/
def minuteChain : Chain := ⟨['Z','D','X'],.main,60,true,0,.inl rfl,le_refl 0⟩

theorem minute_chain_keeps : Retargets minuteChain (ofUint64 1020000) 1020 0 := by
  have hlimit := (bnLimit_bounds minuteChain).1
  refine (retarget_bounds_iff minuteChain (ofUint64 1020000) 1020 0 ?_).mpr ?_
  · decide +kernel
  · exact .slow (by decide) rfl (by decide)

end Zdeex.Pow.Retarget
