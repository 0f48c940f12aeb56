import Zdeex.Emission.HushEmission
import Zdeex.Framework.SteppedSum

namespace Zdeex.Emission

/-- The emission parameters `hush_args` leaves behind; entry `j` of an array
belongs to era `j`. Amounts are below 2^62. -/
structure AcParams where
  LASTERA : Nat
  ENDSUBSIDY : Nat → Nat
  REWARD : Nat → Nat
  HALVING : Nat → Nat
  DECAY : Nat → Nat
  SUPPLY : Nat
  COMMISSION : Nat
  MAGIC : BitVec 32
  STAKED : Bool
  ishush3 : Bool
  z2zheight : Int
  REWARD_lt : ∀j,REWARD j<2^62

/-- `SATOSHIDEN` and `COIN`. -/
def coin : Nat := 100000000

def genesisTxVal : Nat := 5000000000

def maxNValue : Nat := 2^63-1

/-- First height of an era: `lastEnd` and `nStart` of the source. -/
def AcParams.eraStart (c : AcParams) (j : Nat) : Nat := if j=0 then 0 else c.ENDSUBSIDY (j-1)

/-- Height up to which the closed form counts era `j`: `curEnd` of the source. -/
def AcParams.eraEnd (c : AcParams) (nHeight j : Nat) : Nat :=
  if c.ENDSUBSIDY j=0 then nHeight else min nHeight (c.ENDSUBSIDY j)

/-- `curEnd-lastEnd` of the source. -/
def AcParams.eraBlocks (c : AcParams) (nHeight j : Nat) : Nat :=
  (c.eraEnd nHeight j+2^64-c.eraStart j)%2^64

/-- `modulo` of the source: the blocks of a period that is not over. -/
@[irreducible] def AcParams.eraModulo (c : AcParams) (nHeight j : Nat) : Nat :=
  c.eraBlocks nHeight j%c.HALVING j%2^32

/-- The low 24 bits of the magic. -/
def AcParams.magic24 (c : AcParams) : Nat := (c.MAGIC &&& 0xffffff).toNat

/-- The supply before any block: a coin more than the premine, and the genesis
output. -/
def AcParams.baseMoney (c : AcParams) : Nat := (c.SUPPLY+1)*coin+c.magic24+genesisTxVal

/-- An `int`, as it compares with a `uint64_t`. -/
def intAsU64 (x : Nat) : Nat :=
  if x%2^32<2^31 then x%2^32 else 2^64-2^32+x%2^32

/-- `x-1` of a `uint32_t`. -/
@[irreducible] def pred32 (x : Nat) : Nat := (x+2^32-1)%2^32

/-- One step of the decay in the closed form. -/
def nextReward (decay reward : Nat) : Nat :=
  if decay≠0 then reward*decay%2^64/coin else reward/2

section Supply

variable (u64 : Nat → Nat) (c : AcParams) (nHeight : Nat)

/-- The loop over started periods: `fuel` bounds its rounds, and `none` is a loop
that does not end. The result is the reward after it and the money. -/
def periodLoop (period decay curEnd : Nat) : Nat → Nat → Nat → Nat → Option (Nat × Nat)
  | 0,_,_,_ => none
  | fuel+1,k,reward,cur_money =>
      if k<curEnd then
        periodLoop period decay curEnd fuel (intAsU64 (k+period)) (nextReward decay reward)
          (u64 (cur_money+u64 (period*reward)))
      else some (reward,cur_money)

/-- The closed form of a linear era. All operands convert to `uint64_t`. -/
def linearSupply (j : Nat) (period nSteps blocks : BitVec 64) : BitVec 64 :=
  let reward := BitVec.ofNat 64 (c.REWARD j)
  let next := BitVec.ofNat 64 (c.REWARD (j+1))
  let falling := decide (j=c.LASTERA) || !(reward-next).msb
  let subsidyDifference :=
    if j=c.LASTERA then reward else if (reward-next).msb then -(reward-next) else reward-next
  let denominator := if nSteps*period=0 then 1 else nSteps*period
  let stepDifference := period*subsidyDifference/denominator
  let stepTriangle := (period*stepDifference) >>> 1
  if falling then
    stepTriangle*nSteps+stepTriangle*nSteps*nSteps+(reward-stepDifference*nSteps)*blocks
  else
    let less := ((nSteps-1).setWidth 32).setWidth 64
    stepTriangle*less+stepTriangle*less*less+stepDifference*nSteps+reward*blocks

/-- The money after the rewards of era `j`. The default period of 210000 is only
used in the branch without periods, which does not read it. -/
def eraSupply (j cur_money : Nat) : Option Nat :=
  let reward := c.REWARD j
  if 0 < reward then
    let period := c.HALVING j
    if period=0 then
      some (u64 (cur_money+u64 (reward*pred32 nHeight)))
    else if c.DECAY j=coin then
      let nSteps := c.eraBlocks nHeight j/period%2^32
      some (u64 (cur_money+(linearSupply c j (BitVec.ofNat 64 period) (BitVec.ofNat 64 nSteps)
        (BitVec.ofNat 64 (c.eraBlocks nHeight j))).toNat))
    else
      (periodLoop u64 period (c.DECAY j) (c.eraEnd nHeight j) (nHeight+1)
        (intAsU64 (c.eraStart j)) reward cur_money).map fun (reward,cur_money) =>
          u64 (cur_money+u64 (c.eraModulo nHeight j*reward))
  else some cur_money

/-- The loop over the eras from `j` on. -/
def eraLoop : Nat → Nat → Nat → Option Nat
  | 0,_,cur_money => some cur_money
  | n+1,j,cur_money =>
      if j≠0 ∧ (nHeight ≤ c.ENDSUBSIDY (j-1) ∨ c.ENDSUBSIDY (j-1)=0 ∧ c.REWARD j=0 ∧
          (j=c.LASTERA ∨ c.DECAY j≠coin)) then some cur_money
      else (eraSupply u64 c nHeight j cur_money).bind (eraLoop n (j+1))

/-- `cur_money` of `hush_current_supply` before the checks at its end, with
`u64` the way an amount is stored. The first product has 32 bits. -/
def curMoney : Option Nat :=
  if c.LASTERA=0 ∧ c.REWARD 0=0 then some (u64 (u64 c.baseMoney+nHeight*10000%2^32))
  else eraLoop u64 c nHeight (c.LASTERA+1) 0 (u64 c.baseMoney)

end Supply

def hushCurrentSupply (c : AcParams) (nHeight : Nat) : Option Nat :=
  (curMoney (·%2^64) c nHeight).map fun cur_money =>
    if 2^63 ≤ cur_money then maxNValue
    else if c.COMMISSION≠0 then
      let newval := (cur_money+cur_money/coin*c.COMMISSION)%2^64
      if 2^63≤newval ∨ newval<cur_money then maxNValue else newval
    else cur_money

def hushMaxMoney (c : AcParams) : Option Nat := hushCurrentSupply c 10000000

section Subsidy

variable (c : AcParams) (nHeight : Nat)

/-- The search for the current era among the `n` from `curEra` on. -/
def findEra : Nat → Nat → Nat
  | 0,curEra => curEra
  | n+1,curEra =>
      if c.ENDSUBSIDY curEra>nHeight ∨ c.ENDSUBSIDY curEra=0 then curEra
      else findEra n (curEra+1)

/-- The decay loop of `hush_sc_block_subsidy`; its cache holds a result of it. -/
def decayedSubsidy (decay : Nat) : Nat → Nat → Nat
  | 0,subsidy => subsidy
  | n+1,subsidy =>
      if subsidy≠0 then decayedSubsidy decay n (subsidy*decay%2^64/coin) else subsidy

/-- The subsidy in an era that falls or rises linearly to the next one. -/
def linearSubsidy (curEra : Nat) : BitVec 64 :=
  let subsidy := BitVec.ofNat 64 (c.REWARD curEra)
  let nStart := BitVec.ofNat 64 (c.eraStart curEra)
  let height := BitVec.ofNat 64 nHeight
  let last := BitVec.ofNat 64 (c.ENDSUBSIDY curEra)
  let difference :=
    if curEra=c.LASTERA then subsidy else subsidy-BitVec.ofNat 64 (c.REWARD (curEra+1))
  let rising := decide (curEra≠c.LASTERA) && difference.msb
  let denominator := last-nStart
  let numerator :=
    denominator-(last-height+(height-nStart)%BitVec.ofNat 64 (c.HALVING curEra))
  if denominator=0 then 10000
  else if rising then subsidy+(-difference*numerator).sdiv denominator
  else subsidy-(difference*numerator).sdiv denominator

/-- A shift by 64 or more is undefined; processors use the low six bits. -/
def eraSubsidy (curEra : Nat) : Nat :=
  let subsidy := c.REWARD curEra
  if (subsidy≠0 ∨ curEra≠c.LASTERA ∧ c.REWARD (curEra+1)≠0) ∧ c.HALVING curEra≠0 then
    let numhalvings := (nHeight-c.eraStart curEra)/c.HALVING curEra
    if c.ishush3 then hushBlockSubsidy c.z2zheight nHeight
    else if numhalvings=0 then subsidy
    else if c.DECAY curEra=0 then subsidy/2^(numhalvings%64)
    else if c.DECAY curEra=coin ∧ c.ENDSUBSIDY curEra≠0 then
      (linearSubsidy c nHeight curEra).toNat
    else decayedSubsidy (c.DECAY curEra) numhalvings subsidy
  else subsidy

/-- The subsidy before the premine of the first blocks is added. -/
def minedSubsidy : Nat :=
  if c.ENDSUBSIDY 0=0 ∧ c.REWARD 0=0 then 10000
  else
    let curEra := if c.ENDSUBSIDY 0≠0 then findEra c nHeight (c.LASTERA+1) 0 else 0
    if curEra ≤ c.LASTERA then eraSubsidy c nHeight curEra else 0

def hushScBlockSubsidy : Nat :=
  let subsidy := minedSubsidy c nHeight
  let magicExtra := if c.STAKED then c.MAGIC.toNat else c.magic24
  if c.SUPPLY>10000000000 then
    if nHeight ≤ c.SUPPLY/1000000000 then
      if nHeight=1 then
        (subsidy+1000000000*coin+(c.SUPPLY%1000000000*coin+magicExtra))%2^64
      else (subsidy+1000000000*coin)%2^64
    else subsidy
  else if nHeight=1 then
    if c.LASTERA=0 then (c.SUPPLY*coin+magicExtra)%2^64
    else (subsidy+(c.SUPPLY*coin+magicExtra))%2^64
  else subsidy

/-- What the blocks up to height `h` create together. -/
def emitted (h : Nat) : Nat := ∑ n ∈ Finset.range h,hushScBlockSubsidy c (n+1)

end Subsidy

end Zdeex.Emission
