import Zdeex.Emission.ScSupply

namespace Zdeex.Emission

section Subsidy

/-- The eras as `hush_args` accepts them, every 64-bit value of the command line
included. -/
structure EraArgs where
  LASTERA : Nat
  ENDSUBSIDY : Nat → BitVec 64
  REWARD : Nat → BitVec 64
  HALVING : Nat → BitVec 64
  DECAY : Nat → BitVec 64
  SUPPLY : BitVec 64
  MAGIC : BitVec 32
  STAKED : Bool
  ishush3 : Bool
  z2zheight : Int
  LASTERA_lt : LASTERA<7
  DECAY_le : ∀j<7,DECAY j≤100000000
  SUPPLY_le : SUPPLY≤90000000000

/-- The static variables of `hush_sc_block_subsidy`. -/
structure SubsidyCache where
  cached_subsidy : BitVec 64
  cached_numhalvings : BitVec 32
  cached_era : Nat

def SubsidyCache.init : SubsidyCache := ⟨0,0,0⟩

variable (c : EraArgs) (nHeight : Nat)

/-- The search among the `n` eras from `curEra` on. -/
def EraArgs.searchEra : Nat → Nat → Nat
  | 0,curEra => curEra
  | n+1,curEra =>
      if (c.ENDSUBSIDY curEra).toNat>nHeight ∨ c.ENDSUBSIDY curEra=0 then curEra
      else EraArgs.searchEra n (curEra+1)

def EraArgs.curEra : Nat :=
  if c.ENDSUBSIDY 0≠0 then c.searchEra nHeight (c.LASTERA+1) 0 else 0

def EraArgs.nStart (curEra : Nat) : BitVec 64 :=
  if curEra=0 then 0 else c.ENDSUBSIDY (curEra-1)

/-- The quotient has 64 bits and is stored in an `int32_t`. -/
def EraArgs.numhalvings (curEra : Nat) : BitVec 32 :=
  ((BitVec.ofNat 64 nHeight-c.nStart curEra)/c.HALVING curEra).setWidth 32

/-- The decay loop of `hush_sc_block_subsidy`. -/
def decayLoop (decay : BitVec 64) : Nat → BitVec 64 → BitVec 64
  | 0,subsidy => subsidy
  | n+1,subsidy => if subsidy≠0 then decayLoop decay n (subsidy*decay/100000000) else subsidy

/-- The subsidy of an era that goes linearly to the next one. -/
def EraArgs.linearSubsidy (curEra : Nat) : BitVec 64 :=
  let subsidy := c.REWARD curEra
  let difference := if curEra=c.LASTERA then subsidy else subsidy-c.REWARD (curEra+1)
  let rising := decide (curEra≠c.LASTERA) && difference.msb
  let denominator := c.ENDSUBSIDY curEra-c.nStart curEra
  let height := BitVec.ofNat 64 nHeight
  let numerator := denominator-
    (c.ENDSUBSIDY curEra-height+(height-c.nStart curEra)%c.HALVING curEra)
  if denominator=0 then 10000
  else if rising then subsidy+(-difference*numerator).sdiv denominator
  else subsidy-(difference*numerator).sdiv denominator

/-- The branch with the cache. -/
def EraArgs.decayedSubsidy (curEra : Nat) (s : SubsidyCache) : BitVec 64 × SubsidyCache :=
  let numhalvings := c.numhalvings nHeight curEra
  if 0 < s.cached_subsidy ∧ s.cached_era=curEra ∧ s.cached_numhalvings=numhalvings then
    (s.cached_subsidy,s)
  else
    let subsidy := decayLoop (c.DECAY curEra) numhalvings.toNat (c.REWARD curEra)
    (subsidy,⟨subsidy,numhalvings,curEra⟩)

/-- A shift by 64 or more is undefined; processors use the low six bits. -/
def EraArgs.eraSubsidy (curEra : Nat) (s : SubsidyCache) : BitVec 64 × SubsidyCache :=
  let subsidy := c.REWARD curEra
  if (subsidy≠0 ∨ curEra≠c.LASTERA ∧ c.REWARD (curEra+1)≠0) ∧ c.HALVING curEra≠0 then
    if c.ishush3 then (BitVec.ofNat 64 (hushBlockSubsidy c.z2zheight nHeight),s)
    else
      let numhalvings := c.numhalvings nHeight curEra
      if 0 < numhalvings.toInt then
        if c.DECAY curEra=0 then (subsidy.sshiftRight (numhalvings.toNat%64),s)
        else if c.DECAY curEra=100000000 ∧ c.ENDSUBSIDY curEra≠0 then
          (c.linearSubsidy nHeight curEra,s)
        else c.decayedSubsidy nHeight curEra s
      else (subsidy,s)
  else (subsidy,s)

def EraArgs.minedSubsidy (s : SubsidyCache) : BitVec 64 × SubsidyCache :=
  if c.ENDSUBSIDY 0=0 ∧ c.REWARD 0=0 then (10000,s)
  else if c.curEra nHeight ≤ c.LASTERA then c.eraSubsidy nHeight (c.curEra nHeight) s
  else (0,s)

/-- The premine that the first blocks get on top. -/
def EraArgs.withPremine (subsidy : BitVec 64) : BitVec 64 :=
  let magicExtra := (if c.STAKED then c.MAGIC else c.MAGIC &&& 0xffffff).setWidth 64
  if c.SUPPLY>10000000000 then
    if nHeight ≤ (c.SUPPLY/1000000000).toNat then
      if nHeight=1 then
        subsidy+1000000000*100000000+(c.SUPPLY%1000000000*100000000+magicExtra)
      else subsidy+1000000000*100000000
    else subsidy
  else if nHeight=1 then
    if c.LASTERA=0 then c.SUPPLY*100000000+magicExtra
    else subsidy+(c.SUPPLY*100000000+magicExtra)
  else subsidy

def EraArgs.hushScBlockSubsidy (s : SubsidyCache) : BitVec 64 × SubsidyCache :=
  (c.withPremine nHeight (c.minedSubsidy nHeight s).1,(c.minedSubsidy nHeight s).2)

/-- The static variables after a history of calls. -/
def EraArgs.after (calls : List Nat) : SubsidyCache :=
  calls.foldl (fun s h => (c.hushScBlockSubsidy h s).2) .init

/-- The value a call returns after a history of calls. -/
def EraArgs.subsidyAfter (calls : List Nat) : BitVec 64 :=
  (c.hushScBlockSubsidy nHeight (c.after calls)).1

end Subsidy

section Era

variable {c : EraArgs} {nHeight : Nat}

/-- The search stops at an era whose predecessor has ended. -/
theorem searchEra_start (c : EraArgs) (nHeight n j : Nat) :
    c.searchEra nHeight n j=j ∨
      (c.ENDSUBSIDY (c.searchEra nHeight n j-1)).toNat≤nHeight ∧ j<c.searchEra nHeight n j := by
  induction n generalizing j with
  | zero => exact .inl rfl
  | succ n ih =>
    rw [EraArgs.searchEra]
    split_ifs with hstop
    · exact .inl rfl
    · rw [not_or] at hstop
      rcases ih (j+1) with heq | ⟨hend,hlt⟩
      · rw [heq]
        exact .inr ⟨by simpa using hstop.1,by omega⟩
      · exact .inr ⟨hend,by omega⟩

theorem nStart_le (c : EraArgs) (nHeight : Nat) :
    (c.nStart (c.curEra nHeight)).toNat≤nHeight := by
  unfold EraArgs.nStart
  split_ifs with hzero
  · simp
  · have hera : c.curEra nHeight=c.searchEra nHeight (c.LASTERA+1) 0 := by
      unfold EraArgs.curEra at hzero ⊢
      split_ifs at hzero ⊢ with hend
      · rfl
      · exact absurd rfl hzero
    rcases searchEra_start c nHeight (c.LASTERA+1) 0 with heq | ⟨hend,-⟩
    · exact absurd (hera.trans heq) hzero
    · rwa [hera]

/-- The count as a number, which an `int32_t` holds. -/
theorem numhalvings_toNat (h : nHeight<2^31) :
    (c.numhalvings nHeight (c.curEra nHeight)).toNat=
      (nHeight-(c.nStart (c.curEra nHeight)).toNat)/(c.HALVING (c.curEra nHeight)).toNat := by
  have hstart := nStart_le c nHeight
  have hsub : (BitVec.ofNat 64 nHeight-c.nStart (c.curEra nHeight)).toNat=
      nHeight-(c.nStart (c.curEra nHeight)).toNat := by
    rw [BitVec.toNat_sub_of_le]
    · rw [BitVec.toNat_ofNat,Nat.mod_eq_of_lt (by omega)]
    · rw [BitVec.le_def,BitVec.toNat_ofNat,Nat.mod_eq_of_lt (by omega)]
      exact hstart
  have hle := Nat.div_le_self (nHeight-(c.nStart (c.curEra nHeight)).toNat)
    (c.HALVING (c.curEra nHeight)).toNat
  rw [EraArgs.numhalvings,BitVec.toNat_setWidth,BitVec.toNat_udiv,hsub,
    Nat.mod_eq_of_lt (by omega)]

theorem numhalvings_toInt (h : nHeight<2^31) :
    (c.numhalvings nHeight (c.curEra nHeight)).toInt=
      (c.numhalvings nHeight (c.curEra nHeight)).toNat := by
  have hnat := numhalvings_toNat (c := c) h
  have hle := Nat.div_le_self (nHeight-(c.nStart (c.curEra nHeight)).toNat)
    (c.HALVING (c.curEra nHeight)).toNat
  exact BitVec.toInt_eq_toNat_of_lt (by omega)

/-- Later in an era there were as many halvings, or more. -/
theorem numhalvings_mono {h₁ h₂ : Nat} (hle : h₁≤h₂) (hint : h₂<2^31)
    (hera : c.curEra h₁=c.curEra h₂) :
    (c.numhalvings h₁ (c.curEra h₁)).toNat≤(c.numhalvings h₂ (c.curEra h₂)).toNat := by
  rw [numhalvings_toNat (by omega),numhalvings_toNat hint,hera]
  exact Nat.div_le_div_right (by omega)

end Era

section Falling

variable {c : EraArgs} {nHeight : Nat}

theorem decay_step_le {decay subsidy : BitVec 64} (hdecay : decay≤100000000) :
    (subsidy*decay/100000000).toNat ≤ subsidy.toNat := by
  have hd : decay.toNat≤100000000 := by simpa [BitVec.le_def] using hdecay
  rw [BitVec.toNat_udiv,BitVec.toNat_mul]
  calc
    subsidy.toNat*decay.toNat%2^64/(100000000 : BitVec 64).toNat
      ≤ subsidy.toNat*decay.toNat/100000000 := Nat.div_le_div_right (Nat.mod_le _ _)
    _ ≤ subsidy.toNat*100000000/100000000 :=
      Nat.div_le_div_right (Nat.mul_le_mul_left _ hd)
    _ = subsidy.toNat := Nat.mul_div_cancel _ (by decide)

theorem decayLoop_zero (decay : BitVec 64) (n : Nat) : decayLoop decay n 0=0 := by
  cases n <;> rfl

theorem decayLoop_succ {decay subsidy : BitVec 64} (hne : subsidy≠0) (n : Nat) :
    decayLoop decay (n+1) subsidy=decayLoop decay n (subsidy*decay/100000000) := by
  rw [decayLoop,if_pos hne]

theorem decayLoop_succ_le {decay : BitVec 64} (hdecay : decay≤100000000) (n : Nat)
    (subsidy : BitVec 64) :
    (decayLoop decay (n+1) subsidy).toNat≤(decayLoop decay n subsidy).toNat := by
  induction n generalizing subsidy with
  | zero =>
    by_cases hzero : subsidy=0
    · rw [hzero,decayLoop_zero,decayLoop_zero]
    · rw [decayLoop_succ hzero]
      exact decay_step_le hdecay
  | succ n ih =>
    by_cases hzero : subsidy=0
    · rw [hzero,decayLoop_zero,decayLoop_zero]
    · rw [decayLoop_succ hzero,decayLoop_succ hzero]
      exact ih _

theorem decayLoop_antitone {decay : BitVec 64} (hdecay : decay≤100000000)
    (subsidy : BitVec 64) : Antitone fun n => (decayLoop decay n subsidy).toNat :=
  antitone_nat_of_succ_le fun n => decayLoop_succ_le hdecay n subsidy

theorem sshiftRight_antitone {subsidy : BitVec 64} (hpos : subsidy.toNat<2^63) {m n : Nat}
    (hmn : m≤n) : (subsidy.sshiftRight n).toNat≤(subsidy.sshiftRight m).toNat := by
  have hmsb : subsidy.msb=false := BitVec.msb_eq_false_iff_two_mul_lt.mpr (by omega)
  rw [BitVec.sshiftRight_eq_of_msb_false hmsb,BitVec.sshiftRight_eq_of_msb_false hmsb,
    BitVec.toNat_ushiftRight,BitVec.toNat_ushiftRight,Nat.shiftRight_eq_div_pow,
    Nat.shiftRight_eq_div_pow]
  exact Nat.div_le_div_left (Nat.pow_le_pow_right (by decide) hmn) (by positivity)

/-- The cached value is a result of the loop. -/
def SubsidyCache.Valid (c : EraArgs) (s : SubsidyCache) : Prop :=
  0 < s.cached_subsidy → s.cached_subsidy=
    decayLoop (c.DECAY s.cached_era) s.cached_numhalvings.toNat (c.REWARD s.cached_era)

theorem decayedSubsidy_valid {s : SubsidyCache} (hs : s.Valid c) (curEra : Nat) :
    (c.decayedSubsidy nHeight curEra s).1=
        decayLoop (c.DECAY curEra) (c.numhalvings nHeight curEra).toNat (c.REWARD curEra) ∧
      (c.decayedSubsidy nHeight curEra s).2.Valid c := by
  unfold EraArgs.decayedSubsidy
  dsimp only
  split_ifs with hhit
  · obtain ⟨hpos,rfl,hhalvings⟩ := hhit
    rw [←hhalvings]
    exact ⟨hs hpos,hs⟩
  · exact ⟨rfl,fun _ => rfl⟩

theorem eraSubsidy_valid {s : SubsidyCache} (hs : s.Valid c) (curEra : Nat) :
    (c.eraSubsidy nHeight curEra s).2.Valid c := by
  unfold EraArgs.eraSubsidy
  dsimp only
  split_ifs <;> first | exact hs | exact (decayedSubsidy_valid hs curEra).2

theorem hushScBlockSubsidy_valid {s : SubsidyCache} (hs : s.Valid c) :
    (c.hushScBlockSubsidy nHeight s).2.Valid c := by
  change (c.minedSubsidy nHeight s).2.Valid c
  unfold EraArgs.minedSubsidy
  split_ifs
  · exact hs
  · exact eraSubsidy_valid hs _
  · exact hs

theorem after_valid (c : EraArgs) (calls : List Nat) : (c.after calls).Valid c := by
  have hinit : SubsidyCache.init.Valid c := fun h => absurd h (by decide)
  unfold EraArgs.after
  induction calls using List.reverseRecOn with
  | nil => exact hinit
  | append_singleton calls h ih =>
    rw [List.foldl_append]
    exact hushScBlockSubsidy_valid ih

/-- What an era that falls pays after a number of halvings. -/
def EraArgs.fallen (c : EraArgs) (curEra n : Nat) : BitVec 64 :=
  if n=0 then c.REWARD curEra
  else if c.DECAY curEra=0 then (c.REWARD curEra).sshiftRight (n%64)
  else decayLoop (c.DECAY curEra) n (c.REWARD curEra)

theorem fallen_zero_of_reward {curEra : Nat} (hzero : c.REWARD curEra=0) (n : Nat) :
    c.fallen curEra n=0 := by
  unfold EraArgs.fallen
  split_ifs
  · exact hzero
  · rw [hzero]
    exact BitVec.eq_of_toNat_eq (by simp)
  · rw [hzero,decayLoop_zero]

theorem eraSubsidy_eq {s : SubsidyCache} (hs : s.Valid c) (hhush : c.ishush3=false)
    (hint : nHeight<2^31) (hhalving : c.HALVING (c.curEra nHeight)≠0)
    (hdecay : c.DECAY (c.curEra nHeight)<100000000) :
    (c.eraSubsidy nHeight (c.curEra nHeight) s).1=
      c.fallen (c.curEra nHeight) (c.numhalvings nHeight (c.curEra nHeight)).toNat := by
  have hlinear : ¬c.DECAY (c.curEra nHeight)=100000000 := by
    intro heq
    rw [heq] at hdecay
    exact absurd hdecay (by decide)
  have hcount := numhalvings_toInt (c := c) hint
  unfold EraArgs.eraSubsidy
  dsimp only
  split_ifs with hrewarded hhush' hpos hzero hlin
  · rw [hhush] at hhush'
    cases hhush'
  · rw [EraArgs.fallen,if_neg (by omega),if_pos hzero]
  · exact absurd hlin.1 hlinear
  · rw [EraArgs.fallen,if_neg (by omega),if_neg hzero]
    exact (decayedSubsidy_valid hs _).1
  · rw [EraArgs.fallen,if_pos (by omega)]
  · have hnone : c.REWARD (c.curEra nHeight)=0 := by
      by_contra hne
      exact hrewarded ⟨.inl hne,hhalving⟩
    rw [hnone,fallen_zero_of_reward hnone]

/-- More halvings never pay more, while a shift stays below the width. -/
theorem fallen_le {curEra m n : Nat} (hera : curEra<7) (hmn : m≤n)
    (hshift : c.DECAY curEra=0 → n<64 ∧ (c.REWARD curEra).toNat<2^63) :
    (c.fallen curEra n).toNat≤(c.fallen curEra m).toNat := by
  unfold EraArgs.fallen
  by_cases hn : n=0
  · rw [if_pos hn,if_pos (by omega)]
  · rw [if_neg hn]
    by_cases hdecay : c.DECAY curEra=0
    · obtain ⟨hlt,hreward⟩ := hshift hdecay
      rw [if_pos hdecay]
      by_cases hm : m=0
      · rw [if_pos hm]
        have hzero := sshiftRight_antitone hreward (Nat.zero_le (n%64))
        rwa [BitVec.sshiftRight_zero] at hzero
      · rw [if_neg hm,if_pos hdecay]
        apply sshiftRight_antitone hreward
        rw [Nat.mod_eq_of_lt hlt,Nat.mod_eq_of_lt (by omega)]
        exact hmn
    · rw [if_neg hdecay]
      have hfall := decayLoop_antitone (c.DECAY_le curEra hera) (c.REWARD curEra) hmn
      by_cases hm : m=0
      · subst hm
        simpa [decayLoop] using hfall
      · rw [if_neg hm,if_neg hdecay]
        exact hfall

theorem withPremine_eq (hfirst : 1 < nHeight)
    (hpremine : c.SUPPLY>10000000000 → (c.SUPPLY/1000000000).toNat<nHeight) (subsidy : BitVec 64) :
    c.withPremine nHeight subsidy=subsidy := by
  unfold EraArgs.withPremine
  by_cases hsupply : c.SUPPLY>10000000000
  · rw [if_pos hsupply,if_neg (Nat.not_le.mpr (hpremine hsupply))]
  · rw [if_neg hsupply,if_neg (by omega)]

/-- Inside an era, above the premine and away from the default subsidy, whatever was
asked before. -/
theorem subsidy_falls_in_era (c : EraArgs) (h₁ h₂ : Nat) (calls₁ calls₂ : List Nat)
    (hhush : c.ishush3=false) (hfirst : 1 < h₁) (hle : h₁≤h₂) (hint : h₂<2^31)
    (hera : c.curEra h₁=c.curEra h₂) (hlast : c.curEra h₂ ≤ c.LASTERA)
    (hhalving : c.HALVING (c.curEra h₂)≠0) (hdecay : c.DECAY (c.curEra h₂)<100000000)
    (hdefault : ¬(c.ENDSUBSIDY 0=0 ∧ c.REWARD 0=0))
    (hpremine : c.SUPPLY>10000000000 → (c.SUPPLY/1000000000).toNat<h₁)
    (hshift : c.DECAY (c.curEra h₂)=0 → (c.numhalvings h₂ (c.curEra h₂)).toNat<64 ∧
      (c.REWARD (c.curEra h₂)).toNat<2^63) :
    (c.subsidyAfter h₂ calls₂).toNat≤(c.subsidyAfter h₁ calls₁).toNat ∧
      (c.subsidyAfter h₁ calls₁).toNat≤(c.REWARD (c.curEra h₂)).toNat := by
  have hvalue : ∀h calls,h₁≤h → h≤h₂ → c.curEra h=c.curEra h₂ → c.subsidyAfter h calls=
      c.fallen (c.curEra h₂) (c.numhalvings h (c.curEra h₂)).toNat := by
    intro h calls hlow hhigh heq
    have hplain : c.subsidyAfter h calls=(c.minedSubsidy h (c.after calls)).1 :=
      withPremine_eq (by omega) (fun hsupply => lt_of_lt_of_le (hpremine hsupply) hlow) _
    have hmined := eraSubsidy_eq (after_valid c calls) hhush (show h<2^31 by omega)
      (heq ▸ hhalving) (heq ▸ hdecay)
    rw [hplain,EraArgs.minedSubsidy,if_neg hdefault,if_pos (by omega),hmined,heq]
  have hera₂ : c.curEra h₂<7 := lt_of_le_of_lt hlast c.LASTERA_lt
  have hcount := numhalvings_mono hle hint hera
  rw [hera] at hcount
  have hzero : c.fallen (c.curEra h₂) 0=c.REWARD (c.curEra h₂) := rfl
  rw [hvalue h₂ calls₂ hle le_rfl rfl,hvalue h₁ calls₁ le_rfl hle hera,←hzero]
  exact ⟨fallen_le hera₂ hcount hshift,fallen_le hera₂ (Nat.zero_le _) fun hd =>
    ⟨lt_of_le_of_lt hcount (hshift hd).1,(hshift hd).2⟩⟩

/-- One era that halves every thousand blocks, with a premine of twenty billion. -/
def premineArgs : EraArgs :=
  ⟨0,fun _ => 0,fun _ => 100000000,fun _ => 1000,fun _ => 0,20000000000,0,false,false,340000,
    by decide,by decide,by decide⟩

theorem subsidy_falls_premineArgs :
    (premineArgs.subsidyAfter 5000 [7,9000]).toNat≤(premineArgs.subsidyAfter 2000 []).toNat ∧
      (premineArgs.subsidyAfter 2000 []).toNat≤(premineArgs.REWARD 0).toNat :=
  subsidy_falls_in_era premineArgs 2000 5000 [] [7,9000] rfl (by decide) (by decide)
    (by decide) rfl (by decide) (by decide) (by decide) (by decide) (by decide) (by decide)

/-- The premine is spread over the first blocks, on top of the reward. -/
theorem premine_above_reward :
    premineArgs.curEra 2=0 ∧ premineArgs.HALVING 0≠0 ∧ premineArgs.DECAY 0<100000000 ∧
      (premineArgs.REWARD 0).toNat<(premineArgs.subsidyAfter 2 []).toNat := by
  decide +kernel

end Falling

section Amounts

variable (c : EraArgs) (hreward : ∀j,(c.REWARD j).toNat<2^62)

/-- The same eras for the supply, where rewards are amounts. -/
def EraArgs.toAcParams (COMMISSION : Nat) : AcParams where
  LASTERA := c.LASTERA
  ENDSUBSIDY j := (c.ENDSUBSIDY j).toNat
  REWARD j := (c.REWARD j).toNat
  HALVING j := (c.HALVING j).toNat
  DECAY j := (c.DECAY j).toNat
  SUPPLY := c.SUPPLY.toNat
  COMMISSION := COMMISSION
  MAGIC := c.MAGIC
  STAKED := c.STAKED
  ishush3 := c.ishush3
  z2zheight := c.z2zheight
  REWARD_lt := hreward

variable {c} {nHeight COMMISSION : Nat}

theorem toNat_eq_zero_iff (x : BitVec 64) : x.toNat=0 ↔ x=0 := by
  rw [←BitVec.toNat_inj]
  rfl

theorem findEra_toAcParams (n j : Nat) :
    findEra (c.toAcParams hreward COMMISSION) nHeight n j=c.searchEra nHeight n j := by
  induction n generalizing j with
  | zero => rfl
  | succ n ih =>
    rw [findEra,EraArgs.searchEra,ih]
    simp only [EraArgs.toAcParams,toNat_eq_zero_iff]

theorem eraStart_toAcParams (j : Nat) :
    (c.toAcParams hreward COMMISSION).eraStart j=(c.nStart j).toNat := by
  unfold AcParams.eraStart EraArgs.nStart
  split_ifs
  · rfl
  · rfl

theorem decayedSubsidy_toNat (decay : BitVec 64) (n : Nat) (subsidy : BitVec 64) :
    decayedSubsidy decay.toNat n subsidy.toNat=(decayLoop decay n subsidy).toNat := by
  induction n generalizing subsidy with
  | zero => rfl
  | succ n ih =>
    rw [decayedSubsidy,decayLoop]
    by_cases hzero : subsidy=0
    · rw [if_neg (by simp [hzero]),if_neg (by simp [hzero])]
    · rw [if_pos (by rwa [Ne,toNat_eq_zero_iff]),if_pos hzero,←ih,BitVec.toNat_udiv,
        BitVec.toNat_mul]
      rfl

theorem linearSubsidy_toAcParams (curEra : Nat) :
    linearSubsidy (c.toAcParams hreward COMMISSION) nHeight curEra=
      c.linearSubsidy nHeight curEra := by
  have hof : ∀x : BitVec 64,BitVec.ofNat 64 x.toNat=x := fun x => by simp
  unfold linearSubsidy EraArgs.linearSubsidy
  rw [eraStart_toAcParams]
  simp only [EraArgs.toAcParams,hof]
  rfl

theorem eraSubsidy_toAcParams {s : SubsidyCache} (hs : s.Valid c) (hint : nHeight<2^31)
    (hhush : c.ishush3=false) :
    eraSubsidy (c.toAcParams hreward COMMISSION) nHeight (c.curEra nHeight)=
      (c.eraSubsidy nHeight (c.curEra nHeight) s).1.toNat := by
  have hnat := numhalvings_toNat (c := c) hint
  have hcount := numhalvings_toInt (c := c) hint
  have hmsb : (c.REWARD (c.curEra nHeight)).msb=false :=
    BitVec.msb_eq_false_iff_two_mul_lt.mpr (by have := hreward (c.curEra nHeight); omega)
  have hshift : ∀n,((c.REWARD (c.curEra nHeight)).sshiftRight n).toNat=
      (c.REWARD (c.curEra nHeight)).toNat/2^n := by
    intro n
    rw [BitVec.sshiftRight_eq_of_msb_false hmsb,BitVec.toNat_ushiftRight,
      Nat.shiftRight_eq_div_pow]
  have hcoin : (c.DECAY (c.curEra nHeight)).toNat=coin ↔
      c.DECAY (c.curEra nHeight)=100000000 := by
    rw [←BitVec.toNat_inj]
    rfl
  have hpos : (c.numhalvings nHeight (c.curEra nHeight)).toNat=0 ↔
      ¬0 < (c.numhalvings nHeight (c.curEra nHeight)).toInt := by
    omega
  unfold eraSubsidy EraArgs.eraSubsidy
  rw [eraStart_toAcParams,linearSubsidy_toAcParams]
  simp only [EraArgs.toAcParams,hhush,hcoin,toNat_eq_zero_iff,decayedSubsidy_toNat,←hnat,
    Bool.false_eq_true,if_false,Ne,hpos]
  split_ifs with hrewarded hcounted hzero hlinear
  · exact (hshift _).symm
  · rfl
  · rw [(decayedSubsidy_valid hs _).1]
  · rfl
  · rfl

/-- Where rewards are amounts, the supply counts what a call returns. -/
theorem minedSubsidy_toAcParams {s : SubsidyCache} (hs : s.Valid c) (hint : nHeight<2^31)
    (hhush : c.ishush3=false) :
    minedSubsidy (c.toAcParams hreward COMMISSION) nHeight=(c.minedSubsidy nHeight s).1.toNat := by
  have hera : (if (c.ENDSUBSIDY 0).toNat≠0 then
      findEra (c.toAcParams hreward COMMISSION) nHeight (c.LASTERA+1) 0 else 0)=
        c.curEra nHeight := by
    rw [findEra_toAcParams]
    simp only [EraArgs.curEra,Ne,toNat_eq_zero_iff]
  unfold minedSubsidy EraArgs.minedSubsidy
  change (if (c.ENDSUBSIDY 0).toNat=0 ∧ (c.REWARD 0).toNat=0 then 10000 else
    if (if (c.ENDSUBSIDY 0).toNat≠0 then
      findEra (c.toAcParams hreward COMMISSION) nHeight (c.LASTERA+1) 0 else 0) ≤ c.LASTERA then
        eraSubsidy (c.toAcParams hreward COMMISSION) nHeight (if (c.ENDSUBSIDY 0).toNat≠0 then
          findEra (c.toAcParams hreward COMMISSION) nHeight (c.LASTERA+1) 0 else 0) else 0)=_
  rw [hera,eraSubsidy_toAcParams hreward hs hint hhush]
  simp only [toNat_eq_zero_iff]
  split_ifs
  · rfl
  · rfl
  · rfl

end Amounts

end Zdeex.Emission
