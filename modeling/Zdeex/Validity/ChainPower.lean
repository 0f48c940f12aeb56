import Zdeex.Pow.BlockProof
import Zdeex.Validity.CandidateOrder

namespace Zdeex.Validity

open Zdeex.Framework Limbs Zdeex.Pow

namespace Power

def workDivisor (p1 p2 : CChainPower) : BaseUint :=
  if p1.chainWork.compareTo p2.chainWork>0 then p1.chainWork
  else if p2.chainWork.pn≠(BaseUint.ofUint64 0).pn then p2.chainWork else BaseUint.ofUint64 1

/-- The works with sixteen bits of precision, over the larger one. -/
def quotients (p1 p2 : CChainPower) : Except String (BaseUint × BaseUint) := do
  let q1 ← (p1.chainWork.shl 16).div (workDivisor p1 p2)
  let q2 ← (p2.chainWork.shl 16).div (workDivisor p1 p2)
  return (q1,q2)

/-- `operator==`, on the words. -/
def eq (p1 p2 : CChainPower) : Except String Bool := do
  let (q1,q2) ← quotients p1 p2
  return q1.pn==q2.pn

/-- `operator<`. -/
def lt (p1 p2 : CChainPower) : Except String Bool := do
  let (q1,q2) ← quotients p1 p2
  return decide (q1.compareTo q2<0)

/-- `operator<=`. -/
def le (p1 p2 : CChainPower) : Except String Bool := do
  let (q1,q2) ← quotients p1 p2
  return decide (q1.compareTo q2≤0)

/-- `operator!=`. -/
def ne (p1 p2 : CChainPower) : Except String Bool := do return !(← eq p1 p2)

/-- `operator>`. -/
def gt (p1 p2 : CChainPower) : Except String Bool := do return !(← le p1 p2)

/-- `operator>=`. -/
def ge (p1 p2 : CChainPower) : Except String Bool := do return !(← lt p1 p2)

variable {H : Type} [LinearOrder H]

/-- What `CBlockIndexWorkComparator` reads of a block. -/
structure Entry where
  chainPower : CChainPower
  nSequenceId : BitVec 32

/-- `CBlockIndexWorkComparator`, where `H` is the order of the addresses. -/
def workComparator (entry : H → Entry) (pa pb : H) : Bool :=
  if (entry pa).chainPower.chainWork.compareTo (entry pb).chainPower.chainWork>0 then false
  else if (entry pa).chainPower.chainWork.compareTo (entry pb).chainPower.chainWork<0 then true
  else if (entry pa).nSequenceId<(entry pb).nSequenceId then false
  else if (entry pb).nSequenceId<(entry pa).nSequenceId then true
  else if pa<pb then false
  else if pb<pa then true
  else false

section Exact

variable {p1 p2 : CChainPower}

theorem compareTo_nonpos (a b : BaseUint) : a.compareTo b≤0 ↔ a.val≤b.val := by
  have h := BaseUint.compareTo_pos a b
  omega

/-- The divisor is the larger work, and 1 where both are 0. -/
theorem workDivisor_val (p1 p2 : CChainPower) :
    (workDivisor p1 p2).val=max 1 (max p1.chainWork.val p2.chainWork.val) := by
  have hzero : p2.chainWork.pn=(BaseUint.ofUint64 0).pn ↔ p2.chainWork.val=0 := by
    rw [BaseUint.pn_eq_iff,BaseUint.val_ofUint64]
    rfl
  have hone : (BaseUint.ofUint64 1).val=1 := BaseUint.val_ofUint64 1
  have hmore := BaseUint.compareTo_pos p1.chainWork p2.chainWork
  unfold workDivisor
  split_ifs with hlt hne
  · omega
  · have hpositive := mt hzero.mpr hne
    omega
  · have hnone := hzero.mp (not_not.mp hne)
    omega

/-- A fraction of the larger work is told from the whole. -/
theorem scaled_lt {a b : Nat} (h : a<b) : a*2^16/b<2^16 ∧ b*2^16/b=2^16 := by
  refine ⟨Nat.div_lt_of_lt_mul ?_,Nat.mul_div_cancel_left _ (by omega)⟩
  exact Nat.mul_lt_mul_of_pos_right h (by decide)

theorem scaled_order (a b : Nat) : (a*2^16/max 1 (max a b)<b*2^16/max 1 (max a b) ↔ a<b) ∧
    (a*2^16/max 1 (max a b)=b*2^16/max 1 (max a b) ↔ a=b) := by
  rcases lt_trichotomy a b with h | rfl | h
  · obtain ⟨hlow,hhigh⟩ := scaled_lt h
    have hmax : max 1 (max a b)=b := by omega
    rw [hmax,hhigh]
    omega
  · simp
  · obtain ⟨hlow,hhigh⟩ := scaled_lt h
    have hmax : max 1 (max a b)=a := by omega
    rw [hmax,hhigh]
    omega

/-- The shift loses nothing and the division never throws. -/
theorem quotients_spec (h1 : p1.chainWork.val<2^240) (h2 : p2.chainWork.val<2^240) :
    ∃q1 q2,quotients p1 p2=.ok (q1,q2) ∧
      (q1.val<q2.val ↔ p1.chainWork.val<p2.chainWork.val) ∧
      (q1.val=q2.val ↔ p1.chainWork.val=p2.chainWork.val) := by
  have hdivisor := workDivisor_val p1 p2
  have hne : (workDivisor p1 p2).val≠0 := by omega
  obtain ⟨q1,hq1,hv1⟩ := (BaseUint.div_spec (p1.chainWork.shl 16) (workDivisor p1 p2)).2 hne
  obtain ⟨q2,hq2,hv2⟩ := (BaseUint.div_spec (p2.chainWork.shl 16) (workDivisor p1 p2)).2 hne
  rw [BaseUint.val_shl,Nat.mod_eq_of_lt (by omega),hdivisor] at hv1 hv2
  have horder := scaled_order p1.chainWork.val p2.chainWork.val
  rw [← hv1,← hv2] at horder
  refine ⟨q1,q2,?_,horder⟩
  unfold quotients
  rw [hq1,hq2]
  rfl

theorem ok_operators {q1 q2 : BaseUint} (h : quotients p1 p2=.ok (q1,q2)) :
    eq p1 p2=.ok (q1.pn==q2.pn) ∧ lt p1 p2=.ok (decide (q1.compareTo q2<0)) ∧
      le p1 p2=.ok (decide (q1.compareTo q2≤0)) := by
  unfold eq lt le
  rw [h]
  exact ⟨rfl,rfl,rfl⟩

/-- All six operators compare the two numbers. -/
theorem operators_spec (h1 : p1.chainWork.val<2^240) (h2 : p2.chainWork.val<2^240) :
    eq p1 p2=.ok (decide (p1.chainWork.val=p2.chainWork.val)) ∧
      ne p1 p2=.ok (decide (p1.chainWork.val≠p2.chainWork.val)) ∧
      lt p1 p2=.ok (decide (p1.chainWork.val<p2.chainWork.val)) ∧
      le p1 p2=.ok (decide (p1.chainWork.val≤p2.chainWork.val)) ∧
      gt p1 p2=.ok (decide (p1.chainWork.val>p2.chainWork.val)) ∧
      ge p1 p2=.ok (decide (p1.chainWork.val≥p2.chainWork.val)) := by
  obtain ⟨q1,q2,hq,hlt,heq⟩ := quotients_spec h1 h2
  obtain ⟨heq',hlt',hle'⟩ := ok_operators hq
  have hsame : (q1.pn==q2.pn)=decide (p1.chainWork.val=p2.chainWork.val) := by
    rw [Bool.eq_iff_iff,beq_iff_eq,decide_eq_true_iff,BaseUint.pn_eq_iff,heq]
  have hless : decide (q1.compareTo q2<0)=decide (p1.chainWork.val<p2.chainWork.val) := by
    rw [decide_eq_decide,BaseUint.compareTo_neg,hlt]
  have hmost : decide (q1.compareTo q2≤0)=decide (p1.chainWork.val≤p2.chainWork.val) := by
    rw [decide_eq_decide,compareTo_nonpos]
    omega
  rw [hsame] at heq'
  rw [hless] at hlt'
  rw [hmost] at hle'
  refine ⟨heq',?_,hlt',hle',?_,?_⟩
  · rw [ne,heq',decide_not]
    rfl
  · have hnot : (!decide (p1.chainWork.val≤p2.chainWork.val))=
        decide (p1.chainWork.val>p2.chainWork.val) := by
      rw [← decide_not,decide_eq_decide,not_le]
    rw [gt,hle',← hnot]
    rfl
  · have hnot : (!decide (p1.chainWork.val<p2.chainWork.val))=
        decide (p1.chainWork.val≥p2.chainWork.val) := by
      rw [← decide_not,decide_eq_decide,not_lt]
    rw [ge,hlt',← hnot]
    rfl

end Exact

section Comparator

variable {entry : H → Entry} {a b : H}

/-- The fields as numbers, on the other tables of the choice of the chain. -/
def numbers (entry : H → Entry) : ChainState H :=
  {ChainState.empty with
    index := fun h => ⟨0,(entry h).chainPower.chainWork.val,0,0,0,(entry h).nSequenceId.toNat⟩}

theorem workComparator_eq (entry : H → Entry) (a b : H) :
    workComparator entry a b=(numbers entry).workComparator a b := by
  have hpos := BaseUint.compareTo_pos (entry a).chainPower.chainWork (entry b).chainPower.chainWork
  have hneg := BaseUint.compareTo_neg (entry a).chainPower.chainWork (entry b).chainPower.chainWork
  unfold workComparator ChainState.workComparator
  simp only [hpos,hneg,numbers,BitVec.lt_def]
  split_ifs <;> simp_all

/-- The comparator orders the blocks by their ranks. -/
theorem workComparator_iff_rank :
    workComparator entry a b=true ↔ (numbers entry).rank a<(numbers entry).rank b := by
  rw [workComparator_eq,ChainState.workComparator_iff]

theorem workComparator_strict (entry : H → Entry) :
    IsStrictTotalOrder H (fun a b => workComparator entry a b=true) where
  irrefl a h := lt_irrefl _ (workComparator_iff_rank.mp h)
  trans a b c hab hbc := workComparator_iff_rank.mpr
    ((workComparator_iff_rank.mp hab).trans (workComparator_iff_rank.mp hbc))
  trichotomous a b hab hba := by
    have hle : (numbers entry).rank b ≤ (numbers entry).rank a :=
      not_lt.mp fun h => hab (workComparator_iff_rank.mpr h)
    have hge : (numbers entry).rank a ≤ (numbers entry).rank b :=
      not_lt.mp fun h => hba (workComparator_iff_rank.mpr h)
    exact ChainState.rank_inj (le_antisymm hge hle)

theorem rank_lt_iff : (numbers entry).rank a<(numbers entry).rank b ↔
    (entry a).chainPower.chainWork.val<(entry b).chainPower.chainWork.val ∨
      (entry a).chainPower.chainWork.val=(entry b).chainPower.chainWork.val ∧
        ((entry b).nSequenceId<(entry a).nSequenceId ∨
          (entry a).nSequenceId=(entry b).nSequenceId ∧ b<a) := by
  rw [ChainState.rank,ChainState.rank,Prod.Lex.toLex_lt_toLex,Prod.Lex.toLex_lt_toLex,
    OrderDual.toDual_lt_toDual,OrderDual.toDual_lt_toDual,EmbeddingLike.apply_eq_iff_eq,
    BitVec.lt_def,← BitVec.toNat_inj]
  rfl

end Comparator

/-- Below 2^240 the six operators compare the works themselves. So does the comparator of the
candidates, which decides between equal works by the ids and the addresses. -/
theorem power_exact (entry : H → Entry) (a b : H)
    (ha : (entry a).chainPower.chainWork.val<2^240)
    (hb : (entry b).chainPower.chainWork.val<2^240) :
    let p1 := (entry a).chainPower
    let p2 := (entry b).chainPower
    (eq p1 p2=.ok (decide (p1.chainWork.val=p2.chainWork.val)) ∧
      ne p1 p2=.ok (decide (p1.chainWork.val≠p2.chainWork.val)) ∧
      lt p1 p2=.ok (decide (p1.chainWork.val<p2.chainWork.val)) ∧
      le p1 p2=.ok (decide (p1.chainWork.val≤p2.chainWork.val)) ∧
      gt p1 p2=.ok (decide (p1.chainWork.val>p2.chainWork.val)) ∧
      ge p1 p2=.ok (decide (p1.chainWork.val≥p2.chainWork.val))) ∧
    IsStrictTotalOrder H (fun pa pb => workComparator entry pa pb=true) ∧
    (workComparator entry a b=true ↔ lt p1 p2=.ok true ∨ eq p1 p2=.ok true ∧
      ((entry b).nSequenceId<(entry a).nSequenceId ∨
        (entry a).nSequenceId=(entry b).nSequenceId ∧ b<a)) := by
  intro p1 p2
  have hops := operators_spec ha hb
  refine ⟨hops,workComparator_strict entry,?_⟩
  rw [workComparator_iff_rank,rank_lt_iff,hops.1,hops.2.2.1,Except.ok.injEq,Except.ok.injEq,
    decide_eq_true_iff,decide_eq_true_iff]

/-- Works that differ in one unit, and an earlier id on the smaller one. -/
theorem power_exact_close :
    lt ⟨0,BaseUint.ofUint64 0xffffffff⟩ ⟨0,BaseUint.ofUint64 0x100000000⟩=.ok true ∧
      workComparator (fun h : Nat => ⟨⟨0,BaseUint.ofUint64 (if h=0 then 0xffffffff else
        0x100000000)⟩,if h=0 then 1 else 2⟩) 0 1=true := by
  have h := power_exact (fun h : Nat => ⟨⟨0,BaseUint.ofUint64 (if h=0 then 0xffffffff else
    0x100000000)⟩,if h=0 then 1 else 2⟩) 0 1 (by decide +kernel) (by decide +kernel)
  have hlt := h.1.2.2.1.trans (congrArg Except.ok (by decide +kernel : _=true))
  exact ⟨hlt,h.2.2.mpr (.inl hlt)⟩

end Power

end Zdeex.Validity
