import Zdeex.Pow.Compact

namespace Zdeex.Pow

open Zdeex.Framework Floating BaseUint

/-- What the work of a block is computed from. -/
structure CBlockIndex where
  nBits : BitVec 32

structure CChainPower where
  nHeight : BitVec 32
  chainWork : BaseUint

/-- The quotient is that of the complement, since 2^256 itself has no room. -/
def getBlockProof (block : CBlockIndex) : Except String CChainPower := do
  let (bnWorkTarget,fNegative,fOverflow) := BaseUint.setCompact block.nBits
  if fNegative || fOverflow || bnWorkTarget.equalTo 0 then return ⟨0,ofUint64 0⟩
  let quotient ← bnWorkTarget.compl.div (bnWorkTarget.add (ofUint64 1))
  return ⟨0,quotient.add (ofUint64 1)⟩

/-- The tests before the division. -/
def NoWork (nBits : BitVec 32) : Prop :=
  (BaseUint.setCompact nBits).2.1=true ∨ (BaseUint.setCompact nBits).2.2=true ∨
    (BaseUint.setCompact nBits).1.val=0

/-- The largest number ends in more ones than a mantissa has bits. -/
theorem decode_succ_ne {n m : Nat} (hm : m<2^23) : decode 256 3 n m+1≠2^256 := by
  have hw := word_lt (n := n) hm
  rw [decode_eq_word]
  by_cases hn : n≤3
  · rw [show n-3=0 by omega,Nat.mul_zero,pow_zero,Nat.mul_one]
    omega
  · have hsplit : word n m*2^(8*(n-3))=2*(word n m*2^(8*(n-3)-1)) := by
      conv_lhs => rw [show 8*(n-3)=8*(n-3)-1+1 by omega,pow_succ]
      ring
    omega

theorem target_lt {nBits : BitVec 32} (h : (BaseUint.setCompact nBits).2.2=false) :
    (BaseUint.setCompact nBits).1.val+1<2^256 := by
  obtain ⟨hval,-,hover⟩ := setCompact_spec nBits
  have hbound : ¬2^256≤decode 256 3 (compactSize nBits) (compactMantissa nBits) := fun hcon => by
    rw [hover.mpr hcon] at h
    cases h
  have hne := decode_succ_ne (n := compactSize nBits) (m := compactMantissa nBits)
    (Nat.mod_lt _ (by decide))
  rw [Nat.mod_eq_of_lt (by omega)] at hval
  omega

theorem quotient_succ {t : Nat} (ht : t+1≤2^256) : (2^256-1-t)/(t+1)+1=2^256/(t+1) := by
  have hsum : 2^256=2^256-1-t+(t+1) := by omega
  conv_rhs => rw [hsum,Nat.add_div_right _ (Nat.succ_pos t)]

theorem getBlockProof_of_noWork {block : CBlockIndex} (h : NoWork block.nBits) :
    getBlockProof block=.ok ⟨0,ofUint64 0⟩ := by
  have htest : ((BaseUint.setCompact block.nBits).2.1 || (BaseUint.setCompact block.nBits).2.2 ||
      (BaseUint.setCompact block.nBits).1.equalTo 0)=true := by
    rw [Bool.or_eq_true,Bool.or_eq_true,equalTo_zero]
    exact or_assoc.mpr h
  unfold getBlockProof
  dsimp only
  rw [if_pos htest]
  rfl

theorem getBlockProof_of_work {block : CBlockIndex} (h : ¬NoWork block.nBits) :
    ∃p,getBlockProof block=.ok p ∧ p.nHeight=0 ∧
      p.chainWork.val=2^256/((BaseUint.setCompact block.nBits).1.val+1) := by
  have htest : ((BaseUint.setCompact block.nBits).2.1 || (BaseUint.setCompact block.nBits).2.2 ||
      (BaseUint.setCompact block.nBits).1.equalTo 0)≠true := by
    rw [ne_eq,Bool.or_eq_true,Bool.or_eq_true,equalTo_zero,or_assoc]
    exact h
  obtain ⟨hover,hzero⟩ : (BaseUint.setCompact block.nBits).2.2=false ∧
      (BaseUint.setCompact block.nBits).1.val≠0 := by
    unfold NoWork at h
    simpa using (not_or.mp (not_or.mp h).2)
  have hlt := target_lt hover
  have hsucc : ((BaseUint.setCompact block.nBits).1.add (ofUint64 1)).val=
      (BaseUint.setCompact block.nBits).1.val+1 := by
    rw [val_add,val_ofUint64]
    exact Nat.mod_eq_of_lt hlt
  obtain ⟨q,hq,hqval⟩ := (div_spec (BaseUint.setCompact block.nBits).1.compl
    ((BaseUint.setCompact block.nBits).1.add (ofUint64 1))).2 (by omega)
  rw [hsucc,val_compl] at hqval
  have hquot := quotient_succ (t := (BaseUint.setCompact block.nBits).1.val) (by omega)
  have hsmall : 2^256/((BaseUint.setCompact block.nBits).1.val+1)<2^256 :=
    Nat.div_lt_self (by decide +kernel) (by omega)
  refine ⟨⟨0,q.add (ofUint64 1)⟩,?_,rfl,?_⟩
  · unfold getBlockProof
    dsimp only
    rw [if_neg htest,hq]
    rfl
  · rw [val_add,val_ofUint64,hqval]
    change ((2^256-1-(BaseUint.setCompact block.nBits).1.val)/
      ((BaseUint.setCompact block.nBits).1.val+1)+1)%2^256=_
    rw [hquot,Nat.mod_eq_of_lt hsmall]

/-- The work of every block index is found without an exception; it is 2^256 divided by one more
than the target, and a smaller target means at least as much work. -/
theorem blockProof_exact (block : CBlockIndex) :
    ∃p,getBlockProof block=.ok p ∧ p.nHeight=0 ∧
      (NoWork block.nBits → p.chainWork.val=0) ∧
      (¬NoWork block.nBits → (BaseUint.setCompact block.nBits).1.val≠2^256-1 ∧
        p.chainWork.val=2^256/((BaseUint.setCompact block.nBits).1.val+1) ∧
        ∀block' : CBlockIndex,¬NoWork block'.nBits →
          (BaseUint.setCompact block.nBits).1.val≤(BaseUint.setCompact block'.nBits).1.val →
          ∃p',getBlockProof block'=.ok p' ∧ p'.chainWork.val≤p.chainWork.val) := by
  by_cases h : NoWork block.nBits
  · exact ⟨_,getBlockProof_of_noWork h,rfl,fun _ => val_ofUint64 0,fun hcon => absurd h hcon⟩
  · obtain ⟨p,hp,hheight,hwork⟩ := getBlockProof_of_work h
    refine ⟨p,hp,hheight,fun hcon => absurd hcon h,fun _ => ⟨?_,hwork,fun block' h' hle => ?_⟩⟩
    · have hover : (BaseUint.setCompact block.nBits).2.2=false := by
        unfold NoWork at h
        simpa using (not_or.mp (not_or.mp h).2).1
      have := target_lt hover
      omega
    · obtain ⟨p',hp',-,hwork'⟩ := getBlockProof_of_work h'
      refine ⟨p',hp',?_⟩
      rw [hwork,hwork']
      exact Nat.div_le_div_left (by omega) (Nat.succ_pos _)

end Zdeex.Pow
