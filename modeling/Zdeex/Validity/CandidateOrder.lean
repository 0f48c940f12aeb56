import Mathlib.Data.Prod.Lex
import Zdeex.Validity.Candidates

namespace Zdeex.Validity

open Zdeex.Framework

variable {H : Type} [LinearOrder H]

namespace ChainState

variable {s t : ChainState H} {a b h p : H}

/-- The place of a block in the set: more work, then an earlier id, then a lower
address. -/
def rank (s : ChainState H) (h : H) : ℕ ×ₗ (ℕᵒᵈ ×ₗ Hᵒᵈ) :=
  toLex ((s.index h).chainWork,
    toLex (OrderDual.toDual (s.index h).nSequenceId,OrderDual.toDual h))

theorem workComparator_iff : s.workComparator a b=true ↔ s.rank a<s.rank b := by
  rw [rank,rank,Prod.Lex.toLex_lt_toLex,Prod.Lex.toLex_lt_toLex,OrderDual.toDual_lt_toDual,
    OrderDual.toDual_lt_toDual,workComparator]
  rcases lt_trichotomy (s.index a).chainWork (s.index b).chainWork with hw | hw | hw
  · simp [hw,hw.not_gt]
  · rcases lt_trichotomy (s.index a).nSequenceId (s.index b).nSequenceId with hq | hq | hq
    · simp [hw,hq,hq.not_gt,hq.ne]
    · rcases lt_trichotomy a b with hab | hab | hab
      · simp [hw,hq,hab,hab.not_gt]
      · simp [hab]
      · simp [hw,hq,hab,hab.not_gt]
    · simp [hw,hq,hq.not_gt]
  · simp [hw,hw.not_gt,hw.ne']

theorem workComparator_false : s.workComparator a b=false ↔ s.rank b ≤ s.rank a := by
  rw [← not_lt,← workComparator_iff,Bool.not_eq_true]

omit [LinearOrder H] in
theorem rank_inj (h : s.rank a=s.rank b) : a=b := by
  have hpair := congrArg (fun x => (ofLex (ofLex x).2).2) h
  exact OrderDual.toDual.injective hpair

omit [LinearOrder H] in
theorem rank_congr (hw : (t.index a).chainWork=(s.index a).chainWork)
    (hq : (t.index a).nSequenceId=(s.index a).nSequenceId) : t.rank a=s.rank a := by
  rw [rank,rank,hw,hq]

theorem rbegin_eq_none {l : List H} (h : s.rbegin l=none) : l=[] := by
  cases l with
  | nil => rfl
  | cons x xs =>
    rw [rbegin] at h
    split at h
    · cases h
    · split_ifs at h

theorem rbegin_spec {l : List H} (h : s.rbegin l=some b) : b∈l ∧ ∀a∈l,s.rank a ≤ s.rank b := by
  induction l generalizing b with
  | nil => cases h
  | cons x xs ih =>
    rw [rbegin] at h
    cases hxs : s.rbegin xs with
    | none =>
      rw [hxs] at h
      obtain rfl := Option.some.inj h
      rw [rbegin_eq_none hxs]
      exact ⟨List.mem_singleton_self x,fun a ha => by rw [List.mem_singleton.mp ha]⟩
    | some c =>
      obtain ⟨hc,hmax⟩ := ih hxs
      rw [hxs] at h
      dsimp only at h
      split_ifs at h with hx
      · obtain rfl := Option.some.inj h
        refine ⟨List.mem_cons_of_mem x hc,?_⟩
        intro a ha
        rcases List.mem_cons.mp ha with rfl | ha
        · exact (workComparator_iff.mp hx).le
        · exact hmax a ha
      · obtain rfl := Option.some.inj h
        have hcx : s.rank c ≤ s.rank x := workComparator_false.mp (by simpa using hx)
        refine ⟨List.mem_cons_self,?_⟩
        intro a ha
        rcases List.mem_cons.mp ha with rfl | ha
        · exact le_refl _
        · exact (hmax a ha).trans hcx

/-- The transactions of a block and its ancestors. -/
def total (s : ChainState H) (h : H) : Nat := ((s.lineage h).map (fun a => (s.index a).nTx)).sum

/-- How far the blocks are linked; `queue` holds the blocks to be linked next. -/
structure Linked (queue : List H) (s : ChainState H) : Prop where
  grown : Forest.Grown s.mapBlockIndex
  height : ∀h p,s.pprev h=some p → (s.index h).nHeight=(s.index p).nHeight+1
  absent : ∀h,h∉Forest.keys s.mapBlockIndex → (s.status h).haveData=false ∧ s.nChainTx h=0
  tree : ∀h∈Forest.keys s.mapBlockIndex,2≤(s.status h).level
  data : ∀h,(s.status h).haveData=true → 3≤(s.status h).level ∧ 0<(s.index h).nTx ∧
    (s.nChainTx h=0 → h∈queue ∨ ∃p,s.pprev h=some p ∧ (p,h)∈s.mapBlocksUnlinked)
  linked : ∀h,s.nChainTx h≠0 → (s.status h).haveData=true ∧ s.nChainTx h=s.total h ∧
    ∀p,s.pprev h=some p → s.nChainTx p≠0
  unlinked : ∀p h,(p,h)∈s.mapBlocksUnlinked → s.pprev h=some p ∧ (s.status h).haveData=true ∧
    s.nChainTx p=0 ∧ s.nChainTx h=0
  unlinkedOnce : s.mapBlocksUnlinked.Nodup
  queued : ∀h∈queue,(s.status h).haveData=true ∧ s.nChainTx h=0 ∧
    ∀p,s.pprev h=some p → s.nChainTx p≠0
  queuedOnce : queue.Nodup
  candidates : ∀h∈s.setBlockIndexCandidates,s.nChainTx h≠0

/-- No block back to the root is marked. -/
def Clean (s : ChainState H) (h : H) : Prop := ∀a∈s.lineage h,(s.status a).failed=false

/-- The active chain stands, and the set holds every linked block without a mark that
is not worse than the best tip, whose chain has no marks. -/
structure Covering (s : ChainState H) : Prop where
  active : ∀t,s.tip=some t → s.chainActive=s.lineage t
  standing : ∀h∈s.chainActive,s.nChainTx h≠0 ∧ (s.status h).failed=false
  covered : ∀h,s.nChainTx h≠0 → (s.status h).failed=false →
    (∀f∈s.bestTip,s.rank f ≤ s.rank h) → h∈s.setBlockIndexCandidates
  best : ∀f∈s.bestTip,s.nChainTx f≠0 ∧ s.Clean f

/-- The same, with a tip that is not better than the best tip. -/
structure Chosen (s : ChainState H) : Prop extends Covering s where
  above : ∀p∈s.tip,∃f∈s.bestTip,s.rank p ≤ s.rank f

/-- Only statuses differ, and not in what a block has reached. -/
structure Restatused (s t : ChainState H) : Prop where
  tree : t.mapBlockIndex=s.mapBlockIndex
  unlinked : t.mapBlocksUnlinked=s.mapBlocksUnlinked
  same : ∀h,t.index h={s.index h with nStatus := t.status h}
  data : ∀h,(t.status h).haveData=(s.status h).haveData
  level : ∀h,(s.status h).level≤(t.status h).level

namespace Restatused

omit [LinearOrder H] in
theorem refl (s : ChainState H) : Restatused s s :=
  ⟨rfl,rfl,fun _ => rfl,fun _ => rfl,fun _ => Nat.le_refl _⟩

omit [LinearOrder H] in
theorem trans {u : ChainState H} (h₁ : Restatused s t) (h₂ : Restatused t u) : Restatused s u := by
  refine ⟨h₂.tree.trans h₁.tree,h₂.unlinked.trans h₁.unlinked,?_,?_,?_⟩
  · intro h
    rw [h₂.same h,h₁.same h]
  · intro h
    rw [h₂.data h,h₁.data h]
  · intro h
    exact Nat.le_trans (h₁.level h) (h₂.level h)

variable (r : Restatused s t)

include r

theorem pprev (h : H) : t.pprev h=s.pprev h := by rw [ChainState.pprev,r.tree]; rfl

theorem lineage (h : H) : t.lineage h=s.lineage h := by rw [ChainState.lineage,r.tree]; rfl

omit [LinearOrder H] in
theorem nChainTx (h : H) : t.nChainTx h=s.nChainTx h := by rw [ChainState.nChainTx,r.same h]; rfl

omit [LinearOrder H] in
theorem nTx (h : H) : (t.index h).nTx=(s.index h).nTx := by rw [r.same h]

omit [LinearOrder H] in
theorem rank (h : H) : t.rank h=s.rank h := by
  apply rank_congr
  · rw [r.same h]
  · rw [r.same h]

theorem total (h : H) : t.total h=s.total h := by
  rw [ChainState.total,ChainState.total,r.lineage]
  simp only [r.nTx]

theorem linked {queue : List H} (h : Linked queue s)
    (hc : ∀b∈t.setBlockIndexCandidates,s.nChainTx b≠0) : Linked queue t := by
  constructor
  · rw [r.tree]
    exact h.grown
  · intro b p hp
    rw [r.pprev] at hp
    rw [r.same b,r.same p]
    exact h.height b p hp
  · intro b hb
    rw [r.tree] at hb
    rw [r.data,r.nChainTx]
    exact h.absent b hb
  · intro b hb
    rw [r.tree] at hb
    exact Nat.le_trans (h.tree b hb) (r.level b)
  · intro b hb
    rw [r.data] at hb
    obtain ⟨hl,ht,hu⟩ := h.data b hb
    rw [r.nTx,r.nChainTx,r.pprev,r.unlinked]
    exact ⟨Nat.le_trans hl (r.level b),ht,hu⟩
  · intro b hb
    rw [r.nChainTx] at hb
    rw [r.data,r.nChainTx,r.total,r.pprev]
    simpa only [r.nChainTx] using h.linked b hb
  · intro p b hpb
    rw [r.unlinked] at hpb
    rw [r.pprev,r.data,r.nChainTx,r.nChainTx]
    exact h.unlinked p b hpb
  · rw [r.unlinked]
    exact h.unlinkedOnce
  · intro b hb
    rw [r.data,r.nChainTx,r.pprev]
    simpa only [r.nChainTx] using h.queued b hb
  · exact h.queuedOnce
  · intro b hb
    rw [r.nChainTx]
    exact hc b hb

end Restatused

namespace Linked

variable {queue : List H} (hl : Linked queue s)

include hl

theorem mem_keys_of_data (hd : (s.status h).haveData=true) : h∈Forest.keys s.mapBlockIndex := by
  by_contra hno
  rw [(hl.absent h hno).1] at hd
  cases hd

theorem mem_keys (hh : s.nChainTx h≠0) : h∈Forest.keys s.mapBlockIndex := by
  by_contra hno
  exact hh (hl.absent h hno).2

theorem self_mem (hh : s.nChainTx h≠0) : h∈s.lineage h := hl.grown.self_mem (hl.mem_keys hh)

/-- The ancestors of a linked block are linked. -/
theorem lineage_linked (hh : s.nChainTx h≠0) : ∀a∈s.lineage h,s.nChainTx a≠0 :=
  hl.grown.forall_lineage (P := fun a => s.nChainTx a≠0)
    (fun b q hq hb => (hl.linked b hb).2.2 q hq) hh

theorem total_some (hp : s.pprev h=some p) : s.total h=(s.index h).nTx+s.total p := by
  rw [total,total,lineage,hl.grown.lineage_some hp,List.map_cons,List.sum_cons]
  rfl

theorem total_none (hh : h∈Forest.keys s.mapBlockIndex) (hp : s.pprev h=none) :
    s.total h=(s.index h).nTx := by
  rw [total,lineage,hl.grown.lineage_none hh hp,List.map_singleton,List.sum_singleton]

end Linked

end ChainState

end Zdeex.Validity
