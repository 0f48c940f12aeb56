import Mathlib.Data.List.TakeWhile
import Zdeex.Validity.CandidateOrder

namespace Zdeex.Validity

open Zdeex.Framework

variable {H : Type} [LinearOrder H]

namespace ChainState

variable {s t : ChainState H} {a b h p : H} {queue hs : List H} {flag : Status}

section Marks

theorem status_or (s : ChainState H) (hs : List H) (flag : Status) (h : H) :
    (s.orStatus hs flag).status h=if h∈hs then s.status h|||flag else s.status h := by
  rw [status,orStatus]
  dsimp only
  split_ifs
  · rfl
  · rfl

theorem status_and (s : ChainState H) (hs : List H) (mask : Status) (h : H) :
    (s.andStatus hs mask).status h=if h∈hs then s.status h&&&mask else s.status h := by
  rw [status,andStatus]
  dsimp only
  split_ifs
  · rfl
  · rfl

/-- A failure mark changes nothing in what a block has reached. -/
theorem restatused_or (s : ChainState H) (hs : List H) (hm : flag&&&BLOCK_VALID_MASK=0#32)
    (hd : flag&&&BLOCK_HAVE_DATA=0#32) : Restatused s (s.orStatus hs flag) := by
  refine ⟨rfl,rfl,?_,?_,?_⟩
  · intro h
    rw [status_or]
    change (if h∈hs then _ else _)=_
    split_ifs
    · rfl
    · rfl
  · intro h
    rw [status_or]
    split_ifs
    · exact haveData_or_flag _ hd
    · rfl
  · intro h
    rw [status_or]
    split_ifs
    · exact (level_or_flag _ hm).ge
    · exact Nat.le_refl _

theorem restatused_clear (s : ChainState H) (hs : List H) :
    Restatused s (s.andStatus hs (~~~BLOCK_FAILED_MASK)) := by
  refine ⟨rfl,rfl,?_,?_,?_⟩
  · intro h
    rw [status_and]
    change (if h∈hs then _ else _)=_
    split_ifs
    · rfl
    · rfl
  · intro h
    rw [status_and]
    split_ifs
    · exact haveData_and_flag _ (by decide)
    · rfl
  · intro h
    rw [status_and]
    split_ifs
    · exact (level_and_flag _ (by decide)).ge
    · exact Nat.le_refl _

theorem mem_erase : h∈(s.eraseCandidates hs).setBlockIndexCandidates ↔
    h∈s.setBlockIndexCandidates ∧ h∉hs := by
  rw [eraseCandidates]
  dsimp only
  rw [List.mem_filter,decide_eq_true_iff]

/-- Marking blocks as failed and taking them out of the set. -/
theorem restatused_mark (s : ChainState H) (hs hs' : List H) (hm : flag&&&BLOCK_VALID_MASK=0#32)
    (hd : flag&&&BLOCK_HAVE_DATA=0#32) :
    Restatused s ((s.orStatus hs flag).eraseCandidates hs') :=
  (restatused_or s hs hm hd).trans ⟨rfl,rfl,fun _ => rfl,fun _ => rfl,fun _ => Nat.le_refl _⟩

end Marks

section Lineages

/-- The heights fall on the way to the root. -/
theorem Linked.height_le (hl : Linked queue s) (ha : a∈s.lineage h) :
    (s.index a).nHeight≤(s.index h).nHeight :=
  hl.grown.forall_lineage (P := fun a => (s.index a).nHeight≤(s.index h).nHeight)
    (fun b q hq hb => by
      have hheight := hl.height b q hq
      omega) (Nat.le_refl _) a ha

theorem Linked.not_mem_parent (hl : Linked queue s) (hp : s.pprev h=some p) : h∉s.lineage p := by
  intro hmem
  have hheight := hl.height h p hp
  have hle := hl.height_le hmem
  omega

theorem Linked.not_mem_rest (hl : Linked queue s) {rest : List H} (hr : s.lineage h=h::rest) :
    h∉rest := by
  have hkey : h∈Forest.keys s.mapBlockIndex := by
    by_contra hno
    rw [lineage,Forest.lineage_of_not_mem hno] at hr
    cases hr
  cases hp : s.pprev h with
  | none =>
    have hnone := hl.grown.lineage_none hkey hp
    rw [lineage,hnone] at hr
    rw [(List.cons.inj hr).2.symm]
    exact List.not_mem_nil
  | some p =>
    have hsome := hl.grown.lineage_some hp
    rw [lineage,hsome] at hr
    rw [(List.cons.inj hr).2.symm]
    exact hl.not_mem_parent hp

theorem Linked.lineage_head (hl : Linked queue s) (hh : h∈Forest.keys s.mapBlockIndex) :
    (s.lineage h).head?=some h := by
  cases hp : s.pprev h with
  | none =>
    have hnone := hl.grown.lineage_none hh hp
    rw [lineage,hnone]
    rfl
  | some p =>
    have hsome := hl.grown.lineage_some hp
    rw [lineage,hsome]
    rfl

/-- The active chain contains the ancestors of its blocks. -/
theorem Covering.closed (hc : Covering s) (hl : Linked queue s) (hh : h∈s.chainActive)
    (ha : a∈s.lineage h) : a∈s.chainActive := by
  cases htip : s.tip with
  | none =>
    rw [List.head?_eq_none_iff.mp htip] at hh
    cases hh
  | some p =>
    rw [hc.active p htip] at hh ⊢
    exact hl.grown.lineage_trans hh ha

/-- Behind its branch, a block descends from the active chain. -/
theorem Covering.branch_or_active (hc : Covering s) (hl : Linked queue s) (ha : a∈s.lineage h) :
    a∈s.branch h ∨ a∈s.chainActive := by
  have hsplit := List.takeWhile_append_dropWhile (p := fun a => decide (a∉s.chainActive))
    (l := s.lineage h)
  cases hrest : (s.lineage h).dropWhile (fun a => decide (a∉s.chainActive)) with
  | nil =>
    rw [hrest,List.append_nil] at hsplit
    rw [branch,hsplit]
    exact .inl ha
  | cons x xs =>
    have hx : x∈s.chainActive := by
      have hhead := List.head?_dropWhile_not (fun a => decide (a∉s.chainActive)) (s.lineage h)
      rw [hrest] at hhead
      simpa using hhead
    rw [hrest] at hsplit
    have hline := hl.grown.lineage_split hsplit.symm
    rw [← hsplit,List.mem_append] at ha
    rcases ha with ha | ha
    · exact .inl ha
    · rw [← hline] at ha
      exact .inr (hc.closed hl hx ha)

theorem mem_lineage_of_branch (ha : a∈s.branch h) : a∈s.lineage h :=
  (List.takeWhile_sublist _).subset ha

theorem not_active_of_branch (ha : a∈s.branch h) : a∉s.chainActive := by
  have hd := List.mem_takeWhile_imp
    (show a∈(s.lineage h).takeWhile (fun a => decide (a∉s.chainActive)) from ha)
  exact of_decide_eq_true hd

end Lineages

section Best

theorem restatused_raise (s : ChainState H) : Restatused s s.raiseBestTip := by
  rw [raiseBestTip]
  cases s.tip with
  | none => exact Restatused.refl s
  | some p =>
    cases s.bestTip with
    | none => exact ⟨rfl,rfl,fun _ => rfl,fun _ => rfl,fun _ => Nat.le_refl _⟩
    | some f =>
      dsimp only
      split_ifs
      · exact Restatused.refl s
      · exact ⟨rfl,rfl,fun _ => rfl,fun _ => rfl,fun _ => Nat.le_refl _⟩

/-- The chain of the tip is clean. -/
theorem Covering.clean_tip (hc : Covering s) (htip : s.tip=some p) :
    s.nChainTx p≠0 ∧ s.Clean p := by
  refine ⟨(hc.standing p (List.mem_of_mem_head? htip)).1,?_⟩
  intro a ha
  rw [← hc.active p htip] at ha
  exact (hc.standing a ha).2

/-- A new best tip needs less of the set. -/
theorem Covering.raiseTo (hc : Covering s) (htip : s.tip=some p)
    (hle : ∀f∈s.bestTip,s.rank f ≤ s.rank p) : Chosen {s with bestTip := some p} := by
  refine ⟨⟨hc.active,hc.standing,?_,?_⟩,?_⟩
  · intro h hh hf hbest
    apply hc.covered h hh hf
    intro f hfb
    exact (hle f hfb).trans (hbest p rfl)
  · intro f hfb
    obtain rfl := Option.some.inj hfb
    exact hc.clean_tip htip
  · intro q hq
    have hqp : q=p := Option.some.inj (hq.symm.trans htip)
    exact ⟨p,rfl,by rw [hqp]⟩

theorem Covering.raise (hc : Covering s) : Chosen s.raiseBestTip := by
  rw [raiseBestTip]
  cases htip : s.tip with
  | none =>
    refine ⟨hc,?_⟩
    intro q hq
    rw [htip] at hq
    cases hq
  | some p =>
    cases hbest : s.bestTip with
    | none =>
      apply hc.raiseTo htip
      intro f hf
      rw [hbest] at hf
      cases hf
    | some f =>
      dsimp only
      split_ifs with hw
      · refine ⟨hc,?_⟩
        intro q hq
        have hqp : q=p := Option.some.inj (hq.symm.trans htip)
        refine ⟨f,hbest,?_⟩
        rw [hqp]
        exact (workComparator_iff.mp hw).le
      · apply hc.raiseTo htip
        intro g hg
        have hgf : g=f := Option.some.inj (hg.symm.trans hbest)
        rw [hgf]
        exact workComparator_false.mp (by simpa using hw)

theorem raise_cases (s : ChainState H) :
    s.raiseBestTip=s ∨ ∃p,s.tip=some p ∧ s.raiseBestTip={s with bestTip := some p} := by
  rw [raiseBestTip]
  cases s.tip with
  | none => exact .inl rfl
  | some p =>
    cases s.bestTip with
    | none => exact .inr ⟨p,rfl,rfl⟩
    | some f =>
      dsimp only
      split_ifs
      · exact .inl rfl
      · exact .inr ⟨p,rfl,rfl⟩

/-- The best tip is always a candidate. -/
theorem Chosen.best_mem (hc : Chosen s) (hl : Linked queue s) {f : H} (hf : f∈s.bestTip) :
    f∈s.setBlockIndexCandidates := by
  obtain ⟨hn,hclean⟩ := hc.best f hf
  apply hc.covered f hn (hclean f (hl.self_mem hn))
  intro g hg
  have hgf : g=f := Option.some.inj (hg.symm.trans hf)
  rw [hgf]

/-- Pruning keeps what is not worse than the best tip, so the set does not run
empty. -/
theorem Chosen.prune (hc : Chosen s) (hl : Linked queue s) (htip : s.tip=some p) :
    s.pruneBlockIndexCandidates=some (s.dropWorse p) ∧ Chosen (s.dropWorse p) := by
  obtain ⟨f,hf,hpf⟩ := hc.above p htip
  have hkeep : ∀h∈s.setBlockIndexCandidates,s.rank f ≤ s.rank h →
      h∈(s.dropWorse p).setBlockIndexCandidates := by
    intro h hh hle
    refine List.mem_filter.mpr ⟨hh,?_⟩
    rw [workComparator_false.mpr (hpf.trans hle)]
    rfl
  have hmem := hkeep f (hc.best_mem hl hf) (le_refl _)
  constructor
  · rw [pruneBlockIndexCandidates,htip]
    dsimp only
    rw [if_neg (List.ne_nil_of_mem hmem)]
  · refine ⟨⟨hc.active,hc.standing,?_,hc.best⟩,hc.above⟩
    intro h hh hfail hbest
    exact hkeep h (hc.covered h hh hfail hbest) (hbest f hf)

end Best

section MostWork

/-- What `FindMostWorkChain` may do to the state: marks below marks, and candidates
with a mark behind them leave the set. -/
structure Weeded (s t : ChainState H) : Prop where
  restatused : Restatused s t
  chain : t.chainActive=s.chainActive
  best : t.bestTip=s.bestTip
  marks : ∀h,(s.status h).failed=true → (t.status h).failed=true
  clean : ∀h,s.Clean h → t.Clean h
  fewer : ∀h∈t.setBlockIndexCandidates,h∈s.setBlockIndexCandidates
  kept : ∀h∈s.setBlockIndexCandidates,s.Clean h → h∈t.setBlockIndexCandidates

theorem Weeded.refl (s : ChainState H) : Weeded s s :=
  ⟨Restatused.refl s,rfl,rfl,fun _ h => h,fun _ h => h,fun _ h => h,fun _ h _ => h⟩

theorem Weeded.trans {u : ChainState H} (h₁ : Weeded s t) (h₂ : Weeded t u) : Weeded s u where
  restatused := h₁.restatused.trans h₂.restatused
  chain := h₂.chain.trans h₁.chain
  best := h₂.best.trans h₁.best
  marks h hf := h₂.marks h (h₁.marks h hf)
  clean h hc := h₂.clean h (h₁.clean h hc)
  fewer h hh := h₁.fewer h (h₂.fewer h hh)
  kept h hh hc := h₂.kept h (h₁.kept h hh hc) (h₁.clean h hc)

theorem Weeded.tip (w : Weeded s t) : t.tip=s.tip := by
  rw [ChainState.tip,w.chain]
  rfl

/-- A candidate with a marked block `b` on its branch: everything above `b` is marked
too and taken out. -/
theorem dropChain_eq (hf : (s.status b).failed=true) :
    s.dropChain hs b=(s.orStatus hs BLOCK_FAILED_CHILD).eraseCandidates (hs++[b]) := by
  rw [dropChain,if_pos hf]

theorem status_drop_of_not_mem (hf : (s.status b).failed=true) (hh : h∉hs) :
    (s.dropChain hs b).status h=s.status h := by
  rw [dropChain_eq hf]
  change (s.orStatus hs BLOCK_FAILED_CHILD).status h=_
  rw [status_or,if_neg hh]

theorem marked_drop (hf : (s.status b).failed=true) (hh : h∈hs) :
    ((s.dropChain hs b).status h).failed=true := by
  rw [dropChain_eq hf]
  change ((s.orStatus hs BLOCK_FAILED_CHILD).status h).failed=true
  rw [status_or,if_pos hh]
  exact failed_or_set _ (by decide)

theorem weeded_drop (hf : (s.status b).failed=true) (hs' : ∀a∈hs,b∈s.lineage a)
    (hkeys : ∀h∈s.setBlockIndexCandidates,h∈s.lineage h)
    (hl : Linked queue s) : Weeded s (s.dropChain hs b) := by
  have hr : Restatused s (s.dropChain hs b) := by
    rw [dropChain_eq hf]
    exact restatused_mark s hs _ (by decide) (by decide)
  have hclean : ∀h,s.Clean h → ∀a∈s.lineage h,a∉hs ∧ a≠b := by
    intro h hc a ha
    constructor
    · intro hmem
      have hb := hc b (hl.grown.lineage_trans ha (hs' a hmem))
      rw [hf] at hb
      cases hb
    · rintro rfl
      have hb := hc a ha
      rw [hf] at hb
      cases hb
  refine ⟨hr,?_,?_,?_,?_,?_,?_⟩
  · rw [dropChain_eq hf]
    rfl
  · rw [dropChain_eq hf]
    rfl
  · intro h hh
    by_cases hmem : h∈hs
    · exact marked_drop hf hmem
    · rw [status_drop_of_not_mem hf hmem]
      exact hh
  · intro h hc a ha
    rw [hr.lineage] at ha
    rw [status_drop_of_not_mem hf (hclean h hc a ha).1]
    exact hc a ha
  · intro h hh
    rw [dropChain_eq hf] at hh
    exact (mem_erase.mp hh).1
  · intro h hh hc
    obtain ⟨hno,hne⟩ := hclean h hc h (hkeys h hh)
    rw [dropChain_eq hf]
    refine mem_erase.mpr ⟨hh,?_⟩
    intro hmem
    rcases List.mem_append.mp hmem with hmem | hmem
    · exact hno hmem
    · exact hne (List.mem_singleton.mp hmem)

/-- Weeding keeps the invariants when a block without a mark stays in the set. -/
theorem Chosen.weeded (hc : Chosen s) (w : Weeded s t)
    (hact : ∀h∈s.chainActive,t.status h=s.status h)
    (hcov : ∀h∈s.setBlockIndexCandidates,(t.status h).failed=false →
      h∈t.setBlockIndexCandidates) : Chosen t := by
  have hr := w.restatused
  refine ⟨⟨?_,?_,?_,?_⟩,?_⟩
  · intro p hp
    rw [w.tip] at hp
    rw [w.chain,hr.lineage]
    exact hc.active p hp
  · intro h hh
    rw [w.chain] at hh
    rw [hr.nChainTx,hact h hh]
    exact hc.standing h hh
  · intro h hh hf hbest
    rw [hr.nChainTx] at hh
    have hold : (s.status h).failed=false := by
      by_contra hno
      rw [w.marks h (by simpa using hno)] at hf
      cases hf
    refine hcov h (hc.covered h hh hold ?_) hf
    intro f hfb
    rw [← hr.rank f,← hr.rank h]
    apply hbest
    rw [w.best]
    exact hfb
  · intro f hfb
    rw [w.best] at hfb
    obtain ⟨hn,hclean⟩ := hc.best f hfb
    rw [hr.nChainTx]
    exact ⟨hn,w.clean f hclean⟩
  · intro p hp
    rw [w.tip] at hp
    obtain ⟨f,hfb,hle⟩ := hc.above p hp
    rw [w.best]
    refine ⟨f,hfb,?_⟩
    rw [hr.rank,hr.rank]
    exact hle

section Unusable

variable {m : H} {rest : List H} (hl : Linked [] s) (hc : Chosen s)
  (hm : m∈s.setBlockIndexCandidates) (hpath : (s.branch m).dropWhile s.usable=b::rest)

include hpath

theorem branch_split : (s.branch m).takeWhile s.usable++b::rest=s.branch m := by
  rw [← hpath]
  exact List.takeWhile_append_dropWhile

theorem unusable_mem : b∈s.branch m := by
  rw [← branch_split hpath]
  exact List.mem_append_right _ List.mem_cons_self

include hl

/-- The blocks before the unusable one descend from it. -/
theorem unusable_under : ∀a∈(s.branch m).takeWhile s.usable,b∈s.lineage a := by
  intro a ha
  have hwhole := List.takeWhile_append_dropWhile (p := fun a => decide (a∉s.chainActive))
    (l := s.lineage m)
  obtain ⟨l₁,l₂,hl₁⟩ := List.append_of_mem ha
  have hm' : s.lineage m=l₁++a::(l₂++b::(rest++(s.lineage m).dropWhile
      (fun a => decide (a∉s.chainActive)))) := by
    nth_rewrite 1 [← hwhole]
    change s.branch m++_=_
    rw [← branch_split hpath,hl₁]
    simp
  have hline := hl.grown.lineage_split hm'
  change b∈Forest.lineage s.mapBlockIndex a
  rw [hline]
  exact List.mem_cons_of_mem a (List.mem_append_right l₂ List.mem_cons_self)

include hm

theorem unusable_linked : s.nChainTx b≠0 :=
  hl.lineage_linked (hl.candidates m hm) b (mem_lineage_of_branch (unusable_mem hpath))

/-- No data is missing, so the block is marked. -/
theorem unusable_failed : (s.status b).failed=true := by
  have hhead := List.head?_dropWhile_not s.usable (s.branch m)
  rw [hpath] at hhead
  have hunusable : s.usable b=false := by simpa using hhead
  rw [usable,(hl.linked b (unusable_linked hl hm hpath)).1,Bool.and_true] at hunusable
  simpa using hunusable

include hc

/-- The candidate itself is among the blocks that go. -/
theorem candidate_dropped : m∈(s.branch m).takeWhile s.usable++[b] := by
  have hlinked := hl.candidates m hm
  have hbranch := unusable_mem hpath
  have hfirst : m∈s.branch m := by
    rcases hc.branch_or_active hl (hl.self_mem hlinked) with hin | hactive
    · exact hin
    · exact absurd (hc.closed hl hactive (mem_lineage_of_branch hbranch))
        (not_active_of_branch hbranch)
  have hhead : (s.branch m).head?=some m := by
    rw [branch,List.head?_takeWhile,hl.lineage_head (hl.mem_keys hlinked)]
    simp [not_active_of_branch hfirst]
  rw [← branch_split hpath] at hhead
  cases hgood : (s.branch m).takeWhile s.usable with
  | nil =>
    rw [hgood] at hhead
    have hbm : b=m := Option.some.inj hhead
    rw [hbm]
    exact List.mem_singleton_self m
  | cons x xs =>
    rw [hgood] at hhead
    have hxm : x=m := Option.some.inj hhead
    rw [hxm]
    exact List.mem_cons_self

/-- One round that does not find a usable candidate. -/
theorem dropChain_ok : Linked [] (s.dropChain ((s.branch m).takeWhile s.usable) b) ∧
    Chosen (s.dropChain ((s.branch m).takeWhile s.usable) b) ∧
    Weeded s (s.dropChain ((s.branch m).takeWhile s.usable) b) ∧
    (s.dropChain ((s.branch m).takeWhile s.usable) b).setBlockIndexCandidates.length<
      s.setBlockIndexCandidates.length := by
  have hf := unusable_failed hl hm hpath
  have hgone := candidate_dropped hl hc hm hpath
  have hw := weeded_drop hf (unusable_under hl hpath)
    (fun h hh => hl.self_mem (hl.candidates h hh)) hl
  refine ⟨hw.restatused.linked hl (fun h hh => hl.candidates h (hw.fewer h hh)),?_,hw,?_⟩
  · apply hc.weeded hw
    · intro h hh
      apply status_drop_of_not_mem hf
      intro hmem
      exact not_active_of_branch ((List.takeWhile_sublist _).subset hmem) hh
    · intro h hh hclean
      rw [dropChain_eq hf]
      refine mem_erase.mpr ⟨hh,?_⟩
      intro hmem
      rcases List.mem_append.mp hmem with hmem | hmem
      · rw [marked_drop hf hmem] at hclean
        cases hclean
      · rw [List.mem_singleton] at hmem
        subst hmem
        rw [hw.marks h hf] at hclean
        cases hclean
  · have hcount : (s.dropChain ((s.branch m).takeWhile s.usable) b).setBlockIndexCandidates=
        s.setBlockIndexCandidates.filter
          (fun h => decide (h∉(s.branch m).takeWhile s.usable++[b])) := by
      rw [dropChain_eq hf]
      rfl
    rw [hcount]
    refine List.length_filter_lt_length_iff_exists.mpr ⟨m,hm,?_⟩
    intro hkeep
    exact of_decide_eq_true hkeep hgone

end Unusable

/-- The way back from a candidate is usable, so nothing on it is marked. -/
theorem Chosen.clean_of_usable (hc : Chosen s) (hl : Linked queue s) {m : H}
    (hpath : (s.branch m).dropWhile s.usable=[]) : s.Clean m := by
  intro a ha
  rcases hc.branch_or_active hl ha with hbranch | hactive
  · have husable := List.dropWhile_eq_nil_iff.mp hpath a hbranch
    rw [usable,Bool.and_eq_true] at husable
    simpa using husable.1
  · exact (hc.standing a hactive).2

/-- The assertion on the way back holds. -/
theorem Linked.linkedUp (hl : Linked queue s) {m : H} (hm : s.nChainTx m≠0) {l : List H}
    (hsub : ∀a∈l,a∈s.lineage m) : s.linkedUp l=true := by
  rw [ChainState.linkedUp,List.all_eq_true]
  intro a ha
  have hlinked := hl.lineage_linked hm a (hsub a ha)
  simp [hlinked]

/-- What `FindMostWorkChain` returns: the greatest candidate that is left, with
nothing marked behind it. -/
structure MostWork (s t : ChainState H) (r : Option H) : Prop where
  linked : Linked [] t
  chosen : Chosen t
  weeded : Weeded s t
  none : r=none → t.setBlockIndexCandidates=[]
  best : ∀m∈r,m∈t.setBlockIndexCandidates ∧ t.Clean m ∧
    ∀a∈t.setBlockIndexCandidates,t.rank a≤t.rank m

theorem findMostWorkLoop_ok {n : Nat} (hn : s.setBlockIndexCandidates.length<n) (hl : Linked [] s)
    (hc : Chosen s) : ∃t r,findMostWorkLoop n s=some (t,r) ∧ MostWork s t r := by
  induction n generalizing s with
  | zero => omega
  | succ n ih =>
    rw [findMostWorkLoop]
    cases hfirst : s.rbegin s.setBlockIndexCandidates with
    | none =>
      refine ⟨s,none,rfl,hl,hc,Weeded.refl s,fun _ => rbegin_eq_none hfirst,?_⟩
      intro m hm
      cases hm
    | some m =>
      obtain ⟨hm,hmax⟩ := rbegin_spec hfirst
      have hlinked := hl.candidates m hm
      have hsub : ∀a∈s.branch m,a∈s.lineage m := fun a ha => mem_lineage_of_branch ha
      dsimp only
      cases hpath : (s.branch m).dropWhile s.usable with
      | nil =>
        have hup : s.linkedUp ((s.branch m).takeWhile s.usable)=true := by
          apply hl.linkedUp hlinked
          intro a ha
          exact hsub a ((List.takeWhile_sublist _).subset ha)
        dsimp only
        rw [if_pos hup]
        refine ⟨s,some m,rfl,hl,hc,Weeded.refl s,fun hno => (by cases hno),?_⟩
        intro m' hm'
        obtain rfl := Option.some.inj hm'
        exact ⟨hm,hc.clean_of_usable hl hpath,hmax⟩
      | cons b rest =>
        have hup : s.linkedUp ((s.branch m).takeWhile s.usable++[b])=true := by
          apply hl.linkedUp hlinked
          intro a ha
          rcases List.mem_append.mp ha with ha | ha
          · exact hsub a ((List.takeWhile_sublist _).subset ha)
          · rw [List.mem_singleton.mp ha]
            exact hsub b (unusable_mem hpath)
        obtain ⟨hl',hc',hw,hless⟩ := dropChain_ok hl hc hm hpath
        obtain ⟨t,r,hloop,hr⟩ := ih (by omega) hl' hc'
        dsimp only
        rw [if_pos hup]
        exact ⟨t,r,hloop,hr.linked,hr.chosen,hw.trans hr.weeded,hr.none,hr.best⟩

theorem findMostWorkChain_ok (hl : Linked [] s) (hc : Chosen s) :
    ∃t r,s.findMostWorkChain=some (t,r) ∧ MostWork s t r :=
  findMostWorkLoop_ok (Nat.lt_succ_self _) hl hc

end MostWork

end ChainState

end Zdeex.Validity
