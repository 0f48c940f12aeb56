import Zdeex.Validity.Choosing

namespace Zdeex.Validity

open Zdeex.Framework

variable {H : Type} [LinearOrder H]

namespace ChainState

variable {s t : ChainState H} {a b h p : H} {queue : List H}

section Invalid

theorem restatused_invalid (s : ChainState H) (b : H) : Restatused s (s.invalidBlockFound b) :=
  restatused_mark s [b] [b] (by decide) (by decide)

theorem status_invalid_of_ne (hne : h≠b) : (s.invalidBlockFound b).status h=s.status h := by
  change (s.orStatus [b] BLOCK_FAILED_VALID).status h=_
  rw [status_or,if_neg (fun hmem => hne (List.mem_singleton.mp hmem))]

theorem marked_invalid : ((s.invalidBlockFound b).status b).failed=true := by
  change ((s.orStatus [b] BLOCK_FAILED_VALID).status b).failed=true
  rw [status_or,if_pos (List.mem_singleton_self b)]
  exact failed_or_set _ (by decide)

theorem mem_invalid : h∈(s.invalidBlockFound b).setBlockIndexCandidates ↔
    h∈s.setBlockIndexCandidates ∧ h≠b := by
  rw [invalidBlockFound,mem_erase,List.mem_singleton]
  rfl

theorem Linked.invalid (hl : Linked [] s) : Linked [] (s.invalidBlockFound b) :=
  (restatused_invalid s b).linked hl (fun h hh => hl.candidates h (mem_invalid.mp hh).1)

/-- A block off the active chain and off that of the best tip may fail. -/
theorem Chosen.invalid (hc : Chosen s) (hact : b∉s.chainActive)
    (hbest : ∀f∈s.bestTip,b∉s.lineage f) : Chosen (s.invalidBlockFound b) := by
  have hr := restatused_invalid s b
  refine ⟨⟨hc.active,?_,?_,?_⟩,?_⟩
  · intro h hh
    have hne : h≠b := by
      rintro rfl
      exact hact hh
    rw [hr.nChainTx,status_invalid_of_ne hne]
    exact hc.standing h hh
  · intro h hh hf hle
    have hne : h≠b := by
      rintro rfl
      rw [marked_invalid] at hf
      cases hf
    rw [hr.nChainTx] at hh
    rw [status_invalid_of_ne hne] at hf
    refine mem_invalid.mpr ⟨hc.covered h hh hf ?_,hne⟩
    intro f hfb
    rw [← hr.rank f,← hr.rank h]
    exact hle f hfb
  · intro f hfb
    obtain ⟨hn,hclean⟩ := hc.best f hfb
    rw [hr.nChainTx]
    refine ⟨hn,?_⟩
    intro a ha
    rw [hr.lineage] at ha
    have hne : a≠b := by
      rintro rfl
      exact hbest f hfb ha
    rw [status_invalid_of_ne hne]
    exact hclean a ha
  · intro q hq
    obtain ⟨f,hfb,hle⟩ := hc.above q hq
    refine ⟨f,hfb,?_⟩
    rw [hr.rank,hr.rank]
    exact hle

end Invalid

section Invalidate

/-- The state while `InvalidateBlock` takes blocks off the active chain: what is left
of it stands, up to the block itself. -/
structure Cut (b : H) (s : ChainState H) : Prop where
  linked : Linked [] s
  active : ∀p,s.tip=some p → s.chainActive=s.lineage p
  standing : ∀h∈s.chainActive,s.nChainTx h≠0 ∧ (h≠b → (s.status h).failed=false)

/-- Takes the tip off. -/
def cutTip (s : ChainState H) (w : H) (rest : List H) : ChainState H :=
  {(s.orStatus [w] BLOCK_FAILED_CHILD).eraseCandidates [w] with chainActive := rest}

theorem restatused_cut (s : ChainState H) (w : H) (rest : List H) :
    Restatused s (s.cutTip w rest) :=
  (restatused_mark s [w] [w] (by decide) (by decide)).trans
    ⟨rfl,rfl,fun _ => rfl,fun _ => rfl,fun _ => Nat.le_refl _⟩

theorem mem_cut {w : H} {rest : List H} (hh : h∈(s.cutTip w rest).setBlockIndexCandidates) :
    h∈s.setBlockIndexCandidates :=
  (mem_erase.mp hh).1

theorem Cut.cut (hc : Cut b s) {w : H} {rest : List H} (hchain : s.chainActive=w::rest) :
    Cut b (s.cutTip w rest) := by
  have hr := restatused_cut s w rest
  have hline : s.lineage w=w::rest := by
    rw [← hc.active w (by rw [tip,hchain]; rfl),hchain]
  have hfresh := hc.linked.not_mem_rest hline
  refine ⟨hr.linked hc.linked (fun h hh => hc.linked.candidates h (mem_cut hh)),?_,?_⟩
  · intro p hp
    obtain ⟨xs,hxs⟩ : ∃xs,rest=p::xs := List.head?_eq_some_iff.mp hp
    rw [hr.lineage]
    change rest=_
    rw [hxs] at hline ⊢
    have hsplit : Forest.lineage s.mapBlockIndex w=[w]++p::xs := hline
    exact (hc.linked.grown.lineage_split hsplit).symm
  · intro h hh
    obtain ⟨hn,hf⟩ := hc.standing h (by rw [hchain]; exact List.mem_cons_of_mem w hh)
    rw [hr.nChainTx]
    refine ⟨hn,?_⟩
    intro hne
    have hhw : h∉[w] := by
      rw [List.mem_singleton]
      rintro rfl
      exact hfresh hh
    change ((s.orStatus [w] BLOCK_FAILED_CHILD).status h).failed=false
    rw [status_or,if_neg hhw]
    exact hf hne

/-- After the loop the block is off the chain. -/
theorem invalidateLoop_ok {l : List H} (hloop : invalidateLoop b l s=some t) (hc : Cut b s)
    (hchain : s.chainActive=l) : Cut b t ∧ b∉t.chainActive := by
  induction l generalizing s with
  | nil =>
    obtain rfl := Option.some.inj hloop
    rw [hchain]
    exact ⟨hc,List.not_mem_nil⟩
  | cons w rest ih =>
    rw [invalidateLoop] at hloop
    split_ifs at hloop with hin hrest
    · exact ih hloop (hc.cut hchain) rfl
    · obtain rfl := Option.some.inj hloop
      rw [hchain]
      exact ⟨hc,hin⟩

/-- Every block that belongs into the set for this tip is put there. -/
theorem Cut.refill (hc : Cut b s) (hb : b∉s.chainActive) (htip : s.tip=some p) :
    Linked [] (s.refill p) ∧ Chosen (s.refill p) := by
  have hr : Restatused s (s.refill p) :=
    ⟨rfl,rfl,fun _ => rfl,fun _ => rfl,fun _ => Nat.le_refl _⟩
  have hstanding : ∀h∈s.chainActive,s.nChainTx h≠0 ∧ (s.status h).failed=false := by
    intro h hh
    obtain ⟨hn,hf⟩ := hc.standing h hh
    refine ⟨hn,hf ?_⟩
    rintro rfl
    exact hb hh
  have hmem : ∀h,h∈(s.refill p).setBlockIndexCandidates ↔
      (h∈Forest.keys s.mapBlockIndex ∧ ((s.status h).isValid BLOCK_VALID_TRANSACTIONS &&
        s.nChainTx h≠0 && !s.workComparator h p)=true) ∨ h∈s.setBlockIndexCandidates := by
    intro h
    change h∈_ ∪ _ ↔ _
    rw [List.mem_union_iff,List.mem_filter]
  refine ⟨hr.linked hc.linked ?_,⟨⟨hc.active,hstanding,?_,?_⟩,?_⟩⟩
  · intro h hh
    rcases (hmem h).mp hh with ⟨-,hfit⟩ | hold
    · simp only [Bool.and_eq_true,decide_eq_true_eq] at hfit
      exact hfit.1.2
    · exact hc.linked.candidates h hold
  · intro h hh hf hle
    change s.nChainTx h≠0 at hh
    have hlevel := (hc.linked.data h (hc.linked.linked h hh).1).1
    have hvalid : (s.status h).isValid BLOCK_VALID_TRANSACTIONS=true := by
      change (s.status h).failed=false at hf
      rw [Status.isValid,hf,Bool.not_false,Bool.true_and]
      exact decide_eq_true hlevel
    have hnotworse : s.workComparator h p=false := workComparator_false.mpr (hle p rfl)
    refine (hmem h).mpr (.inl ⟨hc.linked.mem_keys hh,?_⟩)
    rw [hvalid,hnotworse]
    simpa using hh
  · intro f hfb
    obtain rfl := Option.some.inj hfb
    refine ⟨(hstanding p (List.mem_of_mem_head? htip)).1,?_⟩
    intro a ha
    have hin : a∈s.chainActive := by
      rw [hc.active p htip]
      exact ha
    exact (hstanding a hin).2
  · intro q hq
    have hqp : q=p := Option.some.inj (hq.symm.trans htip)
    exact ⟨p,rfl,by rw [hqp]⟩

theorem invalidate_ok (hrun : s.invalidateBlock b=some t) (hl : Linked [] s) (hc : Chosen s) :
    Linked [] t ∧ Chosen t ∧ t.tip=t.bestTip := by
  have hcut : Cut b (s.invalidBlockFound b) := by
    have hr := restatused_invalid s b
    refine ⟨hl.invalid,?_,?_⟩
    · intro p hp
      rw [hr.lineage]
      exact hc.active p hp
    · intro h hh
      obtain ⟨hn,hf⟩ := hc.standing h hh
      rw [hr.nChainTx]
      refine ⟨hn,?_⟩
      intro hne
      rw [status_invalid_of_ne hne]
      exact hf
  rw [invalidateBlock] at hrun
  cases hloop : invalidateLoop b s.chainActive (s.invalidBlockFound b) with
  | none =>
    rw [hloop] at hrun
    cases hrun
  | some u =>
    obtain ⟨hu,hb⟩ := invalidateLoop_ok hloop hcut rfl
    rw [hloop] at hrun
    dsimp only at hrun
    cases htip : u.tip with
    | none =>
      rw [htip] at hrun
      cases hrun
    | some p =>
      rw [htip] at hrun
      obtain rfl := Option.some.inj hrun
      obtain ⟨hl',hc'⟩ := hu.refill hb htip
      exact ⟨hl',hc',htip⟩

end Invalidate

section Reconsider

/-- Fewer marks, and whatever loses its mark is in the set if it belongs there. -/
theorem Chosen.relaxed (hc : Chosen s) (hr : Restatused s t) (hchain : t.chainActive=s.chainActive)
    (hbest : t.bestTip=s.bestTip)
    (hclear : ∀h,(s.status h).failed=false → (t.status h).failed=false)
    (hmore : ∀h∈s.setBlockIndexCandidates,h∈t.setBlockIndexCandidates)
    (hnew : ∀h,s.nChainTx h≠0 → (s.status h).failed=true → (t.status h).failed=false →
      (∀f∈s.bestTip,s.rank f ≤ s.rank h) → h∈t.setBlockIndexCandidates) : Chosen t := by
  have htip : t.tip=s.tip := by
    rw [tip,hchain]
    rfl
  refine ⟨⟨?_,?_,?_,?_⟩,?_⟩
  · intro p hp
    rw [htip] at hp
    rw [hchain,hr.lineage]
    exact hc.active p hp
  · intro h hh
    rw [hchain] at hh
    obtain ⟨hn,hf⟩ := hc.standing h hh
    rw [hr.nChainTx]
    exact ⟨hn,hclear h hf⟩
  · intro h hh hf hle
    rw [hr.nChainTx] at hh
    have hle' : ∀f∈s.bestTip,s.rank f ≤ s.rank h := by
      intro f hfb
      rw [← hr.rank f,← hr.rank h]
      apply hle
      rw [hbest]
      exact hfb
    cases hold : (s.status h).failed with
    | false => exact hmore h (hc.covered h hh hold hle')
    | true => exact hnew h hh hold hf hle'
  · intro f hfb
    rw [hbest] at hfb
    obtain ⟨hn,hclean⟩ := hc.best f hfb
    rw [hr.nChainTx]
    refine ⟨hn,?_⟩
    intro a ha
    rw [hr.lineage] at ha
    exact hclear a (hclean a ha)
  · intro q hq
    rw [htip] at hq
    obtain ⟨f,hfb,hle⟩ := hc.above q hq
    rw [hbest]
    refine ⟨f,hfb,?_⟩
    rw [hr.rank,hr.rank]
    exact hle

/-- Among the proper ancestors of a block, those with a mark that would belong into
the set are there already. -/
def AncestorsListed (s : ChainState H) (b : H) : Prop :=
  ∀a∈s.lineage b,a≠b → (s.status a).failed=true → s.nChainTx a≠0 →
    (∀p∈s.tip,s.workComparator a p=false) → a∈s.setBlockIndexCandidates

/-- The marks that `ReconsiderBlock` leaves, in its loop and above the block. -/
def cleared (s : ChainState H) (b : H) : ChainState H :=
  (s.andStatus (s.reconsidered b) (~~~BLOCK_FAILED_MASK)).andStatus (s.lineage b)
    (~~~BLOCK_FAILED_MASK)

theorem restatused_cleared (s : ChainState H) (b : H) (C : List H) :
    Restatused s {s.cleared b with setBlockIndexCandidates := C} :=
  ((restatused_clear s _).trans (restatused_clear _ _)).trans
    ⟨rfl,rfl,fun _ => rfl,fun _ => rfl,fun _ => Nat.le_refl _⟩

theorem status_cleared (s : ChainState H) (b h : H) : (s.cleared b).status h=
    if h∈s.lineage b then
      (if h∈s.reconsidered b then s.status h&&&~~~BLOCK_FAILED_MASK else s.status h)&&&
        ~~~BLOCK_FAILED_MASK
    else if h∈s.reconsidered b then s.status h&&&~~~BLOCK_FAILED_MASK else s.status h := by
  rw [cleared,status_and,status_and]

theorem marked_before (hf : (s.status h).failed=true) (hclear : ((s.cleared b).status h).failed=false) :
    h∈s.reconsidered b ∨ h∈s.lineage b := by
  by_contra hno
  obtain ⟨hin,hline⟩ := not_or.mp hno
  rw [status_cleared,if_neg hline,if_neg hin,hf] at hclear
  cases hclear

theorem cleared_of_clear (hf : (s.status h).failed=false) :
    ((s.cleared b).status h).failed=false := by
  rw [status_cleared]
  split_ifs
  · exact failed_cleared _
  · exact failed_cleared _
  · exact failed_cleared _
  · exact hf

theorem Linked.self_reconsidered (hl : Linked queue s) (hb : b∈Forest.keys s.mapBlockIndex)
    (hf : (s.status b).failed=true) : b∈s.reconsidered b := by
  have hfind : s.getAncestor b (s.index b).nHeight=some b := by
    obtain ⟨rest,hrest⟩ : ∃rest,s.lineage b=b::rest :=
      List.head?_eq_some_iff.mp (hl.lineage_head hb)
    rw [getAncestor,hrest]
    exact List.find?_cons_of_pos (decide_eq_true rfl)
  refine List.mem_filter.mpr ⟨hb,?_⟩
  rw [hfind,Status.isValid,hf]
  simp

/-- A linked block that loses its mark in the loop may become a candidate. -/
theorem Linked.fit_reconsidered (hl : Linked queue s) (hh : h∈s.reconsidered b)
    (hn : s.nChainTx h≠0) : h∈s.reconsideredFit b := by
  have hlevel := (hl.data h (hl.linked h hn).1).1
  have hvalid : (s.status h&&&~~~BLOCK_FAILED_MASK).isValid BLOCK_VALID_TRANSACTIONS=true := by
    rw [Status.isValid,failed_cleared,Bool.not_false,Bool.true_and,level_and_flag _ (by decide)]
    exact decide_eq_true hlevel
  refine List.mem_filter.mpr ⟨hh,?_⟩
  rw [status_and,if_pos hh,hvalid,(restatused_clear s _).nChainTx]
  simpa using hn

theorem linked_of_fit (hh : h∈s.reconsideredFit b) : s.nChainTx h≠0 := by
  have hkeep := (List.mem_filter.mp hh).2
  simp only [Bool.and_eq_true,decide_eq_true_eq] at hkeep
  rw [(restatused_clear s (s.reconsidered b)).nChainTx] at hkeep
  exact hkeep.2

/-- The proper ancestors are the only blocks that lose a mark outside the loop. -/
theorem AncestorsListed.mem (hlisted : AncestorsListed s b) (hl : Linked queue s)
    (hb : b∈Forest.keys s.mapBlockIndex) (hset : s.tip=s.bestTip) (hn : s.nChainTx h≠0)
    (hf : (s.status h).failed=true) (hno : h∉s.reconsidered b) (hline : h∈s.lineage b)
    (hle : ∀f∈s.bestTip,s.rank f ≤ s.rank h) : h∈s.setBlockIndexCandidates := by
  have hne : h≠b := by
    rintro rfl
    exact hno (hl.self_reconsidered hb hf)
  apply hlisted h hline hne hf hn
  intro p hp
  rw [hset] at hp
  exact workComparator_false.mpr (hle p hp)

/-- The set after `ReconsiderBlock` with a tip. -/
def reconsideredSet (s : ChainState H) (b p : H) : List H :=
  (s.reconsideredFit b).filter (fun h =>
    (s.andStatus (s.reconsidered b) (~~~BLOCK_FAILED_MASK)).workComparator p h) ∪
      s.setBlockIndexCandidates

theorem mem_reconsideredSet : h∈s.reconsideredSet b p ↔
    (h∈s.reconsideredFit b ∧ s.rank p<s.rank h) ∨ h∈s.setBlockIndexCandidates := by
  have hr := restatused_clear s (s.reconsidered b)
  rw [reconsideredSet,List.mem_union_iff,List.mem_filter,workComparator_iff,hr.rank,hr.rank]

theorem reconsider_cases (hrun : s.reconsiderBlock b=some t) :
    (s.tip=none ∧ s.reconsideredFit b=[] ∧ t=s.cleared b) ∨
    ∃p,s.tip=some p ∧ t={s.cleared b with setBlockIndexCandidates := s.reconsideredSet b p} := by
  have htip : (s.andStatus (s.reconsidered b) (~~~BLOCK_FAILED_MASK)).tip=s.tip := rfl
  rw [reconsiderBlock,htip] at hrun
  cases hp : s.tip with
  | none =>
    rw [hp] at hrun
    dsimp only at hrun
    split_ifs at hrun with hempty
    exact .inl ⟨rfl,hempty,(Option.some.inj hrun).symm⟩
  | some p =>
    rw [hp] at hrun
    exact .inr ⟨p,rfl,(Option.some.inj hrun).symm⟩

theorem reconsider_ok (hrun : s.reconsiderBlock b=some t) (hl : Linked [] s) (hc : Chosen s)
    (hb : b∈Forest.keys s.mapBlockIndex) (hset : s.tip=s.bestTip) (hlisted : AncestorsListed s b) :
    Linked [] t ∧ Chosen t ∧ t.tip=t.bestTip := by
  have hr := restatused_cleared s b
  obtain ⟨-,hempty,rfl⟩ | ⟨p,hp,rfl⟩ := reconsider_cases hrun
  · refine ⟨(hr s.setBlockIndexCandidates).linked hl hl.candidates,
      hc.relaxed (hr s.setBlockIndexCandidates) rfl rfl ?_ (fun h hh => hh) ?_,hset⟩
    · intro h hf
      exact cleared_of_clear hf
    · intro h hn hf hclear hle
      have hin : h∉s.reconsidered b := by
        intro hin
        have hmem := hl.fit_reconsidered hin hn
        rw [hempty] at hmem
        cases hmem
      exact hlisted.mem hl hb hset hn hf hin ((marked_before hf hclear).resolve_left hin) hle
  · refine ⟨(hr (s.reconsideredSet b p)).linked hl ?_,
      hc.relaxed (hr (s.reconsideredSet b p)) rfl rfl ?_ ?_ ?_,hset⟩
    · intro h hh
      rcases mem_reconsideredSet.mp hh with ⟨hfit,-⟩ | hin
      · exact linked_of_fit hfit
      · exact hl.candidates h hin
    · intro h hf
      exact cleared_of_clear hf
    · intro h hh
      exact mem_reconsideredSet.mpr (.inr hh)
    · intro h hn hf hclear hle
      apply mem_reconsideredSet.mpr
      by_cases hin : h∈s.reconsidered b
      · have hne : s.rank p≠s.rank h := by
          intro heq
          have hstands := (hc.standing p (List.mem_of_mem_head? hp)).2
          rw [rank_inj heq,hf] at hstands
          cases hstands
        have hbest : p∈s.bestTip := by
          rw [← hset]
          exact hp
        exact .inl ⟨hl.fit_reconsidered hin hn,lt_of_le_of_ne (hle p hbest) hne⟩
      · exact .inr (hlisted.mem hl hb hset hn hf hin
          ((marked_before hf hclear).resolve_left hin) hle)

end Reconsider

section Connect

variable {x : H} {v : ConnectVerdict}

theorem index_connect_of_ne (hne : h≠x) : (s.connectTip x v).index h=s.index h :=
  Function.update_of_ne hne _ _

theorem status_connect_of_ne (hne : h≠x) : (s.connectTip x v).status h=s.status h := by
  rw [status,index_connect_of_ne hne]
  rfl

theorem status_connect_cases : (s.connectTip x v).status x=s.status x ∨
    (s.connectTip x v).status x=IndexState.connectStatus (s.status x) v := by
  rw [status]
  change (Function.update s.index x _ x).nStatus=_ ∨ (Function.update s.index x _ x).nStatus=_
  rw [Function.update_self]
  cases s.pprev x with
  | none => exact .inl rfl
  | some p => exact .inr rfl

theorem index_connect_self : (s.connectTip x v).index x=
    {s.index x with nStatus := (s.connectTip x v).status x} := by
  have hself : ∃n,(s.connectTip x v).index x={s.index x with nStatus := n} :=
    ⟨_,Function.update_self x _ s.index⟩
  obtain ⟨n,hn⟩ := hself
  rw [status,hn]

/-- `ConnectTip` leaves the block without a mark, with its data and at least the level
it had. -/
theorem status_connect_self (hd : (s.status x).haveData=true) (hf : (s.status x).failed=false) :
    ((s.connectTip x v).status x).haveData=true ∧ ((s.connectTip x v).status x).failed=false ∧
    (s.status x).level≤((s.connectTip x v).status x).level := by
  obtain ⟨-,hlevel,hfailed,hdata⟩ := connectStatus_ready hf hd v
  rcases status_connect_cases (s := s) (x := x) (v := v) with heq | heq
  · rw [heq]
    exact ⟨hd,hf,Nat.le_refl _⟩
  · rw [heq]
    exact ⟨hdata,hfailed,hlevel⟩

theorem restatused_connect (hd : (s.status x).haveData=true) (hf : (s.status x).failed=false) :
    Restatused s (s.connectTip x v) := by
  obtain ⟨hdata,-,hlevel⟩ := status_connect_self (v := v) hd hf
  refine ⟨rfl,rfl,?_,?_,?_⟩
  · intro h
    by_cases hne : h=x
    · subst hne
      exact index_connect_self
    · rw [status_connect_of_ne hne,index_connect_of_ne hne]
      rfl
  · intro h
    by_cases hne : h=x
    · subst hne
      rw [hdata,hd]
    · rw [status_connect_of_ne hne]
  · intro h
    by_cases hne : h=x
    · subst hne
      exact hlevel
    · rw [status_connect_of_ne hne]

theorem failed_connect (hd : (s.status x).haveData=true) (hf : (s.status x).failed=false) (h : H) :
    ((s.connectTip x v).status h).failed=(s.status h).failed := by
  by_cases hne : h=x
  · subst hne
    rw [(status_connect_self hd hf).2.1,hf]
  · rw [status_connect_of_ne hne]

/-- The active chain with one more linked block. -/
theorem Chosen.connect (hc : Chosen s) (hl : Linked queue s) (hx : s.nChainTx x≠0)
    (hf : (s.status x).failed=false) (hp : s.pprev x=s.tip) :
    Covering (s.connectTip x v) := by
  have hd := (hl.linked x hx).1
  have hr := restatused_connect (v := v) hd hf
  have hfailed := failed_connect (v := v) hd hf
  have hchain : (s.connectTip x v).chainActive=x::s.chainActive := rfl
  refine ⟨?_,?_,?_,?_⟩
  · intro q hq
    have hqx : x=q := Option.some.inj hq
    rw [← hqx,hchain,hr.lineage]
    cases htip : s.tip with
    | none =>
      have hnone := hl.grown.lineage_none (hl.mem_keys hx) (hp.trans htip)
      rw [lineage,hnone,List.head?_eq_none_iff.mp htip]
    | some p =>
      have hsome := hl.grown.lineage_some (hp.trans htip)
      rw [lineage,hsome,hc.active p htip]
      rfl
  · intro h hh
    rw [hr.nChainTx,hfailed]
    rcases List.mem_cons.mp hh with rfl | hh
    · exact ⟨hx,hf⟩
    · exact hc.standing h hh
  · intro h hh hfh hle
    rw [hr.nChainTx] at hh
    rw [hfailed] at hfh
    apply hc.covered h hh hfh
    intro f hfb
    rw [← hr.rank f,← hr.rank h]
    exact hle f hfb
  · intro f hfb
    obtain ⟨hn,hclean⟩ := hc.best f hfb
    rw [hr.nChainTx]
    refine ⟨hn,?_⟩
    intro a ha
    rw [hr.lineage] at ha
    rw [hfailed]
    exact hclean a ha

/-- The step from one tip to the next, with the candidates pruned for it. -/
structure Advanced (s t : ChainState H) (x : H) : Prop where
  linked : Linked [] t
  chosen : Chosen t
  restatused : Restatused s t
  failed : ∀h,(t.status h).failed=(s.status h).failed
  chain : t.chainActive=x::s.chainActive
  best : t.bestTip=s.bestTip ∨ t.bestTip=some x

theorem advance_ok (hl : Linked [] s) (hc : Chosen s) (hx : s.nChainTx x≠0)
    (hf : (s.status x).failed=false) (hp : s.pprev x=s.tip) :
    ∃t,(s.connectTip x v).raiseBestTip.pruneBlockIndexCandidates=some t ∧ Advanced s t x := by
  have hd := (hl.linked x hx).1
  have hcov := hc.connect (v := v) hl hx hf hp
  have hr := restatused_connect (v := v) hd hf
  have hraise := hr.trans (restatused_raise (s.connectTip x v))
  have hfields : (s.connectTip x v).raiseBestTip.chainActive=x::s.chainActive ∧
      (s.connectTip x v).raiseBestTip.setBlockIndexCandidates=s.setBlockIndexCandidates ∧
      (∀h,(s.connectTip x v).raiseBestTip.status h=(s.connectTip x v).status h) ∧
      ((s.connectTip x v).raiseBestTip.bestTip=s.bestTip ∨
        (s.connectTip x v).raiseBestTip.bestTip=some x) := by
    rcases raise_cases (s.connectTip x v) with heq | ⟨q,hq,heq⟩
    · rw [heq]
      exact ⟨rfl,rfl,fun _ => rfl,.inl rfl⟩
    · rw [heq]
      exact ⟨rfl,rfl,fun _ => rfl,.inr hq.symm⟩
  obtain ⟨hchain,hset,hstatus,hbest⟩ := hfields
  have hl₁ : Linked [] (s.connectTip x v).raiseBestTip := by
    apply hraise.linked hl
    rw [hset]
    exact hl.candidates
  have htip : (s.connectTip x v).raiseBestTip.tip=some x := by
    rw [tip,hchain]
    rfl
  obtain ⟨hprune,hc₂⟩ := hcov.raise.prune hl₁ htip
  have hr₂ : Restatused (s.connectTip x v).raiseBestTip
      ((s.connectTip x v).raiseBestTip.dropWorse x) :=
    ⟨rfl,rfl,fun _ => rfl,fun _ => rfl,fun _ => Nat.le_refl _⟩
  refine ⟨_,hprune,?_,hc₂,hraise.trans hr₂,?_,hchain,hbest⟩
  · apply hr₂.linked hl₁
    intro h hh
    exact hl₁.candidates h (List.mem_filter.mp hh).1
  · intro h
    change ((s.connectTip x v).raiseBestTip.status h).failed=_
    rw [hstatus,failed_connect hd hf]

/-- A block on the way is not in the chain it is put on. -/
theorem Chosen.not_active_of_next (hc : Chosen s) (hl : Linked queue s) (hp : s.pprev x=s.tip) :
    x∉s.chainActive := by
  cases htip : s.tip with
  | none =>
    rw [List.head?_eq_none_iff.mp htip]
    exact List.not_mem_nil
  | some p =>
    rw [hc.active p htip]
    exact hl.not_mem_parent (hp.trans htip)

/-- Where the failing blocks may lie: on the chain of the best tip only blocks that are
active now. -/
def Sheltered (verdict : H → Verdict) (s : ChainState H) : Prop :=
  ∀f∈s.bestTip,∀a∈s.lineage f,verdict a=.invalid false → a∈s.chainActive

theorem Sheltered.advance {verdict : H → Verdict} (hsh : Sheltered verdict s)
    (ha : Advanced s t x) : Sheltered verdict t := by
  intro f hfb a hline hv
  rw [ha.restatused.lineage] at hline
  rcases ha.best with hb | hb
  · rw [hb] at hfb
    rw [ha.chain]
    exact List.mem_cons_of_mem x (hsh f hfb a hline hv)
  · have hfx : x=f := Option.some.inj (hb.symm.trans hfb)
    have htip : t.tip=some x := by
      rw [tip,ha.chain]
      rfl
    rw [ha.chosen.active x htip,ha.restatused.lineage,hfx]
    exact hline

/-- The connecting loop, for blocks that are linked and not marked. -/
theorem connectLoop_ok {verdict : H → Verdict} {old : Option H} {xs : List H}
    (hrun : connectLoop verdict old xs s=some t) (hl : Linked [] s) (hc : Chosen s)
    (hxs : ∀x∈xs,s.nChainTx x≠0 ∧ (s.status x).failed=false) (hsh : Sheltered verdict s) :
    Linked [] t ∧ Chosen t ∧ Restatused s t ∧ ∀f∈t.bestTip,f∈s.bestTip ∨ f∈xs := by
  induction xs generalizing s with
  | nil =>
    obtain rfl := Option.some.inj hrun
    exact ⟨hl,hc,Restatused.refl s,fun f hf => .inl hf⟩
  | cons x xs ih =>
    obtain ⟨hx,hf⟩ := hxs x List.mem_cons_self
    rw [connectLoop] at hrun
    by_cases hp : s.pprev x=s.tip
    · rw [if_neg (not_not_intro hp)] at hrun
      cases hv : verdict x with
      | invalid corruptionPossible =>
        rw [hv] at hrun
        dsimp only at hrun
        split_ifs at hrun with hempty hcorrupt
        · obtain rfl := Option.some.inj hrun
          exact ⟨hl,hc,Restatused.refl s,fun f hf => .inl hf⟩
        · obtain rfl := Option.some.inj hrun
          have hactive := hc.not_active_of_next hl hp
          refine ⟨hl.invalid,hc.invalid hactive ?_,restatused_invalid s x,fun f hf => .inl hf⟩
          intro f hfb hline
          apply hactive
          apply hsh f hfb x hline
          rw [hv]
          congr
          simpa using hcorrupt
      | connected v =>
        obtain ⟨u,hu,ha⟩ := advance_ok (v := v) hl hc hx hf hp
        rw [hv] at hrun
        dsimp only at hrun
        rw [hu] at hrun
        dsimp only at hrun
        have hbest : ∀f∈u.bestTip,f∈s.bestTip ∨ f∈x::xs := by
          intro f hfb
          rcases ha.best with hb | hb
          · rw [hb] at hfb
            exact .inl hfb
          · have hfx : x=f := Option.some.inj (hb.symm.trans hfb)
            rw [hfx]
            exact .inr List.mem_cons_self
        split_ifs at hrun with hmore
        · obtain rfl := Option.some.inj hrun
          exact ⟨ha.linked,ha.chosen,ha.restatused,hbest⟩
        · obtain ⟨hl',hc',hr',hb'⟩ := ih hrun ha.linked ha.chosen (by
            intro y hy
            rw [ha.restatused.nChainTx,ha.failed]
            exact hxs y (List.mem_cons_of_mem x hy)) (hsh.advance ha)
          refine ⟨hl',hc',ha.restatused.trans hr',?_⟩
          intro f hfb
          rcases hb' f hfb with hb | hb
          · exact hbest f hb
          · exact .inr (List.mem_cons_of_mem x hb)
    · rw [if_pos hp] at hrun
      cases hrun

end Connect

end ChainState

end Zdeex.Validity
