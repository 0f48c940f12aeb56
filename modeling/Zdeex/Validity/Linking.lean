import Mathlib.Tactic.Linarith
import Zdeex.Validity.CandidateOrder

namespace Zdeex.Validity

open Zdeex.Framework

variable {H : Type} [LinearOrder H]

namespace ChainState

variable {s : ChainState H} {b h p : H} {queue : List H}

section Link

theorem index_link_of_ne (hne : h≠b) : (s.linkBlock b).1.index h=s.index h :=
  Function.update_of_ne hne _ _

theorem index_link_self : ∃n,(s.linkBlock b).1.index b=
    {s.index b with nChainTx := n,nSequenceId := s.nBlockSequenceId} :=
  ⟨_,Function.update_self b _ s.index⟩

theorem status_link (s : ChainState H) (b h : H) : (s.linkBlock b).1.status h=s.status h := by
  by_cases hne : h=b
  · subst hne
    obtain ⟨n,hn⟩ := index_link_self (s := s) (b := h)
    rw [status,hn]
    rfl
  · rw [status,index_link_of_ne hne]
    rfl

theorem nTx_link (s : ChainState H) (b h : H) :
    ((s.linkBlock b).1.index h).nTx=(s.index h).nTx := by
  by_cases hne : h=b
  · subst hne
    obtain ⟨n,hn⟩ := index_link_self (s := s) (b := h)
    rw [hn]
  · rw [index_link_of_ne hne]

theorem height_link (s : ChainState H) (b h : H) :
    ((s.linkBlock b).1.index h).nHeight=(s.index h).nHeight := by
  by_cases hne : h=b
  · subst hne
    obtain ⟨n,hn⟩ := index_link_self (s := s) (b := h)
    rw [hn]
  · rw [index_link_of_ne hne]

theorem total_link (s : ChainState H) (b h : H) : (s.linkBlock b).1.total h=s.total h := by
  rw [total,total]
  simp only [nTx_link]
  rfl

theorem nChainTx_link_of_ne (hne : h≠b) : (s.linkBlock b).1.nChainTx h=s.nChainTx h := by
  rw [nChainTx,index_link_of_ne hne]
  rfl

/-- The count does not wrap around, so it is that of the whole chain. -/
theorem nChainTx_link_self (hl : Linked (b::queue) s) (hbound : s.total b<2^32) :
    (s.linkBlock b).1.nChainTx b=s.total b ∧ 0<s.total b := by
  obtain ⟨hdata,-,hparent⟩ := hl.queued b List.mem_cons_self
  obtain ⟨-,htx,-⟩ := hl.data b hdata
  rw [nChainTx]
  change (Function.update s.index b _ b).nChainTx=_ ∧ _
  rw [Function.update_self]
  dsimp only
  cases hp : s.pprev b with
  | none =>
    have htotal := hl.total_none (hl.mem_keys_of_data hdata) hp
    rw [htotal] at hbound ⊢
    dsimp only
    rw [Nat.zero_add,Nat.mod_eq_of_lt hbound]
    exact ⟨rfl,htx⟩
  | some p =>
    have htotal := hl.total_some hp
    have hprev := (hl.linked p (hparent p hp)).2.1
    dsimp only
    rw [hprev,Nat.add_comm,← htotal,Nat.mod_eq_of_lt hbound]
    exact ⟨rfl,by omega⟩

/-- A block to be linked does not wait for its parent. -/
theorem Linked.not_unlinked (hl : Linked queue s) (hb : b∈queue) : (p,b)∉s.mapBlocksUnlinked := by
  intro hmem
  obtain ⟨hp,-,hzero,-⟩ := hl.unlinked p b hmem
  exact (hl.queued b hb).2.2 p hp hzero

theorem mem_found : h∈(s.linkBlock b).2 ↔ (b,h)∈s.mapBlocksUnlinked := by
  constructor
  · intro hmem
    obtain ⟨x,hx,rfl⟩ := List.mem_map.mp hmem
    obtain ⟨hx,heq⟩ := List.mem_filter.mp hx
    have hfst : x.1=b := of_decide_eq_true heq
    rw [← hfst]
    exact hx
  · intro hmem
    exact List.mem_map.mpr ⟨(b,h),List.mem_filter.mpr ⟨hmem,decide_eq_true rfl⟩,rfl⟩

theorem mem_unlinked_link {x : H × H} :
    x∈(s.linkBlock b).1.mapBlocksUnlinked ↔ x∈s.mapBlocksUnlinked ∧ x.1≠b := by
  change x∈s.mapBlocksUnlinked.filter (fun x => decide (x.1≠b)) ↔ _
  rw [List.mem_filter,decide_eq_true_iff]

theorem found_nodup (h : s.mapBlocksUnlinked.Nodup) : (s.linkBlock b).2.Nodup := by
  apply List.Nodup.map_on _ (h.filter _)
  intro x hx y hy heq
  have hxb : x.1=b := of_decide_eq_true (List.mem_filter.mp hx).2
  have hyb : y.1=b := of_decide_eq_true (List.mem_filter.mp hy).2
  exact Prod.ext (hxb.trans hyb.symm) heq

theorem mem_candidates_link (hmem : h∈(s.linkBlock b).1.setBlockIndexCandidates) :
    h=b ∨ h∈s.setBlockIndexCandidates := by
  change h∈ite _ _ _ at hmem
  split_ifs at hmem
  · rw [List.mem_union_iff,List.mem_singleton] at hmem
    exact hmem
  · exact .inr hmem

theorem candidates_link_mono (hmem : h∈s.setBlockIndexCandidates) :
    h∈(s.linkBlock b).1.setBlockIndexCandidates := by
  change h∈ite _ _ _
  split_ifs
  · rw [List.mem_union_iff]
    exact .inr hmem
  · exact hmem

/-- The block enters the set unless it is worse than the tip. -/
theorem candidate_link_self
    (hb : ∀p∈s.tip,(s.linkBlock b).1.rank p≤(s.linkBlock b).1.rank b) :
    b∈(s.linkBlock b).1.setBlockIndexCandidates := by
  change b∈ite _ _ _
  rw [if_pos]
  · rw [List.mem_union_iff]
    exact .inl (List.mem_singleton_self b)
  · intro p hp
    exact workComparator_false.mpr (hb p hp)

theorem Linked.nChainTx_mono (hl : Linked (b::queue) s) (hh : s.nChainTx h≠0) :
    h≠b ∧ (s.linkBlock b).1.nChainTx h≠0 := by
  have hne : h≠b := by
    rintro rfl
    exact hh (hl.queued h List.mem_cons_self).2.1
  rw [nChainTx_link_of_ne hne]
  exact ⟨hne,hh⟩

/-- One pass links one block and queues those that waited for it. -/
theorem Linked.link (hl : Linked (b::queue) s) (hbound : s.total b<2^32) :
    Linked (queue++(s.linkBlock b).2) (s.linkBlock b).1 := by
  obtain ⟨hself,hpos⟩ := nChainTx_link_self hl hbound
  obtain ⟨hbdata,hbzero,hbparent⟩ := hl.queued b List.mem_cons_self
  have hmono : ∀h,s.nChainTx h≠0 → (s.linkBlock b).1.nChainTx h≠0 :=
    fun h hh => (hl.nChainTx_mono hh).2
  have hzero : ∀h,(s.linkBlock b).1.nChainTx h=0 → h≠b ∧ s.nChainTx h=0 := by
    intro h hh
    have hne : h≠b := by
      rintro rfl
      omega
    rw [nChainTx_link_of_ne hne] at hh
    exact ⟨hne,hh⟩
  have hqueue := List.nodup_cons.mp hl.queuedOnce
  constructor
  · exact hl.grown
  · intro h p hp
    rw [height_link,height_link]
    exact hl.height h p hp
  · intro h hh
    obtain ⟨hd,hn⟩ := hl.absent h hh
    have hne : h≠b := by
      rintro rfl
      rw [hd] at hbdata
      cases hbdata
    rw [status_link,nChainTx_link_of_ne hne]
    exact ⟨hd,hn⟩
  · intro h hh
    rw [status_link]
    exact hl.tree h hh
  · intro h hd
    rw [status_link] at hd
    obtain ⟨hlevel,htx,hwait⟩ := hl.data h hd
    rw [status_link,nTx_link]
    refine ⟨hlevel,htx,?_⟩
    intro hh
    obtain ⟨hne,hs⟩ := hzero h hh
    rcases hwait hs with hq | ⟨p,hp,hmem⟩
    · exact .inl (List.mem_append_left _ (List.mem_of_ne_of_mem hne hq))
    · by_cases hpb : p=b
      · subst hpb
        exact .inl (List.mem_append_right _ (mem_found.mpr hmem))
      · exact .inr ⟨p,hp,mem_unlinked_link.mpr ⟨hmem,hpb⟩⟩
  · intro h hh
    rw [status_link,total_link]
    by_cases hne : h=b
    · subst hne
      exact ⟨hbdata,hself,fun p hp => hmono p (hbparent p hp)⟩
    · rw [nChainTx_link_of_ne hne] at hh ⊢
      obtain ⟨hd,ht,hp⟩ := hl.linked h hh
      exact ⟨hd,ht,fun p hpp => hmono p (hp p hpp)⟩
  · intro p h hin
    obtain ⟨hmem,hpb⟩ := mem_unlinked_link.mp hin
    obtain ⟨hp,hd,hpz,hhz⟩ := hl.unlinked p h hmem
    have hne : h≠b := by
      intro heq
      rw [heq] at hmem
      exact hl.not_unlinked List.mem_cons_self hmem
    rw [status_link,nChainTx_link_of_ne hpb,nChainTx_link_of_ne hne]
    exact ⟨hp,hd,hpz,hhz⟩
  · exact hl.unlinkedOnce.filter _
  · intro h hmem
    rw [status_link]
    rcases List.mem_append.mp hmem with hq | hf
    · obtain ⟨hd,hz,hp⟩ := hl.queued h (List.mem_cons_of_mem b hq)
      have hne : h≠b := by
        rintro rfl
        exact hqueue.1 hq
      rw [nChainTx_link_of_ne hne]
      exact ⟨hd,hz,fun p hpp => hmono p (hp p hpp)⟩
    · have hmem := mem_found.mp hf
      obtain ⟨hp,hd,-,hz⟩ := hl.unlinked b h hmem
      have hne : h≠b := by
        rintro rfl
        exact hl.not_unlinked List.mem_cons_self hmem
      rw [nChainTx_link_of_ne hne]
      refine ⟨hd,hz,?_⟩
      intro p hpp
      have hpb : p=b := Option.some.inj (hpp.symm.trans hp)
      rw [hpb,hself]
      omega
  · refine List.Nodup.append hqueue.2 (found_nodup hl.unlinkedOnce) ?_
    intro h hq hf
    exact hl.not_unlinked (List.mem_cons_of_mem b hq) (mem_found.mp hf)
  · intro h hmem
    rcases mem_candidates_link hmem with rfl | hmem
    · rw [hself]
      omega
    · exact hmono h (hl.candidates h hmem)

/-- Linking adds what it should to the set and leaves the rest alone. -/
theorem Chosen.link (hc : Chosen s) (hl : Linked (b::queue) s) : Chosen (s.linkBlock b).1 := by
  have hrank : ∀h,s.nChainTx h≠0 → (s.linkBlock b).1.rank h=s.rank h := by
    intro h hh
    have hne := (hl.nChainTx_mono hh).1
    apply rank_congr
    · rw [index_link_of_ne hne]
    · rw [index_link_of_ne hne]
  have htip : ∀p∈s.tip,s.nChainTx p≠0 := by
    intro p hp
    exact (hc.standing p (List.mem_of_mem_head? hp)).1
  refine ⟨⟨?_,?_,?_,?_⟩,?_⟩
  · exact hc.active
  · intro h hh
    rw [status_link]
    obtain ⟨hn,hf⟩ := hc.standing h hh
    exact ⟨(hl.nChainTx_mono hn).2,hf⟩
  · intro h hh hf hbest
    by_cases hne : h=b
    · subst hne
      apply candidate_link_self
      intro p hp
      obtain ⟨f,hfb,hle⟩ := hc.above p hp
      calc
        (s.linkBlock h).1.rank p=s.rank p := hrank p (htip p hp)
        _ ≤ s.rank f := hle
        _ = (s.linkBlock h).1.rank f := (hrank f (hc.best f hfb).1).symm
        _ ≤ (s.linkBlock h).1.rank h := hbest f hfb
    · rw [nChainTx_link_of_ne hne] at hh
      rw [status_link] at hf
      apply candidates_link_mono
      apply hc.covered h hh hf
      intro f hfb
      rw [← hrank f (hc.best f hfb).1,← hrank h hh]
      exact hbest f hfb
  · intro f hfb
    obtain ⟨hn,ha⟩ := hc.best f hfb
    refine ⟨(hl.nChainTx_mono hn).2,?_⟩
    intro a hmem
    rw [status_link]
    exact ha a hmem
  · intro p hp
    obtain ⟨f,hfb,hle⟩ := hc.above p hp
    refine ⟨f,hfb,?_⟩
    rw [hrank p (htip p hp),hrank f (hc.best f hfb).1]
    exact hle

theorem link_length : (s.linkBlock b).2.length+(s.linkBlock b).1.mapBlocksUnlinked.length=
    s.mapBlocksUnlinked.length := by
  have hsplit := List.length_eq_length_filter_add (l := s.mapBlocksUnlinked)
    (fun x => decide (x.1=b))
  change (List.map Prod.snd _).length+(s.mapBlocksUnlinked.filter (fun x => decide (x.1≠b))).length=_
  rw [List.length_map,hsplit]
  simp

/-- The loop ends with every block of its queue linked. -/
theorem linkLoop_ok {n : Nat} (hn : queue.length+s.mapBlocksUnlinked.length≤n)
    (hl : Linked queue s) (hc : Chosen s) (hbound : ∀h,s.total h<2^32) :
    ∃t,linkLoop n queue s=some t ∧ Linked [] t ∧ Chosen t := by
  induction n generalizing queue s with
  | zero =>
    cases queue with
    | nil => exact ⟨s,rfl,hl,hc⟩
    | cons b queue => simp at hn
  | succ n ih =>
    cases queue with
    | nil => exact ⟨s,rfl,hl,hc⟩
    | cons b queue =>
      have hlength : (s.linkBlock b).2.length+(s.linkBlock b).1.mapBlocksUnlinked.length=
        s.mapBlocksUnlinked.length := link_length
      rw [linkLoop]
      apply ih
      · rw [List.length_cons] at hn
        rw [List.length_append]
        omega
      · exact hl.link (hbound b)
      · exact hc.link hl
      · intro h
        rw [total_link]
        exact hbound h

end Link

section Store

variable {n : Nat}

theorem index_store_of_ne (hne : h≠b) : (s.storeBlock b n).index h=s.index h :=
  Function.update_of_ne hne _ _

theorem index_store_self : (s.storeBlock b n).index b={s.index b with
    nTx := n
    nChainTx := 0
    nStatus := (s.status b|||BLOCK_HAVE_DATA).raiseValidity BLOCK_VALID_TRANSACTIONS} :=
  Function.update_self b _ s.index

/-- The status of a block that is stored without a failure mark. -/
theorem received_status {x : Status} (hf : x.failed=false) :
    ((x|||BLOCK_HAVE_DATA).raiseValidity BLOCK_VALID_TRANSACTIONS).haveData=true ∧
    ((x|||BLOCK_HAVE_DATA).raiseValidity BLOCK_VALID_TRANSACTIONS).failed=false ∧
    3≤((x|||BLOCK_HAVE_DATA).raiseValidity BLOCK_VALID_TRANSACTIONS).level := by
  have hf' : (x|||BLOCK_HAVE_DATA).failed=false := by rw [failed_or x (by decide),hf]
  refine ⟨haveData_raise _ (haveData_or_data x),?_,?_⟩
  · rw [failed_raise _ (by decide),hf']
  · rw [level_raise _ hf' (by decide)]
    exact Nat.le_max_right _ 3

theorem Linked.nChainTx_eq_zero (hl : Linked queue s) (hd : (s.status b).haveData=false) :
    s.nChainTx b=0 := by
  by_contra hno
  rw [(hl.linked b hno).1] at hd
  cases hd

theorem Linked.nChainTx_store (hl : Linked queue s) (hd : (s.status b).haveData=false) (h : H) :
    (s.storeBlock b n).nChainTx h=s.nChainTx h := by
  by_cases hne : h=b
  · subst hne
    rw [nChainTx,index_store_self,hl.nChainTx_eq_zero hd]
  · rw [nChainTx,index_store_of_ne hne]
    rfl

theorem height_store (s : ChainState H) (b : H) (n : Nat) (h : H) :
    ((s.storeBlock b n).index h).nHeight=(s.index h).nHeight := by
  by_cases hne : h=b
  · subst hne
    rw [index_store_self]
  · rw [index_store_of_ne hne]

theorem rank_store (s : ChainState H) (b : H) (n : Nat) (h : H) :
    (s.storeBlock b n).rank h=s.rank h := by
  by_cases hne : h=b
  · subst hne
    apply rank_congr
    · rw [index_store_self]
    · rw [index_store_self]
  · apply rank_congr
    · rw [index_store_of_ne hne]
    · rw [index_store_of_ne hne]

/-- The linked blocks do not descend from a block without data. -/
theorem Linked.total_store (hl : Linked queue s) (hd : (s.status b).haveData=false)
    (hh : s.nChainTx h≠0) : (s.storeBlock b n).total h=s.total h := by
  have hmap : ∀a∈s.lineage h,((s.storeBlock b n).index a).nTx=(s.index a).nTx := by
    intro a ha
    have hne : a≠b := by
      rintro rfl
      exact hl.lineage_linked hh a ha (hl.nChainTx_eq_zero hd)
    rw [index_store_of_ne hne]
  rw [total,total]
  exact congrArg List.sum (List.map_congr_left hmap)

/-- A stored block goes to the queue, or it waits for its parent. -/
theorem Linked.store {u : List (H × H)} (hl : Linked [] s) (hd : (s.status b).haveData=false)
    (hb : b∈Forest.keys s.mapBlockIndex) (hf : (s.status b).failed=false) (hn : 0<n)
    (hwait : b∈queue ∨ ∃p,s.pprev b=some p ∧ (p,b)∈u)
    (hu : ∀p h,(p,h)∈u → (p,h)∈s.mapBlocksUnlinked ∨
      (h=b ∧ s.pprev b=some p ∧ s.nChainTx p=0))
    (hsub : ∀x∈s.mapBlocksUnlinked,x∈u) (honce : u.Nodup)
    (hqueue : ∀h∈queue,h=b ∧ ∀p,s.pprev b=some p → s.nChainTx p≠0) (hqonce : queue.Nodup) :
    Linked queue {s.storeBlock b n with mapBlocksUnlinked := u} := by
  obtain ⟨hdata,-,hlevel⟩ := received_status hf
  have hzero := hl.nChainTx_eq_zero hd
  have hcount : ∀h,({s.storeBlock b n with mapBlocksUnlinked := u} : ChainState H).nChainTx h=
      s.nChainTx h := hl.nChainTx_store hd
  have hself : ({s.storeBlock b n with mapBlocksUnlinked := u} : ChainState H).status b=
      (s.status b|||BLOCK_HAVE_DATA).raiseValidity BLOCK_VALID_TRANSACTIONS := by
    change ((s.storeBlock b n).index b).nStatus=_
    rw [index_store_self]
  have hother : ∀h,h≠b →
      ({s.storeBlock b n with mapBlocksUnlinked := u} : ChainState H).status h=s.status h := by
    intro h hne
    change ((s.storeBlock b n).index h).nStatus=_
    rw [index_store_of_ne hne]
    rfl
  constructor
  · exact hl.grown
  · intro h p hp
    change ((s.storeBlock b n).index h).nHeight=((s.storeBlock b n).index p).nHeight+1
    rw [height_store,height_store]
    exact hl.height h p hp
  · intro h hh
    have hne : h≠b := by
      rintro rfl
      exact hh hb
    rw [hother h hne,hcount]
    exact hl.absent h hh
  · intro h hh
    by_cases hne : h=b
    · subst hne
      rw [hself]
      omega
    · rw [hother h hne]
      exact hl.tree h hh
  · intro h hh
    rw [hcount]
    by_cases hne : h=b
    · subst hne
      rw [hself]
      refine ⟨hlevel,?_,fun _ => hwait⟩
      change 0<((s.storeBlock h n).index h).nTx
      rw [index_store_self]
      exact hn
    · rw [hother h hne] at hh ⊢
      obtain ⟨hl3,htx,hunl⟩ := hl.data h hh
      refine ⟨hl3,?_,?_⟩
      · change 0<((s.storeBlock b n).index h).nTx
        rw [index_store_of_ne hne]
        exact htx
      · intro hz
        rcases hunl hz with hno | ⟨p,hp,hmem⟩
        · cases hno
        · exact .inr ⟨p,hp,hsub _ hmem⟩
  · intro h hh
    rw [hcount] at hh
    have hne : h≠b := by
      rintro rfl
      exact hh hzero
    rw [hother h hne,hcount]
    obtain ⟨hhd,ht,hp⟩ := hl.linked h hh
    refine ⟨hhd,?_,?_⟩
    · change s.nChainTx h=(s.storeBlock b n).total h
      rw [hl.total_store hd hh]
      exact ht
    · intro p hpp
      rw [hcount]
      exact hp p hpp
  · intro p h hmem
    rw [hcount,hcount]
    rcases hu p h hmem with hold | ⟨rfl,hp,hz⟩
    · obtain ⟨hp,hhd,hz,hhz⟩ := hl.unlinked p h hold
      have hne : h≠b := by
        rintro rfl
        rw [hd] at hhd
        cases hhd
      rw [hother h hne]
      exact ⟨hp,hhd,hz,hhz⟩
    · rw [hself]
      exact ⟨hp,hdata,hz,hzero⟩
  · exact honce
  · intro h hh
    obtain ⟨rfl,hp⟩ := hqueue h hh
    rw [hself,hcount]
    refine ⟨hdata,hzero,?_⟩
    intro p hpp
    rw [hcount]
    exact hp p hpp
  · exact hqonce
  · intro h hh
    rw [hcount]
    exact hl.candidates h hh

theorem Chosen.store {u : List (H × H)} (hc : Chosen s) (hl : Linked queue s)
    (hd : (s.status b).haveData=false) :
    Chosen {s.storeBlock b n with mapBlocksUnlinked := u} := by
  have hcount : ∀h,({s.storeBlock b n with mapBlocksUnlinked := u} : ChainState H).nChainTx h=
      s.nChainTx h := hl.nChainTx_store hd
  have hrank : ∀h,({s.storeBlock b n with mapBlocksUnlinked := u} : ChainState H).rank h=
      s.rank h := rank_store s b n
  have hstatus : ∀h,s.nChainTx h≠0 →
      ({s.storeBlock b n with mapBlocksUnlinked := u} : ChainState H).status h=s.status h := by
    intro h hh
    have hne : h≠b := by
      rintro rfl
      exact hh (hl.nChainTx_eq_zero hd)
    change ((s.storeBlock b n).index h).nStatus=_
    rw [index_store_of_ne hne]
    rfl
  refine ⟨⟨?_,?_,?_,?_⟩,?_⟩
  · exact hc.active
  · intro h hh
    obtain ⟨hn,hf⟩ := hc.standing h hh
    rw [hcount,hstatus h hn]
    exact ⟨hn,hf⟩
  · intro h hh hf hbest
    rw [hcount] at hh
    rw [hstatus h hh] at hf
    apply hc.covered h hh hf
    intro f hfb
    rw [← hrank f,← hrank h]
    exact hbest f hfb
  · intro f hfb
    obtain ⟨hn,ha⟩ := hc.best f hfb
    rw [hcount]
    refine ⟨hn,?_⟩
    intro a hmem
    rw [hstatus a (hl.lineage_linked hn a hmem)]
    exact ha a hmem
  · intro p hp
    obtain ⟨f,hfb,hle⟩ := hc.above p hp
    refine ⟨f,hfb,?_⟩
    rw [hrank,hrank]
    exact hle

/-- A block whose data arrives while its parent is linked or without a mark is linked
or waits for its parent. -/
theorem received_ok (hl : Linked [] s) (hc : Chosen s) (hb : b∈Forest.keys s.mapBlockIndex)
    (hd : (s.status b).haveData=false) (hf : (s.status b).failed=false) (hn : 0<n)
    (hparent : ∀p,s.pprev b=some p → s.nChainTx p≠0 ∨ (s.status p).failed=false)
    (hbound : ∀h,(s.storeBlock b n).total h<2^32) :
    ∃t,s.receivedBlockTransactions b n=some t ∧ Linked [] t ∧ Chosen t := by
  have hlink : (∀p,s.pprev b=some p → s.nChainTx p≠0) →
      ∃t,linkLoop (s.mapBlocksUnlinked.length+1) [b] (s.storeBlock b n)=some t ∧
        Linked [] t ∧ Chosen t := by
    intro hp
    apply linkLoop_ok
    · rw [List.length_singleton,Nat.add_comm]
      exact Nat.le_refl _
    · refine hl.store (u := s.mapBlocksUnlinked) hd hb hf hn (.inl List.mem_cons_self)
        (fun p h hmem => .inl hmem) (fun x hx => hx) hl.unlinkedOnce ?_ (List.nodup_singleton b)
      intro h hh
      exact ⟨List.mem_singleton.mp hh,hp⟩
    · exact hc.store (u := s.mapBlocksUnlinked) hl hd
    · exact hbound
  have hprev : (s.storeBlock b n).pprev b=s.pprev b := rfl
  rw [receivedBlockTransactions,hprev]
  cases hp : s.pprev b with
  | none =>
    apply hlink
    intro p hpp
    rw [hp] at hpp
    cases hpp
  | some p =>
    dsimp only
    rw [hl.nChainTx_store hd]
    by_cases hz : s.nChainTx p=0
    · have hclean : (s.status p).failed=false := (hparent p hp).resolve_left (not_not_intro hz)
      have hkey : p∈Forest.keys s.mapBlockIndex := (hl.grown.parent_mem hp).2
      have hne : p≠b := by
        rintro rfl
        have hheight := hl.height p p hp
        omega
      have hvalid : ((s.storeBlock b n).status p).isValid BLOCK_VALID_TREE=true := by
        rw [status,index_store_of_ne hne]
        change (s.status p).isValid BLOCK_VALID_TREE=true
        rw [Status.isValid,hclean,Bool.not_false,Bool.true_and]
        exact decide_eq_true (hl.tree p hkey)
      have hfresh : (p,b)∉s.mapBlocksUnlinked := by
        intro hmem
        rw [(hl.unlinked p b hmem).2.1] at hd
        cases hd
      rw [if_neg (not_not_intro hz),if_pos hvalid]
      refine ⟨_,rfl,?_,hc.store hl hd⟩
      refine hl.store hd hb hf hn (.inr ⟨p,hp,List.mem_append_right _ List.mem_cons_self⟩) ?_
        (fun x hx => List.mem_append_left _ hx) (List.nodup_append_comm.mp
          (List.nodup_cons.mpr ⟨hfresh,hl.unlinkedOnce⟩ : ([(p,b)]++_).Nodup))
        (fun h hh => by cases hh) List.nodup_nil
      intro q h hmem
      rcases List.mem_append.mp hmem with hmem | heq
      · exact .inl hmem
      · obtain ⟨rfl,rfl⟩ := Prod.mk.inj (List.mem_singleton.mp heq)
        exact .inr ⟨rfl,hp,hz⟩
    · rw [if_pos hz]
      apply hlink
      intro q hq
      rw [hp] at hq
      obtain rfl := Option.some.inj hq
      exact hz

end Store

section Add

variable {q : Option H} {e : CBlockIndex}

/-- The index with one more leaf. -/
def withLeaf (s : ChainState H) (b : H) (q : Option H) (e : CBlockIndex) : ChainState H :=
  {s with mapBlockIndex := (b,q)::s.mapBlockIndex,index := Function.update s.index b e}

theorem index_leaf_of_ne (hne : h≠b) : (s.withLeaf b q e).index h=s.index h :=
  Function.update_of_ne hne _ _

theorem index_leaf_self : (s.withLeaf b q e).index b=e := Function.update_self b _ s.index

theorem status_leaf_of_ne (hne : h≠b) : (s.withLeaf b q e).status h=s.status h := by
  rw [status,index_leaf_of_ne hne]
  rfl

theorem nChainTx_leaf_of_ne (hne : h≠b) : (s.withLeaf b q e).nChainTx h=s.nChainTx h := by
  rw [nChainTx,index_leaf_of_ne hne]
  rfl

theorem pprev_leaf_of_ne (hne : h≠b) : (s.withLeaf b q e).pprev h=s.pprev h :=
  Forest.parent_cons_of_ne (Ne.symm hne)

theorem lineage_leaf_of_ne (hne : h≠b) : (s.withLeaf b q e).lineage h=s.lineage h :=
  Forest.lineage_cons_of_ne (Ne.symm hne)

theorem rank_leaf_of_ne (hne : h≠b) : (s.withLeaf b q e).rank h=s.rank h := by
  apply rank_congr
  · rw [index_leaf_of_ne hne]
  · rw [index_leaf_of_ne hne]

variable (hnew : b∉Forest.keys s.mapBlockIndex)

include hnew

theorem Linked.ne_leaf (hl : Linked queue s) (hh : s.nChainTx h≠0) : h≠b := by
  rintro rfl
  exact hnew (hl.mem_keys hh)

theorem Linked.lineage_ne_leaf (hl : Linked queue s) : ∀a∈s.lineage h,a≠b := by
  rintro a ha rfl
  exact hnew (hl.grown.lineage_subset_keys ha)

theorem Linked.leaf (hl : Linked [] s) (hq : ∀p∈q,p∈Forest.keys s.mapBlockIndex)
    (hheight : ∀p∈q,e.nHeight=(s.index p).nHeight+1) (hlevel : 2≤e.nStatus.level)
    (hdata : e.nStatus.haveData=false) (hzero : e.nChainTx=0) : Linked [] (s.withLeaf b q e) := by
  have hdne : ∀h,((s.withLeaf b q e).status h).haveData=true → h≠b := by
    rintro h hh rfl
    rw [status,index_leaf_self,hdata] at hh
    cases hh
  have hnne : ∀h,(s.withLeaf b q e).nChainTx h≠0 → h≠b := by
    rintro h hh rfl
    rw [nChainTx,index_leaf_self] at hh
    exact hh hzero
  have hpne : ∀h p,s.pprev h=some p → p≠b := by
    rintro h p hp rfl
    exact hnew (hl.grown.parent_mem hp).2
  constructor
  · exact ⟨hnew,hq,hl.grown⟩
  · intro h p hp
    by_cases hne : h=b
    · subst hne
      rw [pprev,withLeaf,Forest.parent,if_pos rfl] at hp
      have hpb : p≠h := by
        rintro rfl
        exact hnew (hq p hp)
      rw [index_leaf_self,index_leaf_of_ne hpb]
      exact hheight p hp
    · rw [pprev_leaf_of_ne hne] at hp
      rw [index_leaf_of_ne hne,index_leaf_of_ne (hpne h p hp)]
      exact hl.height h p hp
  · intro h hh
    obtain ⟨hne,hold⟩ := not_or.mp (fun hor => hh (Forest.mem_keys_cons.mpr hor))
    rw [status_leaf_of_ne hne,nChainTx_leaf_of_ne hne]
    exact hl.absent h hold
  · intro h hh
    by_cases hne : h=b
    · subst hne
      rw [status,index_leaf_self]
      exact hlevel
    · rw [status_leaf_of_ne hne]
      exact hl.tree h ((Forest.mem_keys_cons.mp hh).resolve_left hne)
  · intro h hh
    have hne := hdne h hh
    rw [status_leaf_of_ne hne] at hh ⊢
    rw [index_leaf_of_ne hne,nChainTx_leaf_of_ne hne,pprev_leaf_of_ne hne]
    exact hl.data h hh
  · intro h hh
    have hne := hnne h hh
    rw [nChainTx_leaf_of_ne hne] at hh ⊢
    obtain ⟨hd,ht,hp⟩ := hl.linked h hh
    have htotal : (s.withLeaf b q e).total h=s.total h := by
      rw [total,total,lineage_leaf_of_ne hne]
      apply congrArg List.sum
      apply List.map_congr_left
      intro a ha
      rw [index_leaf_of_ne (hl.lineage_ne_leaf hnew a ha)]
    rw [status_leaf_of_ne hne,pprev_leaf_of_ne hne,htotal]
    refine ⟨hd,ht,?_⟩
    intro p hpp
    rw [nChainTx_leaf_of_ne (hpne h p hpp)]
    exact hp p hpp
  · intro p h hmem
    obtain ⟨hp,hd,hpz,hhz⟩ := hl.unlinked p h hmem
    have hne : h≠b := by
      rintro rfl
      exact hnew (hl.mem_keys_of_data hd)
    rw [pprev_leaf_of_ne hne,status_leaf_of_ne hne,nChainTx_leaf_of_ne hne,
      nChainTx_leaf_of_ne (hpne h p hp)]
    exact ⟨hp,hd,hpz,hhz⟩
  · exact hl.unlinkedOnce
  · intro h hh
    cases hh
  · exact List.nodup_nil
  · intro h hh
    have hn := hl.candidates h hh
    rw [nChainTx_leaf_of_ne (hl.ne_leaf hnew hn)]
    exact hn

theorem Chosen.leaf (hc : Chosen s) (hl : Linked queue s) (hzero : e.nChainTx=0) :
    Chosen (s.withLeaf b q e) := by
  have htip : ∀p∈s.tip,p≠b := by
    intro p hp
    exact hl.ne_leaf hnew (hc.standing p (List.mem_of_mem_head? hp)).1
  have hbest : ∀f∈s.bestTip,f≠b := fun f hf => hl.ne_leaf hnew (hc.best f hf).1
  refine ⟨⟨?_,?_,?_,?_⟩,?_⟩
  · intro p hp
    rw [lineage_leaf_of_ne (htip p hp)]
    exact hc.active p hp
  · intro h hh
    obtain ⟨hn,hf⟩ := hc.standing h hh
    have hne := hl.ne_leaf hnew hn
    rw [nChainTx_leaf_of_ne hne,status_leaf_of_ne hne]
    exact ⟨hn,hf⟩
  · intro h hh hf hle
    have hne : h≠b := by
      rintro rfl
      rw [nChainTx,index_leaf_self] at hh
      exact hh hzero
    rw [nChainTx_leaf_of_ne hne] at hh
    rw [status_leaf_of_ne hne] at hf
    apply hc.covered h hh hf
    intro f hfb
    have hlef := hle f hfb
    rw [rank_leaf_of_ne (hbest f hfb),rank_leaf_of_ne hne] at hlef
    exact hlef
  · intro f hfb
    obtain ⟨hn,ha⟩ := hc.best f hfb
    rw [nChainTx_leaf_of_ne (hbest f hfb),Clean,lineage_leaf_of_ne (hbest f hfb)]
    refine ⟨hn,?_⟩
    intro a hmem
    rw [status_leaf_of_ne (hl.lineage_ne_leaf hnew a hmem)]
    exact ha a hmem
  · intro p hp
    obtain ⟨f,hfb,hle⟩ := hc.above p hp
    refine ⟨f,hfb,?_⟩
    rw [rank_leaf_of_ne (htip p hp),rank_leaf_of_ne (hbest f hfb)]
    exact hle

omit hnew

theorem add_ok (hl : Linked [] s) (hc : Chosen s) (hash hashPrevBlock : H) (nBits : BitVec 32) :
    Linked [] (s.addToBlockIndex hash hashPrevBlock nBits) ∧
    Chosen (s.addToBlockIndex hash hashPrevBlock nBits) := by
  rw [addToBlockIndex]
  split_ifs with hnew hprev
  · exact ⟨hl,hc⟩
  · obtain ⟨hlevel,-,hdata⟩ := tree_status
    refine ⟨hl.leaf hnew ?_ ?_ (Nat.le_of_eq hlevel.symm) hdata rfl,hc.leaf hnew hl rfl⟩
    · intro p hp
      rw [← Option.some.inj hp]
      exact hprev
    · intro p hp
      rw [← Option.some.inj hp]
  · obtain ⟨hlevel,-,hdata⟩ := tree_status
    refine ⟨hl.leaf hnew ?_ ?_ (Nat.le_of_eq hlevel.symm) hdata rfl,hc.leaf hnew hl rfl⟩
    · intro p hp
      cases hp
    · intro p hp
      cases hp

end Add

end ChainState

end Zdeex.Validity
