import Zdeex.Validity.Activation
import Zdeex.Validity.Linking

namespace Zdeex.Validity

open Zdeex.Framework

variable {H : Type} [LinearOrder H]

namespace ChainState

variable {s t : ChainState H} {b h m : H} {queue : List H} {maxReorg : Nat} {r : Round H}

section Step

/-- The greatest candidate is not worse than any linked block without a mark. -/
theorem Chosen.le_greatest (hc : Chosen s) (hl : Linked queue s)
    (hmax : ∀a∈s.setBlockIndexCandidates,s.rank a ≤ s.rank m) (hn : s.nChainTx h≠0)
    (hf : (s.status h).failed=false) : s.rank h ≤ s.rank m := by
  by_cases hbest : ∀f∈s.bestTip,s.rank f ≤ s.rank h
  · exact hmax h (hc.covered h hn hf hbest)
  · push Not at hbest
    obtain ⟨f,hfb,hlt⟩ := hbest
    exact hlt.le.trans (hmax f (hc.best_mem hl hfb))

/-- The active chain without its upper blocks. -/
def disconnected (s : ChainState H) (keep : H → Bool) : ChainState H :=
  {s with chainActive := s.chainActive.dropWhile keep}

theorem Chosen.disconnect (hc : Chosen s) (hl : Linked queue s) (keep : H → Bool) :
    Covering (s.disconnected keep) := by
  refine ⟨?_,?_,hc.covered,hc.best⟩
  · intro p hp
    obtain ⟨xs,hxs⟩ : ∃xs,s.chainActive.dropWhile keep=p::xs := List.head?_eq_some_iff.mp hp
    have hsplit := List.takeWhile_append_dropWhile (p := keep) (l := s.chainActive)
    rw [hxs] at hsplit
    change s.chainActive.dropWhile keep=s.lineage p
    rw [hxs]
    cases htip : s.tip with
    | none =>
      rw [List.head?_eq_none_iff.mp htip] at hsplit
      simp at hsplit
    | some q =>
      rw [hc.active q htip] at hsplit
      exact (hl.grown.lineage_split hsplit.symm).symm
  · intro a ha
    exact hc.standing a ((List.dropWhile_sublist _).subset ha)

/-- What `ActivateBestChainStep` starts from: a greatest candidate with a clean chain. -/
structure Target (s : ChainState H) (m : H) : Prop where
  mem : m∈s.setBlockIndexCandidates
  clean : s.Clean m
  max : ∀a∈s.setBlockIndexCandidates,s.rank a ≤ s.rank m

/-- After the disconnections the step connects the branch of the target. If it gets
there, the target is the best tip. -/
theorem connect_branch_ok (hl : Linked [] s) (hc : Chosen s) (htarget : Target s m)
    (hverdict : ∀f∈s.bestTip,∀a∈s.lineage f,r.verdict a≠.invalid false) {keep : H → Bool}
    {old : Option H}
    (hrun : connectLoop r.verdict old (s.branch m).reverse
      (s.disconnected keep).raiseBestTip=some t) :
    Linked [] t ∧ Chosen t ∧ (t.tip=some m → t.tip=t.bestTip) := by
  have hcov := hc.disconnect hl keep
  have hdis : Restatused s (s.disconnected keep) :=
    ⟨rfl,rfl,fun _ => rfl,fun _ => rfl,fun _ => Nat.le_refl _⟩
  have hr' := hdis.trans (restatused_raise (s.disconnected keep))
  have hlinked : ∀a∈s.branch m,s.nChainTx a≠0 ∧ (s.status a).failed=false := by
    intro a ha
    have hline := mem_lineage_of_branch ha
    exact ⟨hl.lineage_linked (hl.candidates m htarget.mem) a hline,htarget.clean a hline⟩
  obtain ⟨hset,hstatus,hchain,hbest⟩ :
      (s.disconnected keep).raiseBestTip.setBlockIndexCandidates=s.setBlockIndexCandidates ∧
      (∀a,(s.disconnected keep).raiseBestTip.status a=s.status a) ∧
      (s.disconnected keep).raiseBestTip.chainActive=(s.disconnected keep).chainActive ∧
      ∀f∈(s.disconnected keep).raiseBestTip.bestTip,
        f∈s.bestTip ∨ (s.disconnected keep).tip=some f := by
    rcases raise_cases (s.disconnected keep) with heq | ⟨p,hp,heq⟩
    · rw [heq]
      exact ⟨rfl,fun _ => rfl,rfl,fun f hf => .inl hf⟩
    · rw [heq]
      refine ⟨rfl,fun _ => rfl,rfl,?_⟩
      intro f hf
      rw [← Option.some.inj hf]
      exact .inr hp
  have hsh : Sheltered r.verdict (s.disconnected keep).raiseBestTip := by
    intro f hfb a hline hv
    rw [hr'.lineage] at hline
    rw [hchain]
    rcases hbest f hfb with hold | htip
    · exact absurd hv (hverdict f hold a hline)
    · rw [hcov.active f htip]
      exact hline
  have hl' : Linked [] (s.disconnected keep).raiseBestTip := by
    apply hr'.linked hl
    rw [hset]
    exact hl.candidates
  obtain ⟨hlt,hct,hrt,hbt⟩ := connectLoop_ok hrun hl' hcov.raise (by
    intro x hx
    rw [hr'.nChainTx,hstatus]
    exact hlinked x (List.mem_reverse.mp hx)) hsh
  refine ⟨hlt,hct,?_⟩
  intro htip
  obtain ⟨f,hfb,hle⟩ := hct.above m htip
  have hfm : s.rank f ≤ s.rank m := by
    rcases hbt f hfb with hraised | hbranch
    · rcases hbest f hraised with hold | hdis
      · exact htarget.max f (hc.best_mem hl hold)
      · obtain ⟨hn,hf⟩ := hcov.standing f (List.mem_of_mem_head? hdis)
        exact hc.le_greatest hl htarget.max hn hf
    · obtain ⟨hn,hf⟩ := hlinked f (List.mem_reverse.mp hbranch)
      exact hc.le_greatest hl htarget.max hn hf
  rw [hrt.rank,hrt.rank,hr'.rank,hr'.rank] at hle
  rw [htip,rank_inj (le_antisymm hle hfm)]
  exact hfb.symm

theorem step_ok {ok : Bool} (hrun : s.activateBestChainStep maxReorg r m=some (t,ok))
    (hl : Linked [] s) (hc : Chosen s) (htarget : Target s m)
    (hverdict : ∀f∈s.bestTip,∀a∈s.lineage f,r.verdict a≠.invalid false)
    (hlong : s.reorgTooLong maxReorg m=true → s.tip=s.bestTip) :
    Linked [] t ∧ Chosen t ∧ (ok=false ∨ t.tip=some m → t.tip=t.bestTip) := by
  rw [activateBestChainStep] at hrun
  split_ifs at hrun with hfork hnotarized hreorg
  · obtain ⟨u,hu,heq⟩ := Option.map_eq_some_iff.mp hrun
    obtain ⟨rfl,-⟩ := Prod.mk.inj heq
    obtain ⟨hlu,hcu,hset⟩ := invalidate_ok hu hl hc
    exact ⟨hlu,hcu,fun _ => hset⟩
  · obtain ⟨rfl,-⟩ := Prod.mk.inj (Option.some.inj hrun)
    exact ⟨hl,hc,fun _ => hlong hreorg⟩
  · obtain ⟨u,hu,heq⟩ := Option.map_eq_some_iff.mp hrun
    obtain ⟨rfl,rfl⟩ := Prod.mk.inj heq
    obtain ⟨hlu,hcu,hset⟩ := connect_branch_ok hl hc htarget hverdict hu
    refine ⟨hlu,hcu,?_⟩
    rintro (hno | htip)
    · cases hno
    · exact hset htip

end Step

/-- What keeps a round of `ActivateBestChain` from leaving the set short: no block on
the chain of the best tip fails, and the call does not stop on a lower tip. -/
structure Steady (maxReorg : Nat) (r : Round H) (s : ChainState H) : Prop where
  verdict : ∀f∈s.bestTip,∀a∈s.lineage f,r.verdict a≠.invalid false
  shutdown : r.shutdownRequested=true → s.tip=s.bestTip
  long : ∀t m,s.findMostWorkChain=some (t,some m) → t.reorgTooLong maxReorg m=true →
    s.tip=s.bestTip

theorem round_ok {ret : Bool} (hrun : s.activateBestChain maxReorg r=some (t,ret))
    (hl : Linked [] s) (hc : Chosen s) (hsteady : Steady maxReorg r s) :
    Linked [] t ∧ Chosen t ∧ (ret=true → t.tip=t.bestTip) := by
  rw [activateBestChain] at hrun
  by_cases hdown : r.shutdownRequested=true
  · rw [if_pos hdown] at hrun
    obtain ⟨rfl,-⟩ := Prod.mk.inj (Option.some.inj hrun)
    exact ⟨hl,hc,fun _ => hsteady.shutdown hdown⟩
  · obtain ⟨u,o,hfind,hmost⟩ := findMostWorkChain_ok hl hc
    rw [if_neg hdown,hfind] at hrun
    cases o with
    | none =>
      obtain ⟨rfl,-⟩ := Prod.mk.inj (Option.some.inj hrun)
      refine ⟨hmost.linked,hmost.chosen,?_⟩
      intro _
      have hempty := hmost.none rfl
      have hbest : u.bestTip=none := by
        cases hb : u.bestTip with
        | none => rfl
        | some f =>
          have hmem := hmost.chosen.best_mem hmost.linked hb
          rw [hempty] at hmem
          cases hmem
      cases htip : u.tip with
      | none => exact hbest.symm
      | some p =>
        obtain ⟨f,hfb,-⟩ := hmost.chosen.above p htip
        rw [hbest] at hfb
        cases hfb
    | some m =>
      obtain ⟨hmem,hclean,hmax⟩ := hmost.best m rfl
      have hw := hmost.weeded
      dsimp only at hrun
      split_ifs at hrun with hdone
      · obtain ⟨rfl,-⟩ := Prod.mk.inj (Option.some.inj hrun)
        refine ⟨hmost.linked,hmost.chosen,?_⟩
        intro _
        obtain ⟨f,hfb,hle⟩ := hmost.chosen.above m hdone
        have hfm := hmax f (hmost.chosen.best_mem hmost.linked hfb)
        rw [hdone,rank_inj (le_antisymm hle hfm)]
        exact hfb.symm
      · cases hstep : u.activateBestChainStep maxReorg r m with
        | none =>
          rw [hstep] at hrun
          cases hrun
        | some res =>
          obtain ⟨w,ok⟩ := res
          obtain ⟨hlw,hcw,hset⟩ := step_ok hstep hmost.linked hmost.chosen ⟨hmem,hclean,hmax⟩ (by
            intro f hfb a ha
            rw [hw.best] at hfb
            rw [hw.restatused.lineage] at ha
            exact hsteady.verdict f hfb a ha) (by
            intro hlong
            rw [hw.tip,hw.best]
            exact hsteady.long u m hfind hlong)
          rw [hstep] at hrun
          cases ok with
          | true =>
            obtain ⟨rfl,hret⟩ := Prod.mk.inj (Option.some.inj hrun)
            refine ⟨hlw,hcw,?_⟩
            intro htrue
            rw [htrue] at hret
            exact hset (.inr (of_decide_eq_true hret))
          | false =>
            obtain ⟨rfl,-⟩ := Prod.mk.inj (Option.some.inj hrun)
            exact ⟨hlw,hcw,fun _ => hset (.inl rfl)⟩

/-- A block that the node could switch to: all data is there, nothing is marked and it
is not worse than the tip. -/
def Eligible (s : ChainState H) (b : H) : Prop :=
  s.nChainTx b≠0 ∧ s.Clean b ∧ ∀p∈s.tip,s.workComparator b p=false

/-- The set is complete and exact, and `FindMostWorkChain` returns the best block of
this kind. -/
structure Exact (s : ChainState H) : Prop where
  complete : ∀b,s.Eligible b → b∈s.setBlockIndexCandidates
  tip : ∀p∈s.tip,p∈s.setBlockIndexCandidates
  linked : ∀b∈s.setBlockIndexCandidates,(∀p∈s.tip,s.workComparator b p=false) → s.nChainTx b≠0
  unlinked : ∀b,(s.status b).haveData=true → s.nChainTx b=0 → s.Clean b →
    ∃p,s.pprev b=some p ∧ (p,b)∈s.mapBlocksUnlinked
  mostWork : ∃t o,s.findMostWorkChain=some (t,o) ∧
    (∀m∈o,s.Eligible m ∧ ∀b,s.Eligible b → s.workComparator m b=false) ∧
    ∀b,s.Eligible b → o≠none

theorem Chosen.complete (hc : Chosen s) (hl : Linked queue s) (hset : s.tip=s.bestTip)
    (hb : s.Eligible b) : b∈s.setBlockIndexCandidates := by
  obtain ⟨hn,hclean,hbetter⟩ := hb
  apply hc.covered b hn (hclean b (hl.self_mem hn))
  intro f hfb
  rw [← hset] at hfb
  exact workComparator_false.mp (hbetter f hfb)

theorem Chosen.exact (hc : Chosen s) (hl : Linked [] s) (hset : s.tip=s.bestTip) : s.Exact := by
  refine ⟨fun b hb => hc.complete hl hset hb,?_,fun b hb _ => hl.candidates b hb,?_,?_⟩
  · intro p hp
    rw [hset] at hp
    exact hc.best_mem hl hp
  · intro b hd hn _
    rcases (hl.data b hd).2.2 hn with hno | hwait
    · cases hno
    · exact hwait
  · obtain ⟨t,o,hfind,hmost⟩ := findMostWorkChain_ok hl hc
    have hw := hmost.weeded
    have hkept : ∀b,s.Eligible b → b∈t.setBlockIndexCandidates := by
      intro b hb
      exact hw.kept b (hc.complete hl hset hb) hb.2.1
    refine ⟨t,o,hfind,?_,?_⟩
    · intro m hm
      obtain ⟨hmem,hclean,hmax⟩ := hmost.best m hm
      have hle : ∀b,s.Eligible b → s.rank b ≤ s.rank m := by
        intro b hb
        have hrank := hmax b (hkept b hb)
        rw [hw.restatused.rank,hw.restatused.rank] at hrank
        exact hrank
      refine ⟨⟨hl.candidates m (hw.fewer m hmem),?_,?_⟩,?_⟩
      · intro a ha
        by_contra hno
        have hmarked := hw.marks a (by simpa using hno)
        rw [← hw.restatused.lineage] at ha
        rw [hclean a ha] at hmarked
        cases hmarked
      · intro p hp
        apply workComparator_false.mpr
        apply hle
        obtain ⟨hn,hcp⟩ := hc.clean_tip hp
        refine ⟨hn,hcp,?_⟩
        intro q hq
        have hqp : q=p := Option.some.inj (hq.symm.trans hp)
        rw [hqp]
        exact workComparator_false.mpr (le_refl _)
      · intro b hb
        exact workComparator_false.mpr (hle b hb)
    · intro b hb hnone
      have hmem := hkept b hb
      rw [hmost.none hnone] at hmem
      cases hmem

theorem linked_empty : Linked [] (ChainState.empty : ChainState H) := by
  have hzero : ∀h : H,(ChainState.empty : ChainState H).nChainTx h=0 := fun _ => rfl
  have hdata : ∀h : H,((ChainState.empty : ChainState H).status h).haveData=false := by
    intro h
    change Status.haveData 0=false
    decide
  constructor
  · trivial
  · intro h p hp
    cases hp
  · intro h _
    exact ⟨hdata h,hzero h⟩
  · intro h hh
    cases hh
  · intro h hh
    rw [hdata] at hh
    cases hh
  · intro h hh
    exact absurd (hzero h) hh
  · intro p h hh
    cases hh
  · exact List.nodup_nil
  · intro h hh
    cases hh
  · exact List.nodup_nil
  · intro h hh
    cases hh

theorem chosen_empty : Chosen (ChainState.empty : ChainState H) := by
  refine ⟨⟨?_,?_,?_,?_⟩,?_⟩
  · intro p hp
    cases hp
  · intro h hh
    cases hh
  · intro h hh
    exact absurd rfl hh
  · intro f hf
    cases hf
  · intro p hp
    cases hp

end ChainState

open ChainState

/-- What each call has to respect for the set to stay complete. A block's data does not
arrive while its parent is marked and not linked, and no chain has 2^32 transactions;
rounds of `ActivateBestChain` are steady; a block is reconsidered on the best tip, with
its marked ancestors already in the set if they belong there. -/
def Within (maxReorg : Nat) (s : ChainState H) : ChainOp H → Prop
  | .addToBlockIndex _ _ _ => True
  | .receivedBlockTransactions hash vtxSize =>
      (∀p,s.pprev hash=some p → s.nChainTx p≠0 ∨ (s.status p).failed=false) ∧
        ∀h,(s.storeBlock hash vtxSize).total h<2^32
  | .activateBestChain r => Steady maxReorg r s
  | .invalidateBlock _ => True
  | .reconsiderBlock hash => s.tip=s.bestTip ∧ AncestorsListed s hash

theorem call_ok {maxReorg : Nat} {s t : ChainState H} {op : ChainOp H} {ret : Bool}
    (hcall : chainCall maxReorg s op=some (t,ret)) (hwithin : Within maxReorg s op)
    (hl : Linked [] s) (hc : Chosen s) :
    Linked [] t ∧ Chosen t ∧ (ret=true → t.tip=t.bestTip) := by
  cases op with
  | addToBlockIndex hash hashPrevBlock nBits =>
    obtain ⟨rfl,rfl⟩ := Prod.mk.inj (Option.some.inj hcall)
    obtain ⟨hl',hc'⟩ := add_ok hl hc hash hashPrevBlock nBits
    exact ⟨hl',hc',fun hno => by cases hno⟩
  | receivedBlockTransactions hash vtxSize =>
    rw [chainCall] at hcall
    split_ifs at hcall with hcaller
    obtain ⟨hkey,hdata,hfailed,hsize⟩ := hcaller
    obtain ⟨u,hu,hlu,hcu⟩ := received_ok hl hc hkey hdata hfailed hsize hwithin.1 hwithin.2
    rw [hu] at hcall
    obtain ⟨rfl,rfl⟩ := Prod.mk.inj (Option.some.inj hcall)
    exact ⟨hlu,hcu,fun hno => by cases hno⟩
  | activateBestChain r => exact round_ok hcall hl hc hwithin
  | invalidateBlock hash =>
    rw [chainCall] at hcall
    split_ifs at hcall with hkey
    obtain ⟨u,hu,heq⟩ := Option.map_eq_some_iff.mp hcall
    obtain ⟨rfl,-⟩ := Prod.mk.inj heq
    obtain ⟨hlu,hcu,hset⟩ := invalidate_ok hu hl hc
    exact ⟨hlu,hcu,fun _ => hset⟩
  | reconsiderBlock hash =>
    rw [chainCall] at hcall
    split_ifs at hcall with hkey
    obtain ⟨u,hu,heq⟩ := Option.map_eq_some_iff.mp hcall
    obtain ⟨rfl,-⟩ := Prod.mk.inj heq
    obtain ⟨hlu,hcu,hset⟩ := reconsider_ok hu hl hc hkey hwithin.1 hwithin.2
    exact ⟨hlu,hcu,fun _ => hset⟩

/-- In every run within the condition, the set is complete and exact whenever one of
the three calls has returned. -/
theorem candidates_exact (maxReorg : Nat) (ops : List (ChainOp H)) (op : ChainOp H)
    (s t : ChainState H) (hrun : run (chainStep maxReorg) ops ChainState.empty=some s)
    (hwithin : Guarded (chainStep maxReorg) (Within maxReorg) ops ChainState.empty)
    (hlast : Within maxReorg s op) (hret : chainCall maxReorg s op=some (t,true)) : t.Exact := by
  have hs : Linked [] s ∧ Chosen s := by
    apply run_keeps (I := fun s : ChainState H => Linked [] s ∧ Chosen s) _ hrun hwithin
      ⟨linked_empty,chosen_empty⟩
    intro u o w hguard hu hstep
    obtain ⟨res,hcall,hfst⟩ := Option.map_eq_some_iff.mp hstep
    obtain ⟨w',ret⟩ := res
    obtain rfl : w'=w := hfst
    obtain ⟨hl,hc,-⟩ := call_ok hcall hguard hu.1 hu.2
    exact ⟨hl,hc⟩
  obtain ⟨hl,hc,hset⟩ := call_ok hret hlast hs.1 hs.2
  exact hc.exact hl (hset rfl)

/-- Nothing is in the way and every block connects. -/
def quietRound : Round Nat := ⟨false,true,0,fun _ => .connected goodConnect⟩

/-- Two blocks whose data arrives in the wrong order. -/
def lateParent : List (ChainOp Nat) :=
  [.addToBlockIndex 0 9 0x200f0f0f,.addToBlockIndex 1 0 0x200f0f0f,
    .receivedBlockTransactions 1 1,.receivedBlockTransactions 0 1,.activateBestChain quietRound]

/-- A quiet round on the best tip is steady. -/
theorem quietRound_steady {s : ChainState Nat} (hset : s.tip=s.bestTip) : Steady 99 quietRound s := by
  refine ⟨?_,fun _ => hset,fun _ _ _ _ => hset⟩
  intro f _ a _ hno
  cases hno

theorem total_two {s : ChainState Nat} {n : Nat} (hkeys : s.mapBlockIndex=[(1,some 0),(0,none)])
    (h₀ : s.total 0<n) (h₁ : s.total 1<n) (h : Nat) : s.total h<n := by
  by_cases hmem : h∈Forest.keys s.mapBlockIndex
  · rw [hkeys] at hmem
    have hcases : h=1 ∨ h=0 := by simpa [Forest.keys] using hmem
    rcases hcases with rfl | rfl
    · exact h₁
    · exact h₀
  · rw [total,lineage,Forest.lineage_of_not_mem hmem]
    exact Nat.lt_of_le_of_lt (Nat.zero_le _) h₀

/-- The child waits for its parent, and both are connected in two rounds. -/
theorem late_parent_exact : ∃s t : ChainState Nat,
    run (chainStep 99) lateParent ChainState.empty=some s ∧
    chainCall 99 s (.activateBestChain quietRound)=some (t,true) ∧ t.Exact := by
  refine ⟨_,_,rfl,rfl,?_⟩
  refine candidates_exact 99 lateParent (.activateBestChain quietRound) _ _ rfl ?_ ?_ rfl
  · refine ⟨trivial,?_⟩
    intro s₁ h₁
    obtain rfl := Option.some.inj h₁
    refine ⟨trivial,?_⟩
    intro s₂ h₂
    obtain rfl := Option.some.inj h₂
    refine ⟨⟨?_,?_⟩,?_⟩
    · intro p hp
      obtain rfl := Option.some.inj hp
      exact .inr rfl
    · exact total_two rfl (by decide +kernel) (by decide +kernel)
    intro s₃ h₃
    obtain rfl := Option.some.inj h₃
    refine ⟨⟨?_,?_⟩,?_⟩
    · intro p hp
      cases hp
    · exact total_two rfl (by decide +kernel) (by decide +kernel)
    intro s₄ h₄
    obtain rfl := Option.some.inj h₄
    refine ⟨quietRound_steady rfl,?_⟩
    intro s₅ h₅
    trivial
  · exact quietRound_steady rfl

/-- Three blocks are connected, and the second one is invalidated. -/
def invalidatedChild : List (ChainOp Nat) :=
  [.addToBlockIndex 0 9 0x200f0f0f,.receivedBlockTransactions 0 1,.activateBestChain quietRound,
    .addToBlockIndex 1 0 0x200f0f0f,.receivedBlockTransactions 1 1,.activateBestChain quietRound,
    .addToBlockIndex 2 1 0x200f0f0f,.receivedBlockTransactions 2 1,.activateBestChain quietRound,
    .invalidateBlock 1]

/-- Reconsidering the third block clears the mark of the second one, which is better
than the tip and does not get into the set. -/
theorem reconsidered_ancestor_missing : ∃s t : ChainState Nat,
    run (chainStep 99) invalidatedChild ChainState.empty=some s ∧
    chainCall 99 s (.reconsiderBlock 2)=some (t,true) ∧
    t.Eligible 1 ∧ 1∉t.setBlockIndexCandidates := by
  have hfacts : ((run (chainStep 99) invalidatedChild ChainState.empty).bind
      (fun s => chainCall 99 s (.reconsiderBlock 2))).map (fun r =>
        (r.2,decide (r.1.nChainTx 1≠0),(r.1.lineage 1).all (fun a => !(r.1.status a).failed),
          r.1.tip.all (fun p => !r.1.workComparator 1 p),
          decide (1∉r.1.setBlockIndexCandidates)))=some (true,true,true,true,true) := by
    decide +kernel
  obtain ⟨r,hr,heq⟩ := Option.map_eq_some_iff.mp hfacts
  obtain ⟨s,hs,hcall⟩ := Option.bind_eq_some_iff.mp hr
  obtain ⟨t,ret⟩ := r
  simp only [Prod.mk.injEq,decide_eq_true_eq,List.all_eq_true,Bool.not_eq_true',
    Option.all_eq_true] at heq
  obtain ⟨rfl,hn,hclean,hbetter,hno⟩ := heq
  exact ⟨s,t,hs,hcall,⟨hn,hclean,hbetter⟩,hno⟩

end Zdeex.Validity
