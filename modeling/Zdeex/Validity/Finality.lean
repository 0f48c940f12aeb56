import Zdeex.Validity.Activation

namespace Zdeex.Validity

open Zdeex.Framework

variable {H V : Type} [LinearOrder H]

/-- The block index with the coins view of the active chain. -/
structure ChainNode (H V : Type) where
  chain : ChainState H
  coins : V

/-- The notarized block that `hush_notarized_height` reports, and what a block does to
the coins. -/
structure Dpow (H V : Type) where
  notarizedhash : H
  notarizedht : Int
  maxReorg : Nat
  connectBlock : H → V → V
  disconnectBlock : H → V → V

/-- The surroundings of one call. `ConnectTip` without a verdict is a system error, and
a block that cannot be undone makes `DisconnectTip` fail. -/
structure NodeRound (H : Type) where
  shutdownRequested : Bool
  fSkipdpow : Bool
  verdict : H → Option Verdict
  undoable : H → Bool

namespace Dpow

variable (d : Dpow H V) (r : NodeRound H)

/-- `DisconnectTip`; it refuses the notarized block. Without a block below, `UpdateTip`
runs into a null pointer. -/
def disconnectTip (n : ChainNode H V) : Option (ChainNode H V × Bool) :=
  match n.chain.chainActive with
  | [] => none
  | w::rest =>
      if w=d.notarizedhash ∨ r.undoable w=false then some (n,false)
      else if rest=[] then none
      else some (⟨{n.chain with chainActive := rest},d.disconnectBlock w n.coins⟩,true)

/-- The loop of `InvalidateBlock` along the active chain. -/
def invalidateLoop (pindex : H) : List H → ChainNode H V → Option (ChainNode H V × Bool)
  | [],n => some (n,true)
  | w::rest,n =>
      if among pindex (w::rest) then
        match d.disconnectTip r
          {n with chain := (n.chain.orStatus [w] BLOCK_FAILED_CHILD).eraseCandidates [w]} with
        | none => none
        | some (n,false) => some (n,false)
        | some (n,true) => invalidateLoop pindex rest n
      else some (n,true)

/-- `InvalidateBlock` with its answer; nothing is repaired when a block stays. -/
def invalidateBlock (pindex : H) (n : ChainNode H V) : Option (ChainNode H V × Bool) :=
  match d.invalidateLoop r pindex n.chain.chainActive
      {n with chain := n.chain.invalidBlockFound pindex} with
  | none => none
  | some (n,false) => some (n,false)
  | some (n,true) =>
      match n.chain.tip with
      | none => none
      | some t => some ({n with chain := n.chain.refill t},true)

/-- Disconnects down to the fork. -/
def disconnectLoop (fork : Option H) : List H → ChainNode H V → Option (ChainNode H V × Bool)
  | [],n => some (n,true)
  | w::rest,n =>
      if fork=some w then some (n,true)
      else
        match d.disconnectTip r n with
        | none => none
        | some (n,false) => some (n,false)
        | some (n,true) => disconnectLoop fork rest n

/-- Connects the blocks after the fork, as far as they go. -/
def connectLoop (pindexOldTip : Option H) : List H → ChainNode H V → Option (ChainNode H V × Bool)
  | [],n => some (n,true)
  | pindexConnect::rest,n =>
      if n.chain.pprev pindexConnect≠n.chain.tip then none
      else
        match r.verdict pindexConnect with
        | none => some (n,false)
        | some (.invalid corruptionPossible) =>
            if n.chain.chainActive=[] then none
            else if corruptionPossible then some (n,true)
            else some ({n with chain := n.chain.invalidBlockFound pindexConnect},true)
        | some (.connected v) =>
            match (n.chain.connectTip pindexConnect v).pruneBlockIndexCandidates with
            | none => none
            | some s =>
                if ∀p∈pindexOldTip,(s.index pindexConnect).morePower (s.index p)=true then
                  some (⟨s,d.connectBlock pindexConnect n.coins⟩,true)
                else connectLoop pindexOldTip rest ⟨s,d.connectBlock pindexConnect n.coins⟩

/-- `ActivateBestChainStep`. A chain that forks below the notarized height is
invalidated instead. -/
def activateBestChainStep (pindexMostWork : H) (n : ChainNode H V) : Option (ChainNode H V × Bool) :=
  if n.chain.forksBelowNotarized r.fSkipdpow d.notarizedht pindexMostWork then
    (d.invalidateBlock r pindexMostWork n).map (fun res => (res.1,false))
  else if n.chain.tip≠none ∧ n.chain.findFork pindexMostWork=none then none
  else if n.chain.reorgTooLong d.maxReorg pindexMostWork then some (n,false)
  else
    match d.disconnectLoop r (n.chain.findFork pindexMostWork) n.chain.chainActive n with
    | none => none
    | some (n',false) => some (n',false)
    | some (n',true) =>
        d.connectLoop r n.chain.tip (n.chain.branch pindexMostWork).reverse n'

/-- One round of `ActivateBestChain`. -/
def activateBestChain (n : ChainNode H V) : Option (ChainNode H V) :=
  if r.shutdownRequested then some n
  else
    match n.chain.findMostWorkChain with
    | none => none
    | some (s,none) => some {n with chain := s}
    | some (s,some pindexMostWork) =>
        if s.tip=some pindexMostWork then some {n with chain := s}
        else (d.activateBestChainStep r pindexMostWork {n with chain := s}).map Prod.fst

end Dpow

inductive NodeOp (H : Type) where
  | activateBestChain (r : NodeRound H)
  | invalidateBlock (r : NodeRound H) (hash : H)
  | reconsiderBlock (hash : H)

def chainNodeStep (d : Dpow H V) (n : ChainNode H V) : NodeOp H → Option (ChainNode H V)
  | .activateBestChain r => d.activateBestChain r n
  | .invalidateBlock r hash => (d.invalidateBlock r hash n).map Prod.fst
  | .reconsiderBlock hash => (n.chain.reconsiderBlock hash).map (fun s => {n with chain := s})

/-- The header checks of `AcceptBlockHeader` for a block that is not in the index. -/
def ChainState.acceptNewHeader (s : ChainState H) (genesis hash hashPrevBlock : H)
    (nBits : BitVec 32) (checkBlockHeader contextual : Bool) : Option (ChainState H) :=
  if checkBlockHeader=false then none
  else if hash≠genesis ∧ among hashPrevBlock (Forest.keys s.mapBlockIndex)=false then none
  else if hash≠genesis ∧ (s.status hashPrevBlock).failed=true then none
  else if contextual=false then none
  else some (s.addToBlockIndex hash hashPrevBlock nBits)

section Refused

variable {d : Dpow H V} {r : NodeRound H} {pindex : H} {n t : ChainNode H V}

theorem disconnectTip_cases {ok : Bool} (hrun : d.disconnectTip r n=some (t,ok)) :
    ∃w rest,n.chain.chainActive=w::rest ∧
      ((ok=false ∧ t=n) ∨
        (ok=true ∧ w≠d.notarizedhash ∧ rest≠[] ∧
          t=⟨{n.chain with chainActive := rest},d.disconnectBlock w n.coins⟩)) := by
  rw [Dpow.disconnectTip] at hrun
  cases hchain : n.chain.chainActive with
  | nil =>
    rw [hchain] at hrun
    cases hrun
  | cons w rest =>
    rw [hchain] at hrun
    dsimp only at hrun
    refine ⟨w,rest,rfl,?_⟩
    split_ifs at hrun with hrefused hlast
    · obtain ⟨rfl,rfl⟩ := Prod.mk.inj (Option.some.inj hrun)
      exact .inl ⟨rfl,rfl⟩
    · obtain ⟨rfl,rfl⟩ := Prod.mk.inj (Option.some.inj hrun)
      exact .inr ⟨rfl,fun heq => hrefused (.inl heq),hlast,rfl⟩

/-- The active chain as a refused rollback leaves it: the tip and the block that was to
go are marked, and the tip is no candidate. -/
structure Stuck (pindex : H) (s : ChainState H) : Prop where
  tip : ∃p,s.tip=some p ∧ (s.status p).failed=true ∧ p∉s.setBlockIndexCandidates
  mem : pindex∈s.chainActive
  failed : (s.status pindex).failed=true

theorem failed_mark {s : ChainState H} {h w : H} (hf : (s.status h).failed=true) :
    (((s.orStatus [w] BLOCK_FAILED_CHILD).eraseCandidates [w]).status h).failed=true := by
  change ((s.orStatus [w] BLOCK_FAILED_CHILD).status h).failed=true
  rw [ChainState.status_or]
  split_ifs
  · exact failed_or_mono _ hf
  · exact hf

theorem invalidateLoop_stuck {l : List H} (hrun : d.invalidateLoop r pindex l n=some (t,false))
    (hchain : n.chain.chainActive=l) (hf : (n.chain.status pindex).failed=true) :
    Stuck pindex t.chain := by
  induction l generalizing n with
  | nil => cases hrun
  | cons w rest ih =>
    rw [Dpow.invalidateLoop] at hrun
    split_ifs at hrun with hin
    · cases hdis : d.disconnectTip r {n with
          chain := (n.chain.orStatus [w] BLOCK_FAILED_CHILD).eraseCandidates [w]} with
      | none =>
        rw [hdis] at hrun
        cases hrun
      | some res =>
        obtain ⟨u,ok⟩ := res
        rw [hdis] at hrun
        obtain ⟨w',rest',hu,hcases⟩ := disconnectTip_cases hdis
        obtain ⟨rfl,rfl⟩ : w=w' ∧ rest=rest' := List.cons.inj (hchain.symm.trans hu)
        rcases hcases with ⟨rfl,rfl⟩ | ⟨rfl,-,-,rfl⟩
        · obtain ⟨rfl,-⟩ := Prod.mk.inj (Option.some.inj hrun)
          refine ⟨⟨w,?_,?_,?_⟩,?_,failed_mark hf⟩
          · change n.chain.chainActive.head?=some w
            rw [hchain]
            rfl
          · change ((n.chain.orStatus [w] BLOCK_FAILED_CHILD).status w).failed=true
            rw [ChainState.status_or,if_pos (List.mem_singleton_self w)]
            exact failed_or_set _ (by decide)
          · intro hmem
            exact (ChainState.mem_erase.mp hmem).2 (List.mem_singleton_self w)
          · change pindex∈n.chain.chainActive
            rw [hchain]
            exact (among_iff.mp hin)
        · exact ih hrun rfl (failed_mark hf)
    · obtain ⟨-,hno⟩ := Prod.mk.inj (Option.some.inj hrun)
      cases hno

theorem invalidateBlock_stuck (hrun : d.invalidateBlock r pindex n=some (t,false)) :
    Stuck pindex t.chain := by
  rw [Dpow.invalidateBlock] at hrun
  cases hloop : d.invalidateLoop r pindex n.chain.chainActive
      {n with chain := n.chain.invalidBlockFound pindex} with
  | none =>
    rw [hloop] at hrun
    cases hrun
  | some res =>
    obtain ⟨u,ok⟩ := res
    rw [hloop] at hrun
    cases ok with
    | false =>
      obtain ⟨rfl,-⟩ := Prod.mk.inj (Option.some.inj hrun)
      exact invalidateLoop_stuck hloop rfl ChainState.marked_invalid
    | true =>
      dsimp only at hrun
      cases htip : u.chain.tip with
      | none =>
        rw [htip] at hrun
        cases hrun
      | some p =>
        rw [htip] at hrun
        cases hrun

/-- The active chain can be built on: nothing in it is marked and its tip is a
candidate. -/
structure ChainState.Usable (s : ChainState H) : Prop where
  unmarked : ∀h∈s.chainActive,(s.status h).failed=false
  candidate : ∀p∈s.tip,p∈s.setBlockIndexCandidates

/-- Whenever `InvalidateBlock` fails, the chain it leaves has a marked block in it, its
tip is not a candidate, and no new header is accepted on top. -/
theorem refused_rollback_unusable (d : Dpow H V) (r : NodeRound H) (pindex : H) (n t : ChainNode H V)
    (hrun : d.invalidateBlock r pindex n=some (t,false)) :
    ¬(∀h∈t.chain.chainActive,(t.chain.status h).failed=false) ∧
    ¬(∀p∈t.chain.tip,p∈t.chain.setBlockIndexCandidates) ∧
    ∀p∈t.chain.tip,∀genesis hash nBits checkBlockHeader contextual,hash≠genesis →
      t.chain.acceptNewHeader genesis hash p nBits checkBlockHeader contextual=none := by
  obtain ⟨⟨p,htip,hp,hno⟩,hmem,hf⟩ := invalidateBlock_stuck hrun
  refine ⟨?_,?_,?_⟩
  · intro hall
    rw [hall pindex hmem] at hf
    cases hf
  · intro hall
    exact hno (hall p htip)
  · intro q hq genesis hash nBits checkBlockHeader contextual hne
    have hqp : q=p := Option.some.inj (hq.symm.trans htip)
    rw [ChainState.acceptNewHeader,hqp]
    split_ifs with h₁ h₂ h₃
    · rfl
    · rfl
    · rfl
    · exact absurd ⟨hne,hp⟩ h₃
    · exact absurd ⟨hne,hp⟩ h₃

/-- Three connected blocks, of which the second one is notarized. -/
def notarizedChain : ChainNode Nat Unit :=
  { chain := { mapBlockIndex := [(2,some 1),(1,some 0),(0,none)]
               index := fun h => ⟨h,h+1,29,1,h+1,h+1⟩
               setBlockIndexCandidates := [2]
               mapBlocksUnlinked := []
               chainActive := [2,1,0]
               nBlockSequenceId := 4
               bestTip := some 2 }
    coins := () }

def notarizedSecond : Dpow Nat Unit := ⟨1,1,99,fun _ c => c,fun _ c => c⟩

def calmRound : NodeRound Nat := ⟨false,false,fun _ => some (.connected goodConnect),fun _ => true⟩

/-- Invalidating the notarized block takes the third block off and then stops. -/
theorem refused_at_notarized : ∃t : ChainNode Nat Unit,
    notarizedSecond.invalidateBlock calmRound 1 notarizedChain=some (t,false) ∧
    ¬(∀h∈t.chain.chainActive,(t.chain.status h).failed=false) :=
  ⟨_,rfl,(refused_rollback_unusable notarizedSecond calmRound 1 notarizedChain _ rfl).1⟩

/-- The marks and the missing candidate after that. -/
theorem notarized_tip_marked : ∃t : ChainNode Nat Unit,
    notarizedSecond.invalidateBlock calmRound 1 notarizedChain=some (t,false) ∧
    t.chain.chainActive=[1,0] ∧ ¬t.chain.Usable := by
  refine ⟨_,rfl,rfl,?_⟩
  intro hu
  have hmark := hu.unmarked 1 List.mem_cons_self
  revert hmark
  decide +kernel

end Refused

namespace ChainState

variable {s t : ChainState H} {a h p w : H} {rest : List H}

/-- The index and the places in the set are the same. -/
structure Placed (s t : ChainState H) : Prop where
  tree : t.mapBlockIndex=s.mapBlockIndex
  work : ∀h,(t.index h).chainWork=(s.index h).chainWork
  sequence : ∀h,(t.index h).nSequenceId=(s.index h).nSequenceId

namespace Placed

omit [LinearOrder H] in
theorem refl (s : ChainState H) : Placed s s := ⟨rfl,fun _ => rfl,fun _ => rfl⟩

omit [LinearOrder H] in
theorem trans {u : ChainState H} (h₁ : Placed s t) (h₂ : Placed t u) : Placed s u := by
  refine ⟨h₂.tree.trans h₁.tree,?_,?_⟩
  · intro h
    rw [h₂.work,h₁.work]
  · intro h
    rw [h₂.sequence,h₁.sequence]

omit [LinearOrder H] in
theorem rank (hp : Placed s t) (h : H) : t.rank h=s.rank h :=
  rank_congr (hp.work h) (hp.sequence h)

theorem lineage (hp : Placed s t) (h : H) : t.lineage h=s.lineage h := by
  rw [ChainState.lineage,hp.tree]
  rfl

end Placed

omit [LinearOrder H] in
theorem Restatused.placed (hr : Restatused s t) : Placed s t := by
  refine ⟨hr.tree,?_,?_⟩
  · intro h
    rw [hr.same h]
  · intro h
    rw [hr.same h]

/-- Work grows along the chain, the active chain is that of its tip, and no candidate
is worse than the tip. -/
structure Ordered (s : ChainState H) : Prop where
  grown : Forest.Grown s.mapBlockIndex
  work : ∀h p,s.pprev h=some p → (s.index p).chainWork<(s.index h).chainWork
  active : ∀p,s.tip=some p → s.chainActive=s.lineage p
  above : ∀c∈s.setBlockIndexCandidates,∀p∈s.tip,s.rank p ≤ s.rank c

theorem rank_lt_of_work (hw : (s.index a).chainWork<(s.index h).chainWork) :
    s.rank a<s.rank h := by
  rw [← workComparator_iff,workComparator,if_neg (Nat.lt_asymm hw),if_pos hw]

theorem Ordered.rank_le (ho : Ordered s) (ha : a∈s.lineage h) : s.rank a ≤ s.rank h :=
  ho.grown.forall_lineage (P := fun a => s.rank a ≤ s.rank h)
    (fun b q hq hb => (rank_lt_of_work (ho.work b q hq)).le.trans hb) (le_refl _) a ha

/-- A block of the active chain below the tip is worse than the tip. -/
theorem Ordered.rank_lt (ho : Ordered s) (htip : s.tip=some p) (ha : a∈s.chainActive)
    (hne : a≠p) : s.rank a<s.rank p := by
  rw [ho.active p htip] at ha
  have hle := ho.rank_le ha
  apply lt_of_le_of_ne hle
  intro heq
  exact hne (rank_inj heq)

/-- A candidate other than the tip is not in the active chain. -/
theorem Ordered.not_active (ho : Ordered s) (ha : a∈s.setBlockIndexCandidates)
    (hne : s.tip≠some a) : a∉s.chainActive := by
  intro hmem
  cases htip : s.tip with
  | none =>
    rw [List.head?_eq_none_iff.mp htip] at hmem
    cases hmem
  | some p =>
    have hap : a≠p := by
      rintro rfl
      exact hne htip
    exact absurd (ho.above a ha p htip) (not_le_of_gt (ho.rank_lt htip hmem hap))

theorem Ordered.placed (ho : Ordered s) (hp : Placed s t)
    (hact : ∀p,t.tip=some p → t.chainActive=s.lineage p)
    (habove : ∀c∈t.setBlockIndexCandidates,∀p∈t.tip,s.rank p ≤ s.rank c) : Ordered t := by
  refine ⟨?_,?_,?_,?_⟩
  · rw [hp.tree]
    exact ho.grown
  · intro h q hq
    rw [pprev,hp.tree] at hq
    rw [hp.work,hp.work]
    exact ho.work h q hq
  · intro q hq
    rw [hp.lineage]
    exact hact q hq
  · intro c hc q hq
    rw [hp.rank,hp.rank]
    exact habove c hc q hq

/-- The chain stays and nothing is added to the set. -/
theorem Ordered.fewer (ho : Ordered s) (hp : Placed s t) (hchain : t.chainActive=s.chainActive)
    (hsub : ∀c∈t.setBlockIndexCandidates,c∈s.setBlockIndexCandidates) : Ordered t := by
  have htip : t.tip=s.tip := by
    rw [tip,hchain]
    rfl
  apply ho.placed hp
  · intro q hq
    rw [hchain]
    exact ho.active q (htip.symm.trans hq)
  · intro c hc q hq
    rw [htip] at hq
    exact ho.above c (hsub c hc) q hq

/-- One block is taken off. -/
theorem Ordered.disconnect (ho : Ordered s) (hchain : s.chainActive=w::rest) :
    Ordered {s with chainActive := rest} := by
  have hw : s.lineage w=w::rest := by
    rw [← ho.active w (by rw [tip,hchain]; rfl),hchain]
  have hrest : ∀q,rest.head?=some q → rest=s.lineage q ∧ q∈s.lineage w := by
    intro q hq
    obtain ⟨xs,rfl⟩ := List.head?_eq_some_iff.mp hq
    have hsplit : Forest.lineage s.mapBlockIndex w=[w]++q::xs := hw
    refine ⟨(ho.grown.lineage_split hsplit).symm,?_⟩
    rw [hw]
    exact List.mem_cons_of_mem w List.mem_cons_self
  have hp : Placed s {s with chainActive := rest} := ⟨rfl,fun _ => rfl,fun _ => rfl⟩
  apply ho.placed hp
  · intro q hq
    exact (hrest q hq).1
  · intro c hc q hq
    have htip : s.tip=some w := by
      rw [tip,hchain]
      rfl
    exact (ho.rank_le (hrest q hq).2).trans (ho.above c hc w htip)

/-- One block is put on, and what is worse than it leaves the set. -/
theorem Ordered.connect (ho : Ordered s) (hp : Placed s t) (hw : w∈Forest.keys s.mapBlockIndex)
    (hchain : t.chainActive=w::s.chainActive) (hprev : s.pprev w=s.tip) :
    Ordered (t.dropWorse w) := by
  have hline : s.lineage w=w::s.chainActive := by
    cases htip : s.tip with
    | none =>
      rw [List.head?_eq_none_iff.mp htip]
      exact ho.grown.lineage_none hw (hprev.trans htip)
    | some q =>
      rw [ho.active q htip]
      exact ho.grown.lineage_some (hprev.trans htip)
  have htip : ∀q∈(t.dropWorse w).tip,w=q := by
    intro q hq
    have hhead : t.chainActive.head?=some q := hq
    rw [hchain] at hhead
    exact Option.some.inj hhead
  have hp' : Placed s (t.dropWorse w) := ⟨hp.tree,hp.work,hp.sequence⟩
  apply ho.placed hp'
  · intro q hq
    rw [← htip q hq,hline]
    exact hchain
  · intro c hc q hq
    have hkeep := (List.mem_filter.mp hc).2
    rw [← htip q hq,← hp.rank w,← hp.rank c]
    apply workComparator_false.mp
    simpa using hkeep

/-- What `FindMostWorkChain` does whatever the state: it keeps the chain and the
places, and what it returns is a candidate. -/
theorem findMostWorkLoop_frame {n : Nat} {o : Option H}
    (hrun : findMostWorkLoop n s=some (t,o)) :
    Placed s t ∧ t.chainActive=s.chainActive ∧
    (∀c∈t.setBlockIndexCandidates,c∈s.setBlockIndexCandidates) ∧
    ∀m∈o,m∈t.setBlockIndexCandidates := by
  induction n generalizing s with
  | zero => cases hrun
  | succ n ih =>
    rw [findMostWorkLoop] at hrun
    cases hfirst : s.rbegin s.setBlockIndexCandidates with
    | none =>
      rw [hfirst] at hrun
      obtain ⟨rfl,rfl⟩ := Prod.mk.inj (Option.some.inj hrun)
      exact ⟨Placed.refl s,rfl,fun c hc => hc,fun m hm => by cases hm⟩
    | some m =>
      rw [hfirst] at hrun
      dsimp only at hrun
      cases hpath : (s.branch m).dropWhile s.usable with
      | nil =>
        rw [hpath] at hrun
        dsimp only at hrun
        split_ifs at hrun
        obtain ⟨rfl,rfl⟩ := Prod.mk.inj (Option.some.inj hrun)
        refine ⟨Placed.refl s,rfl,fun c hc => hc,?_⟩
        intro m' hm'
        rw [← Option.some.inj hm']
        exact (rbegin_spec hfirst).1
      | cons b rest =>
        rw [hpath] at hrun
        dsimp only at hrun
        split_ifs at hrun
        obtain ⟨hp,hchain,hsub,hmem⟩ := ih hrun
        have hdrop : Placed s (s.dropChain ((s.branch m).takeWhile s.usable) b) ∧
            (s.dropChain ((s.branch m).takeWhile s.usable) b).chainActive=s.chainActive ∧
            ∀c∈(s.dropChain ((s.branch m).takeWhile s.usable) b).setBlockIndexCandidates,
              c∈s.setBlockIndexCandidates := by
          rw [dropChain]
          split_ifs with hf
          · exact ⟨(restatused_mark s _ _ (by decide) (by decide)).placed,rfl,
              fun c hc => (mem_erase.mp hc).1⟩
          · exact ⟨⟨rfl,fun _ => rfl,fun _ => rfl⟩,rfl,fun c hc => (mem_erase.mp hc).1⟩
        obtain ⟨hp₀,hchain₀,hsub₀⟩ := hdrop
        exact ⟨hp₀.trans hp,hchain.trans hchain₀,fun c hc => hsub₀ c (hsub c hc),hmem⟩

theorem Ordered.reconsider {b : H} (ho : Ordered s) (hrun : s.reconsiderBlock b=some t) :
    Ordered t ∧ t.chainActive=s.chainActive := by
  obtain ⟨-,-,rfl⟩ | ⟨p,hp,rfl⟩ := reconsider_cases hrun
  · exact ⟨ho.fewer (restatused_cleared s b s.setBlockIndexCandidates).placed rfl
      (fun c hc => hc),rfl⟩
  · refine ⟨ho.placed (restatused_cleared s b (s.reconsideredSet b p)).placed ho.active ?_,rfl⟩
    intro c hc q hq
    have hqp : q=p := Option.some.inj (hq.symm.trans hp)
    rcases mem_reconsideredSet.mp hc with ⟨-,hlt⟩ | hold
    · rw [hqp]
      exact hlt.le
    · exact ho.above c hold q hq

theorem Ordered.refill (ho : Ordered s) (htip : s.tip=some p) : Ordered (s.refill p) := by
  have hp : Placed s (s.refill p) := ⟨rfl,fun _ => rfl,fun _ => rfl⟩
  apply ho.placed hp ho.active
  intro c hc q hq
  have hqp : q=p := Option.some.inj (hq.symm.trans htip)
  have hmem : c∈_ ∪ s.setBlockIndexCandidates := hc
  rcases List.mem_union_iff.mp hmem with hnew | hold
  · have hfit := (List.mem_filter.mp hnew).2
    simp only [Bool.and_eq_true,Bool.not_eq_true'] at hfit
    rw [hqp]
    exact workComparator_false.mp hfit.2
  · exact ho.above c hold q hq

end ChainState

section Runs

open ChainState

variable {d : Dpow H V} {r : NodeRound H} {n t u : ChainNode H V} {pindex : H}

/-- What no call takes away: the notarized block stays in the active chain, and the
order of the candidates is kept. -/
structure Kept (d : Dpow H V) (n t : ChainNode H V) : Prop where
  tree : t.chain.mapBlockIndex=n.chain.mapBlockIndex
  notarized : d.notarizedhash∈n.chain.chainActive → d.notarizedhash∈t.chain.chainActive
  ordered : Ordered n.chain → Ordered t.chain

theorem Kept.refl (d : Dpow H V) (n : ChainNode H V) : Kept d n n := ⟨rfl,fun h => h,fun h => h⟩

theorem Kept.trans (h₁ : Kept d n t) (h₂ : Kept d t u) : Kept d n u :=
  ⟨h₂.tree.trans h₁.tree,fun h => h₂.notarized (h₁.notarized h),fun h => h₂.ordered (h₁.ordered h)⟩

theorem disconnectTip_kept {ok : Bool} (hrun : d.disconnectTip r n=some (t,ok)) : Kept d n t := by
  obtain ⟨w,rest,hchain,⟨-,rfl⟩ | ⟨-,hne,-,rfl⟩⟩ := disconnectTip_cases hrun
  · exact Kept.refl d t
  · refine ⟨rfl,?_,fun ho => ho.disconnect hchain⟩
    intro hmem
    rw [hchain] at hmem
    exact List.mem_of_ne_of_mem (Ne.symm hne) hmem

/-- Marking a block and taking it out of the set. -/
theorem mark_kept (n : ChainNode H V) (w : H) (flag : Status) (hm : flag&&&BLOCK_VALID_MASK=0#32)
    (hd : flag&&&BLOCK_HAVE_DATA=0#32) :
    Kept d n {n with chain := (n.chain.orStatus [w] flag).eraseCandidates [w]} :=
  ⟨rfl,fun h => h,fun ho => ho.fewer (restatused_mark n.chain [w] [w] hm hd).placed rfl
    (fun _ hc => (mem_erase.mp hc).1)⟩

theorem invalidateLoop_kept {l : List H} {ok : Bool}
    (hrun : d.invalidateLoop r pindex l n=some (t,ok)) : Kept d n t := by
  induction l generalizing n with
  | nil =>
    obtain ⟨rfl,-⟩ := Prod.mk.inj (Option.some.inj hrun)
    exact Kept.refl d n
  | cons w rest ih =>
    rw [Dpow.invalidateLoop] at hrun
    split_ifs at hrun with hin
    · have hmark := mark_kept (d := d) n w BLOCK_FAILED_CHILD (by decide) (by decide)
      cases hdis : d.disconnectTip r {n with
          chain := (n.chain.orStatus [w] BLOCK_FAILED_CHILD).eraseCandidates [w]} with
      | none =>
        rw [hdis] at hrun
        cases hrun
      | some res =>
        obtain ⟨u,ok'⟩ := res
        have hstep := hmark.trans (disconnectTip_kept hdis)
        rw [hdis] at hrun
        cases ok' with
        | false =>
          obtain ⟨rfl,-⟩ := Prod.mk.inj (Option.some.inj hrun)
          exact hstep
        | true => exact hstep.trans (ih hrun)
    · obtain ⟨rfl,-⟩ := Prod.mk.inj (Option.some.inj hrun)
      exact Kept.refl d n

theorem invalidateBlock_kept {ok : Bool} (hrun : d.invalidateBlock r pindex n=some (t,ok)) :
    Kept d n t := by
  rw [Dpow.invalidateBlock] at hrun
  have hmark := mark_kept (d := d) n pindex BLOCK_FAILED_VALID (by decide) (by decide)
  cases hloop : d.invalidateLoop r pindex n.chain.chainActive
      {n with chain := n.chain.invalidBlockFound pindex} with
  | none =>
    rw [hloop] at hrun
    cases hrun
  | some res =>
    obtain ⟨u,ok'⟩ := res
    have hkept := hmark.trans (invalidateLoop_kept hloop)
    rw [hloop] at hrun
    cases ok' with
    | false =>
      obtain ⟨rfl,-⟩ := Prod.mk.inj (Option.some.inj hrun)
      exact hkept
    | true =>
      dsimp only at hrun
      cases htip : u.chain.tip with
      | none =>
        rw [htip] at hrun
        cases hrun
      | some p =>
        rw [htip] at hrun
        obtain ⟨rfl,-⟩ := Prod.mk.inj (Option.some.inj hrun)
        exact hkept.trans ⟨rfl,fun h => h,fun ho => ho.refill htip⟩

theorem disconnectLoop_kept {l : List H} {fork : Option H} {ok : Bool}
    (hrun : d.disconnectLoop r fork l n=some (t,ok)) : Kept d n t := by
  induction l generalizing n with
  | nil =>
    obtain ⟨rfl,-⟩ := Prod.mk.inj (Option.some.inj hrun)
    exact Kept.refl d n
  | cons w rest ih =>
    rw [Dpow.disconnectLoop] at hrun
    split_ifs at hrun with hfork
    · obtain ⟨rfl,-⟩ := Prod.mk.inj (Option.some.inj hrun)
      exact Kept.refl d n
    · cases hdis : d.disconnectTip r n with
      | none =>
        rw [hdis] at hrun
        cases hrun
      | some res =>
        obtain ⟨u,ok'⟩ := res
        rw [hdis] at hrun
        cases ok' with
        | false =>
          obtain ⟨rfl,-⟩ := Prod.mk.inj (Option.some.inj hrun)
          exact disconnectTip_kept hdis
        | true => exact (disconnectTip_kept hdis).trans (ih hrun)

theorem prune_eq {s t : ChainState H} {p : H} (hrun : s.pruneBlockIndexCandidates=some t)
    (htip : s.tip=some p) : t=s.dropWorse p := by
  rw [pruneBlockIndexCandidates,htip] at hrun
  dsimp only at hrun
  split_ifs at hrun
  exact (Option.some.inj hrun).symm

theorem placed_connect (s : ChainState H) (x : H) (v : ConnectVerdict) :
    Placed s (s.connectTip x v) := by
  refine ⟨rfl,?_,?_⟩
  · intro h
    by_cases hne : h=x
    · subst hne
      rw [index_connect_self]
    · rw [index_connect_of_ne hne]
  · intro h
    by_cases hne : h=x
    · subst hne
      rw [index_connect_self]
    · rw [index_connect_of_ne hne]

/-- The blocks that a step connects are in the index. -/
theorem connectLoop_kept {l : List H} {old : Option H} {ok : Bool}
    (hrun : d.connectLoop r old l n=some (t,ok))
    (hkeys : Forest.Grown n.chain.mapBlockIndex → ∀x∈l,x∈Forest.keys n.chain.mapBlockIndex) :
    Kept d n t := by
  induction l generalizing n with
  | nil =>
    obtain ⟨rfl,-⟩ := Prod.mk.inj (Option.some.inj hrun)
    exact Kept.refl d n
  | cons x rest ih =>
    rw [Dpow.connectLoop] at hrun
    by_cases hp : n.chain.pprev x=n.chain.tip
    · rw [if_neg (not_not_intro hp)] at hrun
      cases hv : r.verdict x with
      | none =>
        rw [hv] at hrun
        obtain ⟨rfl,-⟩ := Prod.mk.inj (Option.some.inj hrun)
        exact Kept.refl d n
      | some verdict =>
        rw [hv] at hrun
        cases verdict with
        | invalid corruptionPossible =>
          dsimp only at hrun
          split_ifs at hrun
          · obtain ⟨rfl,-⟩ := Prod.mk.inj (Option.some.inj hrun)
            exact Kept.refl d n
          · obtain ⟨rfl,-⟩ := Prod.mk.inj (Option.some.inj hrun)
            exact mark_kept n x BLOCK_FAILED_VALID (by decide) (by decide)
        | connected v =>
          dsimp only at hrun
          cases hprune : (n.chain.connectTip x v).pruneBlockIndexCandidates with
          | none =>
            rw [hprune] at hrun
            cases hrun
          | some s =>
            have hs : s=(n.chain.connectTip x v).dropWorse x := prune_eq hprune rfl
            have hstep : Kept d n ⟨s,d.connectBlock x n.coins⟩ := by
              rw [hs]
              refine ⟨rfl,fun hmem => List.mem_cons_of_mem x hmem,?_⟩
              intro ho
              exact ho.connect (placed_connect n.chain x v) (hkeys ho.grown x List.mem_cons_self)
                rfl hp
            rw [hprune] at hrun
            dsimp only at hrun
            split_ifs at hrun
            · obtain ⟨rfl,-⟩ := Prod.mk.inj (Option.some.inj hrun)
              exact hstep
            · refine hstep.trans (ih hrun ?_)
              intro hgrown y hy
              rw [hs] at hgrown ⊢
              exact hkeys hgrown y (List.mem_cons_of_mem x hy)
    · rw [if_pos hp] at hrun
      cases hrun

theorem step_kept {m : H} {ok : Bool} (hrun : d.activateBestChainStep r m n=some (t,ok)) :
    Kept d n t := by
  rw [Dpow.activateBestChainStep] at hrun
  split_ifs at hrun with hnotarized hfork hlong
  · obtain ⟨res,hres,heq⟩ := Option.map_eq_some_iff.mp hrun
    obtain ⟨rfl,-⟩ := Prod.mk.inj heq
    exact invalidateBlock_kept hres
  · obtain ⟨rfl,-⟩ := Prod.mk.inj (Option.some.inj hrun)
    exact Kept.refl d n
  · cases hdis : d.disconnectLoop r (n.chain.findFork m) n.chain.chainActive n with
    | none =>
      rw [hdis] at hrun
      cases hrun
    | some res =>
      obtain ⟨u,ok'⟩ := res
      have hkept := disconnectLoop_kept hdis
      rw [hdis] at hrun
      cases ok' with
      | false =>
        obtain ⟨rfl,-⟩ := Prod.mk.inj (Option.some.inj hrun)
        exact hkept
      | true =>
        refine hkept.trans (connectLoop_kept hrun ?_)
        intro hgrown x hx
        rw [hkept.tree] at hgrown ⊢
        exact hgrown.lineage_subset_keys (mem_lineage_of_branch (List.mem_reverse.mp hx))

/-- `FindMostWorkChain` keeps the order too. -/
theorem find_kept {s : ChainState H} {o : Option H}
    (hfind : n.chain.findMostWorkChain=some (s,o)) : Kept d n {n with chain := s} := by
  obtain ⟨hp,hchain,hsub,-⟩ := findMostWorkLoop_frame hfind
  refine ⟨hp.tree,?_,fun ho => ho.fewer hp hchain hsub⟩
  intro hmem
  change d.notarizedhash∈s.chainActive
  rw [hchain]
  exact hmem

theorem round_kept (hrun : d.activateBestChain r n=some t) : Kept d n t := by
  rw [Dpow.activateBestChain] at hrun
  split_ifs at hrun with hdown
  · obtain rfl := Option.some.inj hrun
    exact Kept.refl d n
  · cases hfind : n.chain.findMostWorkChain with
    | none =>
      rw [hfind] at hrun
      cases hrun
    | some res =>
      obtain ⟨s,o⟩ := res
      have hkept := find_kept (d := d) hfind
      rw [hfind] at hrun
      cases o with
      | none =>
        obtain rfl := Option.some.inj hrun
        exact hkept
      | some m =>
        dsimp only at hrun
        split_ifs at hrun with hdone
        · obtain rfl := Option.some.inj hrun
          exact hkept
        · obtain ⟨res,hstep,rfl⟩ := Option.map_eq_some_iff.mp hrun
          exact hkept.trans (step_kept hstep)

theorem nodeStep_kept {op : NodeOp H} (hrun : chainNodeStep d n op=some t) : Kept d n t := by
  cases op with
  | activateBestChain r => exact round_kept hrun
  | invalidateBlock r hash =>
    obtain ⟨res,hres,rfl⟩ := Option.map_eq_some_iff.mp hrun
    exact invalidateBlock_kept hres
  | reconsiderBlock hash =>
    obtain ⟨s,hs,rfl⟩ := Option.map_eq_some_iff.mp hrun
    have htree : s.mapBlockIndex=n.chain.mapBlockIndex := by
      obtain ⟨-,-,rfl⟩ | ⟨p,-,rfl⟩ := reconsider_cases hs
      · rfl
      · rfl
    have hchain : s.chainActive=n.chain.chainActive := by
      obtain ⟨-,-,rfl⟩ | ⟨p,-,rfl⟩ := reconsider_cases hs
      · rfl
      · rfl
    refine ⟨htree,?_,fun ho => (ho.reconsider hs).1⟩
    intro hmem
    change d.notarizedhash∈s.chainActive
    rw [hchain]
    exact hmem

/-- A chain that forks off below the notarized height is invalidated, and nothing
moves. -/
theorem refused_step_stays {m : H} (hm : m∉n.chain.chainActive)
    (hrefused : n.chain.forksBelowNotarized r.fSkipdpow d.notarizedht m=true) :
    ∃t,d.activateBestChainStep r m n=some (t,false) ∧
      t.chain.chainActive=n.chain.chainActive ∧ t.coins=n.coins := by
  have hloop : ∀l,(∀w∈l,w∈n.chain.chainActive) →
      d.invalidateLoop r m l {n with chain := n.chain.invalidBlockFound m}=
        some ({n with chain := n.chain.invalidBlockFound m},true) := by
    intro l hl
    cases l with
    | nil => rfl
    | cons w rest => rw [Dpow.invalidateLoop,if_neg (fun hin => hm (hl m (among_iff.mp hin)))]
  have htip : ∃p,n.chain.tip=some p := by
    cases hp : n.chain.tip with
    | none =>
      rw [forksBelowNotarized,hp] at hrefused
      cases hrefused
    | some p => exact ⟨p,rfl⟩
  obtain ⟨p,hp⟩ := htip
  have hp' : (n.chain.invalidBlockFound m).tip=some p := hp
  refine ⟨{n with chain := (n.chain.invalidBlockFound m).refill p},?_,rfl,rfl⟩
  rw [Dpow.activateBestChainStep,if_pos hrefused,Dpow.invalidateBlock,
    hloop n.chain.chainActive (fun w hw => hw)]
  dsimp only
  rw [hp']
  rfl

/-- As long as the reported block stays the same, a notarized block in the active chain
stays there, and a step that refuses a chain forking below its height moves neither the
active chain nor the coins. -/
theorem notarized_block_stays (d : Dpow H V) (ops : List (NodeOp H)) (n t : ChainNode H V)
    (hordered : Ordered n.chain) (hrun : run (chainNodeStep d) ops n=some t) :
    (d.notarizedhash∈n.chain.chainActive → d.notarizedhash∈t.chain.chainActive) ∧
    ∀r s m,t.chain.findMostWorkChain=some (s,some m) → s.tip≠some m →
      s.forksBelowNotarized r.fSkipdpow d.notarizedht m=true →
      ∃u,d.activateBestChainStep r m {t with chain := s}=some (u,false) ∧
        u.chain.chainActive=t.chain.chainActive ∧ u.coins=t.coins := by
  have hkept : Kept d n t := by
    induction ops generalizing n with
    | nil =>
      obtain rfl := Option.some.inj hrun
      exact Kept.refl d n
    | cons op ops ih =>
      rw [run,Option.bind_eq_some_iff] at hrun
      obtain ⟨u,hu,hrest⟩ := hrun
      have hstep := nodeStep_kept hu
      exact hstep.trans (ih u (hstep.ordered hordered) hrest)
  refine ⟨hkept.notarized,?_⟩
  intro r s m hfind hne hrefused
  obtain ⟨-,hchain,-,hmem⟩ := findMostWorkLoop_frame hfind
  have hs := (find_kept (d := d) hfind).ordered (hkept.ordered hordered)
  obtain ⟨u,hu,hu₁,hu₂⟩ := refused_step_stays (d := d) (r := r) (n := {t with chain := s})
    (hs.not_active (hmem m rfl) hne) hrefused
  exact ⟨u,hu,hu₁.trans hchain,hu₂⟩

/-- Four connected blocks, the third one notarized, and a heavier block on the
first. -/
def forkedChain : ChainNode Nat Unit :=
  { chain := { mapBlockIndex := [(4,some 0),(3,some 2),(2,some 1),(1,some 0),(0,none)]
               index := fun h => if h=4 then ⟨1,100,11,1,2,5⟩ else ⟨h,h+1,29,1,h+1,h+1⟩
               setBlockIndexCandidates := [4,3]
               mapBlocksUnlinked := []
               chainActive := [3,2,1,0]
               nBlockSequenceId := 6
               bestTip := some 3 }
    coins := () }

def notarizedThird : Dpow Nat Unit := ⟨2,2,99,fun _ c => c,fun _ c => c⟩

theorem forkedChain_ordered : Ordered forkedChain.chain := by
  refine ⟨?_,?_,?_,?_⟩
  · simp [forkedChain,Forest.Grown,Forest.keys]
  · intro h p hp
    simp only [pprev,forkedChain,Forest.parent] at hp
    split_ifs at hp with h₄ h₃ h₂ h₁
    all_goals
      obtain rfl := Option.some.inj hp
      subst_vars
      decide
  · intro p hp
    obtain rfl := Option.some.inj hp
    rfl
  · intro c hc p hp
    obtain rfl := Option.some.inj hp
    apply workComparator_false.mp
    have hcases : c=4 ∨ c=3 := by simpa [forkedChain] using hc
    rcases hcases with rfl | rfl
    · decide
    · decide

/-- The heavier block is refused. -/
theorem heavier_fork_refused : ∃t s u : ChainNode Nat Unit,
    run (chainNodeStep notarizedThird) [.reconsiderBlock 3] forkedChain=some t ∧
    2∈t.chain.chainActive ∧ t.chain.findMostWorkChain=some (s.chain,some 4) ∧
    notarizedThird.activateBestChainStep calmRound 4 s=some (u,false) ∧
    u.chain.chainActive=[3,2,1,0] := by
  have hstays := notarized_block_stays notarizedThird [.reconsiderBlock 3] forkedChain _
    forkedChain_ordered rfl
  obtain ⟨u,hu,hchain,-⟩ := hstays.2 calmRound _ 4 rfl (by decide) (by decide)
  exact ⟨_,⟨_,_⟩,u,rfl,hstays.1 (by decide),rfl,hu,hchain⟩

end Runs

end Zdeex.Validity
