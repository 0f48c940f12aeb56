import Zdeex.Mempool.Descendants

namespace Zdeex.Mempool

open Zdeex.Framework Zdeex.Block Zdeex.Coins

variable {D : Type} {api : ScriptApi D} {pegscc : Bool} {view : COutPoint → Option CTxOut}

/-- What is left after two removals, with the descendants of what either picked. -/
theorem falls_after {pool rest last : List CTxMemPoolEntry} {R S : CTxMemPoolEntry → Prop}
    (hrest : ∀e,e∈rest ↔ e∈pool ∧ ¬Falls pegscc pool R e)
    (hlast : ∀e,e∈last ↔ e∈rest ∧ ¬Falls pegscc rest S e) (e : CTxMemPoolEntry) :
    e∈last ↔ e∈pool ∧ ¬Falls pegscc pool (fun e => R e ∨ S e) e := by
  rw [hlast,falls_or]
  constructor
  · rintro ⟨he,hno⟩
    obtain ⟨hpool,hR⟩ := (hrest e).mp he
    exact ⟨hpool,not_or.mpr ⟨hR,fun hS => hno ((falls_rest hrest he).mpr hS)⟩⟩
  · rintro ⟨hpool,hno⟩
    obtain ⟨hR,hS⟩ := not_or.mp hno
    have he := (hrest e).mpr ⟨hpool,hR⟩
    exact ⟨he,fun h => hS ((falls_rest hrest he).mp h)⟩

namespace CTxMemPool

variable {p q r : CTxMemPool} {e f : CTxMemPoolEntry} {tx : PoolTx}

section Reports

/-- Entries that go one by one, with the transactions that are reported. -/
inductive Reports : CTxMemPool → List PoolTx → CTxMemPool → Prop
  | refl (p : CTxMemPool) : Reports p [] p
  | step {p q : CTxMemPool} {e : CTxMemPoolEntry} {l : List PoolTx} :
      e∈p.mapTx → Reports (p.removeEntry e) l q → Reports p (e.tx::l) q

theorem Reports.shrinks {l : List PoolTx} (h : Reports p l q) : ∀f∈q.mapTx,f∈p.mapTx := by
  induction h with
  | refl p => exact fun f hf => hf
  | step _ _ ih => exact fun f hf => (mem_removeEntry.mp (ih f hf)).1

theorem removeLoop_reports (fRecursive : Bool) {n : Nat} {txToRemove : List Uint256}
    {removed removed' : List PoolTx}
    (hrun : removeLoop fRecursive n txToRemove (p,removed)=some (q,removed')) :
    ∃l,removed'=removed++l ∧ Reports p l q := by
  induction n generalizing p removed txToRemove with
  | zero =>
    cases txToRemove with
    | nil =>
      obtain ⟨rfl,rfl⟩ := Prod.mk.inj (Option.some.inj hrun)
      exact ⟨[],by simp,.refl p⟩
    | cons hash txToRemove => cases hrun
  | succ n ih =>
    cases txToRemove with
    | nil =>
      obtain ⟨rfl,rfl⟩ := Prod.mk.inj (Option.some.inj hrun)
      exact ⟨[],by simp,.refl p⟩
    | cons hash txToRemove =>
      rw [removeLoop] at hrun
      cases hfind : p.find hash with
      | none =>
        rw [hfind] at hrun
        exact ih hrun
      | some e =>
        rw [hfind] at hrun
        obtain ⟨l,hl,hreports⟩ := ih hrun
        exact ⟨e.tx::l,by rw [hl,List.append_assoc]; rfl,.step (find_some hfind).1 hreports⟩

/-- The reported transactions are those that are gone, each once. -/
theorem Reports.exact {l : List PoolTx} (h : Reports p l q) (hp : Sound api pegscc view p) :
    (l.map fun u => u.hash).Nodup ∧ ∀u,u∈l ↔ ∃e∈p.mapTx,e.tx=u ∧ e∉q.mapTx := by
  induction h with
  | refl p =>
    refine ⟨List.nodup_nil,?_⟩
    intro u
    constructor
    · intro hu
      cases hu
    · rintro ⟨e,he,-,hno⟩
      exact absurd he hno
  | @step p q e l he hreports ih =>
    obtain ⟨hnodup,hmem⟩ := ih (hp.removeEntry he)
    have hsub : ∀f∈q.mapTx,f∈(p.removeEntry e).mapTx := by
      intro f hf
      exact hreports.shrinks f hf
    refine ⟨?_,?_⟩
    · rw [List.map_cons,List.nodup_cons]
      refine ⟨?_,hnodup⟩
      intro hin
      obtain ⟨u,hu,hhash⟩ := List.mem_map.mp hin
      obtain ⟨f,hf,rfl,-⟩ := (hmem u).mp hu
      exact (mem_removeEntry.mp hf).2 hhash
    · intro u
      rw [List.mem_cons,hmem]
      constructor
      · rintro (rfl | ⟨f,hf,rfl,hgone⟩)
        · exact ⟨e,he,rfl,fun hq => (mem_removeEntry.mp (hsub e hq)).2 rfl⟩
        · exact ⟨f,(mem_removeEntry.mp hf).1,rfl,hgone⟩
      · rintro ⟨f,hf,rfl,hgone⟩
        by_cases heq : f.tx.hash=e.tx.hash
        · exact .inl (by rw [hp.same hf he heq])
        · exact .inr ⟨f,mem_removeEntry.mpr ⟨hf,heq⟩,rfl,hgone⟩

end Reports

section Entries

variable {V : Type} {l : List V} {v : V}

theorem mem_perInput {g : Nat → COutPoint → CTxOut → List V}
    (hl : ScriptApi.perInput pegscc view tx g=some l) (hv : v∈l) :
    ∃o∈tx.outpoints,∃j out,v∈g j o out := by
  obtain ⟨parts,hparts,rfl⟩ := Option.map_eq_some_iff.mp hl
  obtain ⟨part,hpart,hv⟩ := List.mem_flatten.mp hv
  obtain ⟨x,hx,hxpart⟩ := mem_of_mapM hparts hpart
  obtain ⟨out,-,rfl⟩ := Option.map_eq_some_iff.mp hxpart
  have hzip := (List.mem_filter.mp hx).1
  exact ⟨x.1,List.mem_of_getElem? (List.mem_zipIdx_iff_getElem?.mp hzip),x.2,out,hv⟩

/-- The keys of the address index name the transaction that has inserted them. -/
theorem addressEntries_txhash {l : List (CMempoolAddressDeltaKey × CMempoolAddressDelta)}
    {x : CMempoolAddressDeltaKey × CMempoolAddressDelta}
    (hl : api.addressEntries pegscc view e=some l) (hx : x∈l) : x.1.txhash=e.tx.hash := by
  obtain ⟨inputs,hinputs,rfl⟩ := Option.map_eq_some_iff.mp hl
  rcases List.mem_append.mp hx with hx | hx
  · obtain ⟨o,-,j,out,hx⟩ := mem_perInput hinputs hx
    rw [ScriptApi.inputDeltas] at hx
    split at hx
    · cases hx
    · obtain ⟨addr,-,rfl⟩ := List.mem_map.mp hx
      rfl
  · obtain ⟨part,hpart,hx⟩ := List.mem_flatten.mp hx
    obtain ⟨y,-,rfl⟩ := List.mem_map.mp hpart
    rw [ScriptApi.outputDeltas] at hx
    split at hx
    · cases hx
    · split at hx
      · cases hx
      · obtain ⟨addr,-,rfl⟩ := List.mem_map.mp hx
        rfl

/-- The keys of the spent index are inputs of the transaction that has inserted them. -/
theorem spentEntries_outpoint {l : List (COutPoint × CSpentIndexValue)}
    {x : COutPoint × CSpentIndexValue} (hl : api.spentEntries pegscc view e=some l) (hx : x∈l) :
    x.1∈e.tx.outpoints := by
  obtain ⟨o,ho,j,out,hx⟩ := mem_perInput hl hx
  have hkey : x.1=o := by
    rw [ScriptApi.spentValues] at hx
    split at hx
    · rw [List.mem_singleton.mp hx]
    · split at hx
      · rw [List.mem_singleton.mp hx]
      · obtain ⟨addr,-,rfl⟩ := List.mem_map.mp hx
        rfl
  rw [hkey]
  exact ho

end Entries

section Untouched

/-- Some transactions are gone with what they had in the indexes, and everything else is as
it was. A spent output can only have lost its entry where one of them spends it. -/
structure Untouched (p q : CTxMemPool) (gone : List PoolTx) : Prop where
  next : ∀o c,q.mapNextTx o=some c ↔ p.mapNextTx o=some c ∧ ∀u∈gone,u.hash≠c.ptx
  nullifiers : ∀nf h,q.mapSaplingNullifiers nf=some h ↔
    p.mapSaplingNullifiers nf=some h ∧ ∀u∈gone,u.hash≠h
  recent : ∀h,h∈q.mapRecentlyAddedTx ↔ h∈p.mapRecentlyAddedTx ∧ ∀u∈gone,u.hash≠h
  sequence : q.nRecentlyAddedSequence=p.nRecentlyAddedSequence
  address : ∀k,(∀u∈gone,u.hash≠k.txhash) → q.mapAddress k=p.mapAddress k
  addressInserted : ∀h,(∀u∈gone,u.hash≠h) → q.mapAddressInserted h=p.mapAddressInserted h
  spent : ∀o,(∀u∈gone,o∉u.outpoints) → q.mapSpent o=p.mapSpent o
  spentInserted : ∀h,(∀u∈gone,u.hash≠h) → q.mapSpentInserted h=p.mapSpentInserted h

theorem Untouched.refl (p : CTxMemPool) : Untouched p p [] := by
  have hnone : ∀{P : PoolTx → Prop},∀u∈([] : List PoolTx),P u := fun _ hu => by cases hu
  exact ⟨fun _ _ => ⟨fun h => ⟨h,hnone⟩,And.left⟩,fun _ _ => ⟨fun h => ⟨h,hnone⟩,And.left⟩,
    fun _ => ⟨fun h => ⟨h,hnone⟩,And.left⟩,rfl,fun _ _ => rfl,fun _ _ => rfl,fun _ _ => rfl,
    fun _ _ => rfl⟩

theorem Untouched.cons {l : List PoolTx} (h : Untouched p q [tx]) (hrest : Untouched q r l) :
    Untouched p r (tx::l) := by
  refine ⟨?_,?_,?_,hrest.sequence.trans h.sequence,?_,?_,?_,?_⟩
  · intro o c
    rw [hrest.next,h.next,and_assoc,← List.forall_mem_append,List.singleton_append]
  · intro nf h'
    rw [hrest.nullifiers,h.nullifiers,and_assoc,← List.forall_mem_append,List.singleton_append]
  · intro h'
    rw [hrest.recent,h.recent,and_assoc,← List.forall_mem_append,List.singleton_append]
  · intro k hk
    have hparts := List.forall_mem_cons.mp hk
    rw [hrest.address k hparts.2,h.address k (List.forall_mem_singleton.mpr hparts.1)]
  · intro i hi
    have hparts := List.forall_mem_cons.mp hi
    rw [hrest.addressInserted i hparts.2,
      h.addressInserted i (List.forall_mem_singleton.mpr hparts.1)]
  · intro o ho
    have hparts := List.forall_mem_cons.mp ho
    rw [hrest.spent o hparts.2,h.spent o (List.forall_mem_singleton.mpr hparts.1)]
  · intro i hi
    have hparts := List.forall_mem_cons.mp hi
    rw [hrest.spentInserted i hparts.2,h.spentInserted i (List.forall_mem_singleton.mpr hparts.1)]

/-- The removal of one entry. -/
theorem Sound.untouched (hp : Sound api pegscc view p) (he : e∈p.mapTx) :
    Untouched p (p.removeEntry e) [e.tx] := by
  have hrest := hp.removeEntry he
  refine ⟨?_,?_,?_,rfl,?_,?_,?_,?_⟩
  · intro o c
    rw [hrest.next,hp.next,List.forall_mem_singleton]
    constructor
    · rintro ⟨f,hf,hmem⟩
      obtain ⟨hf,hne⟩ := mem_removeEntry.mp hf
      rw [(mem_inPoints.mp hmem).1]
      exact ⟨⟨f,hf,hmem⟩,hne.symm⟩
    · rintro ⟨⟨f,hf,hmem⟩,hne⟩
      rw [(mem_inPoints.mp hmem).1] at hne
      exact ⟨f,mem_removeEntry.mpr ⟨hf,hne.symm⟩,hmem⟩
  · intro nf h
    rw [hrest.nullifiers,hp.nullifiers,List.forall_mem_singleton]
    constructor
    · rintro ⟨f,hf,hmem⟩
      obtain ⟨hf,hne⟩ := mem_removeEntry.mp hf
      refine ⟨⟨f,hf,hmem⟩,?_⟩
      rw [(mem_nullifierParts.mp hmem).1]
      exact hne.symm
    · rintro ⟨⟨f,hf,hmem⟩,hne⟩
      rw [(mem_nullifierParts.mp hmem).1] at hne
      exact ⟨f,mem_removeEntry.mpr ⟨hf,hne.symm⟩,hmem⟩
  · intro h
    change h∈p.mapRecentlyAddedTx.filter (fun h => h≠e.tx.hash) ↔ _
    rw [List.mem_filter,List.forall_mem_singleton,decide_eq_true_iff,ne_comm]
  · intro k hk
    rw [List.forall_mem_singleton] at hk
    change (untrack p.mapAddress p.mapAddressInserted e.tx.hash).1 k=p.mapAddress k
    apply untrack_of_not_mem
    intro keys hkeys hmem
    obtain ⟨f,hf,hfe,l,hl,rfl⟩ := hp.address.recorded _ keys hkeys
    obtain ⟨x,hx,rfl⟩ := List.mem_map.mp hmem
    rw [addressEntries_txhash hl hx] at hk
    exact hk hfe.symm
  · intro h hh
    rw [List.forall_mem_singleton] at hh
    change (untrack p.mapAddress p.mapAddressInserted e.tx.hash).2 h=_
    rw [untrack_inserted,if_neg hh.symm]
  · intro o ho
    rw [List.forall_mem_singleton] at ho
    change (untrack p.mapSpent p.mapSpentInserted e.tx.hash).1 o=p.mapSpent o
    apply untrack_of_not_mem
    intro keys hkeys hmem
    obtain ⟨f,hf,hfe,l,hl,rfl⟩ := hp.spent.recorded _ keys hkeys
    obtain ⟨x,hx,rfl⟩ := List.mem_map.mp hmem
    rw [hp.same hf he hfe] at hl
    exact ho (spentEntries_outpoint hl hx)
  · intro h hh
    rw [List.forall_mem_singleton] at hh
    change (untrack p.mapSpent p.mapSpentInserted e.tx.hash).2 h=_
    rw [untrack_inserted,if_neg hh.symm]

theorem Reports.untouched {l : List PoolTx} (h : Reports p l q) (hp : Sound api pegscc view p) :
    Untouched p q l := by
  induction h with
  | refl p => exact .refl p
  | step he _ ih => exact (hp.untouched he).cons (ih (hp.removeEntry he))

end Untouched

section Recursive

/-- What a call for a transaction starts from: the one of the pool with its id, or what
spends its outputs if there is none. -/
def RemovalRoot (pegscc : Bool) (p : CTxMemPool) (t : PoolTx) (e : CTxMemPoolEntry) : Prop :=
  e.tx.hash=t.hash ∨
    p.find t.hash=none ∧ ∃x∈e.tx.indexedInputs pegscc,x.1.hash=t.hash ∧ x.1.n<t.vout.length

/-- The roots are gone with all descendants, each reported once, and nothing else is. -/
structure TakesOut (pegscc : Bool) (p : CTxMemPool) (t : PoolTx) (q : CTxMemPool)
    (reported : List PoolTx) : Prop where
  left : ∀e,e∈q.mapTx ↔ e∈p.mapTx ∧ ¬Falls pegscc p.mapTx (RemovalRoot pegscc p t) e
  once : (reported.map fun u => u.hash).Nodup
  exact : ∀u,u∈reported ↔ ∃e∈p.mapTx,e.tx=u ∧ Falls pegscc p.mapTx (RemovalRoot pegscc p t) e
  untouched : Untouched p q reported

theorem Sound.takesOut (hp : Sound api pegscc view p) (t : PoolTx) (removed : List PoolTx) :
    ∃q l,p.remove t true removed=some (q,removed++l) ∧ TakesOut pegscc p t q l := by
  obtain ⟨q,removed',hrun,-⟩ := p.remove_returns t true removed
  obtain ⟨l,rfl,hreports⟩ := removeLoop_reports true hrun
  have hfalls : ∀e,e∈q.mapTx ↔ e∈p.mapTx ∧ ¬Falls pegscc p.mapTx (RemovalRoot pegscc p t) e := by
    intro e
    rw [removeLoop_falls hp hrun e,falls_congr]
    intro f hf
    have hspend := hp.mem_spenders (e := ⟨t,0,0,0,false,0⟩) hf
    rw [List.mem_cons,RemovalRoot]
    cases hfind : p.find t.hash with
    | none =>
      exact or_congr_right (hspend.trans (and_iff_right rfl).symm)
    | some g => simp
  obtain ⟨hnodup,hmem⟩ := hreports.exact hp
  refine ⟨q,l,hrun,hfalls,hnodup,?_,hreports.untouched hp⟩
  intro u
  rw [hmem u]
  constructor
  · rintro ⟨e,he,hu,hgone⟩
    refine ⟨e,he,hu,?_⟩
    by_contra hno
    exact hgone ((hfalls e).mpr ⟨he,hno⟩)
  · rintro ⟨e,he,hu,hfall⟩
    exact ⟨e,he,hu,fun hq => ((hfalls e).mp hq).2 hfall⟩

end Recursive

section Confirmed

variable {pool : List CTxMemPoolEntry} {mined : List Uint256} {hash : Uint256}
  {C C' : CTxMemPoolEntry → Prop}

/-- A pool while a block is taken out of it: `mined` are the transactions that are done, and
`C` picks what has conflicted with one of them. -/
structure Swept (pegscc : Bool) (pool : List CTxMemPoolEntry) (mined : List Uint256)
    (C : CTxMemPoolEntry → Prop) (q : CTxMemPool) : Prop where
  only : ∀e∈q.mapTx,e∈pool ∧ e.tx.hash∉mined
  apart : ∀e∈q.mapTx,¬C e
  kept : ∀e∈pool,e.tx.hash∉mined → ¬Falls pegscc pool C e → e∈q.mapTx
  cut : ∀g∈pool,g∉q.mapTx → g.tx.hash∉mined → ∀e∈q.mapTx,¬SpentBy pegscc g e

theorem swept_start (p : CTxMemPool) : Swept pegscc p.mapTx [] (fun _ => False) p :=
  ⟨fun _ he => ⟨he,List.not_mem_nil⟩,fun _ _ hno => hno,fun _ he _ _ => he,
    fun _ hg hno => absurd hg hno⟩

/-- The transaction itself goes without its descendants. -/
theorem Swept.confirm (h : Swept pegscc pool mined C p)
    (hq : ∀e,e∈q.mapTx ↔ e∈p.mapTx ∧ e.tx.hash≠hash) : Swept pegscc pool (mined++[hash]) C q := by
  have hmined : ∀e : CTxMemPoolEntry,e.tx.hash∉mined++[hash] ↔ e.tx.hash∉mined ∧ e.tx.hash≠hash :=
    fun e => by rw [List.mem_append,List.mem_singleton,not_or]
  refine ⟨?_,?_,?_,?_⟩
  · intro e he
    obtain ⟨he,hne⟩ := (hq e).mp he
    obtain ⟨hpool,hno⟩ := h.only e he
    exact ⟨hpool,(hmined e).mpr ⟨hno,hne⟩⟩
  · intro e he
    exact h.apart e ((hq e).mp he).1
  · intro e he hno hfall
    obtain ⟨hno,hne⟩ := (hmined e).mp hno
    exact (hq e).mpr ⟨h.kept e he hno hfall,hne⟩
  · intro g hg hgone hno e he
    obtain ⟨hno,hne⟩ := (hmined g).mp hno
    exact h.cut g hg (fun hp => hgone ((hq g).mpr ⟨hp,hne⟩)) hno e ((hq e).mp he).1

theorem Swept.congr (h : Swept pegscc pool mined C p) (hC : ∀e,C e → C' e)
    (hnew : ∀e∈p.mapTx,C' e → C e) : Swept pegscc pool mined C' p := by
  refine ⟨h.only,fun e he hC' => h.apart e he (hnew e he hC'),?_,h.cut⟩
  intro e he hno hfall
  exact h.kept e he hno (fun hf => hfall (hf.mono (fun _ hg => hg)
    (fun g hg hCg => .root hg (hC g hCg))))

/-- A transaction that conflicts goes with its descendants. -/
theorem Swept.evict (h : Swept pegscc pool mined C p) (hf : f∈p.mapTx) (hCf : C' f)
    (hC : ∀e,C e → C' e) (hnew : ∀e∈p.mapTx,C' e → C e ∨ e=f)
    (hq : ∀e,e∈q.mapTx ↔ e∈p.mapTx ∧ ¬Falls pegscc p.mapTx (fun e => e=f) e) :
    Swept pegscc pool mined C' q := by
  have hsub : ∀e∈q.mapTx,e∈p.mapTx := fun e he => ((hq e).mp he).1
  refine ⟨fun e he => h.only e (hsub e he),?_,?_,?_⟩
  · intro e he hCe
    rcases hnew e (hsub e he) hCe with hold | rfl
    · exact h.apart e (hsub e he) hold
    · exact ((hq e).mp he).2 (.root hf rfl)
  · intro e he hno hfall
    have hp : e∈p.mapTx := h.kept e he hno (fun hfalls => hfall (hfalls.mono (fun _ hg => hg)
      (fun g hg hCg => .root hg (hC g hCg))))
    refine (hq e).mpr ⟨hp,fun hfalls => hfall ?_⟩
    refine hfalls.mono (fun g hg => (h.only g hg).1) ?_
    rintro g hg rfl
    exact .root (h.only g hg).1 hCf
  · intro g hg hgone hno e he hspent
    by_cases hgp : g∈p.mapTx
    · have hfall : Falls pegscc p.mapTx (fun e => e=f) g := by
        by_contra hstay
        exact hgone ((hq g).mpr ⟨hgp,hstay⟩)
      exact ((hq e).mp he).2 (.child hfall (hsub e he) hspent)
    · exact h.cut g hg hgp hno e (hsub e he) hspent

/-- A call of `remove` for an entry of the pool. -/
theorem Sound.evict (hp : Sound api pegscc view p) (hf : f∈p.mapTx) {removed removed' : List PoolTx}
    (hrun : p.remove f.tx true removed=some (q,removed')) :
    ∀e,e∈q.mapTx ↔ e∈p.mapTx ∧ ¬Falls pegscc p.mapTx (fun e => e=f) e := by
  obtain ⟨q',l,hrun',hout⟩ := hp.takesOut f.tx removed
  rw [hrun] at hrun'
  obtain ⟨rfl,-⟩ := Prod.mk.inj (Option.some.inj hrun')
  intro e
  rw [hout.left e,falls_congr]
  intro g hg
  rw [RemovalRoot,hp.find_mem hf]
  constructor
  · rintro (heq | ⟨hno,-⟩)
    · exact hp.same hg hf heq
    · cases hno
  · rintro rfl
    exact .inl rfl

/-- One input or one nullifier of a mined transaction: `part` says which entries have it,
of which there is one at most, and the map leads to it. -/
theorem Swept.conflict (h : Swept pegscc pool mined C p) (hp : Sound api pegscc view p)
    {part : CTxMemPoolEntry → Prop} {found : Option Uint256}
    (hfound : ∀e∈p.mapTx,part e ↔ found=some e.tx.hash) {removed removed' : List PoolTx}
    (hrun : removeConflict tx found (p,removed)=some (q,removed')) :
    Swept pegscc pool mined (fun e => C e ∨ e.tx.hash≠tx.hash ∧ part e) q := by
  rw [removeConflict] at hrun
  cases hfind : found.bind p.find with
  | none =>
    rw [hfind] at hrun
    obtain ⟨rfl,-⟩ := Prod.mk.inj (Option.some.inj hrun)
    refine h.congr (fun _ => .inl) ?_
    rintro e he (hC | ⟨-,hpart⟩)
    · exact hC
    · rw [(hfound e he).mp hpart,Option.bind_some,hp.find_mem he] at hfind
      cases hfind
  | some f =>
    rw [hfind] at hrun
    obtain ⟨hash,rfl,hfind⟩ := Option.bind_eq_some_iff.mp hfind
    obtain ⟨hf,rfl⟩ := find_some hfind
    have hone : ∀e∈p.mapTx,part e → e=f := by
      intro e he hpart
      exact hp.same he hf (Option.some.inj ((hfound e he).mp hpart)).symm
    dsimp only at hrun
    split_ifs at hrun with heq
    · obtain ⟨rfl,-⟩ := Prod.mk.inj (Option.some.inj hrun)
      refine h.congr (fun _ => .inl) ?_
      rintro e he (hC | ⟨hne,hpart⟩)
      · exact hC
      · rw [hone e he hpart] at hne
        exact absurd heq hne
    · refine h.evict hf (.inr ⟨heq,(hfound f hf).mpr rfl⟩) (fun _ => .inl) ?_ (hp.evict hf hrun)
      rintro e he (hC | ⟨-,hpart⟩)
      · exact .inl hC
      · exact .inr (hone e he hpart)

/-- A loop over inputs or nullifiers of a mined transaction. -/
theorem Swept.conflicts {K : Type} {loop : List K → CTxMemPool × List PoolTx →
    Option (CTxMemPool × List PoolTx)} {found : CTxMemPool → K → Option Uint256}
    {part : CTxMemPoolEntry → K → Prop} (hnil : ∀s,loop [] s=some s)
    (hcons : ∀k l s,loop (k::l) s=(removeConflict tx (found s.1 k) s).bind (loop l))
    (hfound : ∀p,Sound api pegscc view p → ∀k,∀e∈p.mapTx,part e k ↔ found p k=some e.tx.hash)
    (h : Swept pegscc pool mined C p) (hp : Sound api pegscc view p) {keys : List K}
    {removed removed' : List PoolTx} (hrun : loop keys (p,removed)=some (q,removed')) :
    Swept pegscc pool mined (fun e => C e ∨ e.tx.hash≠tx.hash ∧ ∃k∈keys,part e k) q ∧
      Sound api pegscc view q := by
  induction keys generalizing p removed C with
  | nil =>
    rw [hnil] at hrun
    obtain ⟨rfl,-⟩ := Prod.mk.inj (Option.some.inj hrun)
    refine ⟨h.congr (fun _ => .inl) ?_,hp⟩
    rintro e - (hC | ⟨-,k,hk,-⟩)
    · exact hC
    · cases hk
  | cons k keys ih =>
    obtain ⟨r,removed₁,hr,hpr⟩ := removeConflict_returns tx (found p k) p removed
    rw [hcons,hr] at hrun
    have hstep := h.conflict hp (hfound p hp k) hr
    obtain ⟨hrest,hq⟩ := ih hstep (hp.removes hpr) hrun
    refine ⟨?_,hq⟩
    convert hrest using 2 with e
    rw [List.exists_mem_cons_iff,or_assoc,← and_or_left]

theorem Sound.found_next (hp : Sound api pegscc view p) (o : COutPoint) (he : e∈p.mapTx) :
    (∃i,(o,i)∈e.tx.indexedInputs pegscc) ↔ (p.mapNextTx o).map CInPoint.ptx=some e.tx.hash := by
  rw [Option.map_eq_some_iff]
  constructor
  · rintro ⟨i,hi⟩
    exact ⟨⟨e.tx.hash,i⟩,(hp.next _ _).mpr ⟨e,he,mem_inPoints.mpr ⟨rfl,hi⟩⟩,rfl⟩
  · rintro ⟨c,hc,hptx⟩
    obtain ⟨f,hf,hmem⟩ := (hp.next _ _).mp hc
    obtain ⟨hcf,hin⟩ := mem_inPoints.mp hmem
    rw [hp.same hf he (hcf.symm.trans hptx)] at hin
    exact ⟨c.n,hin⟩

theorem Sound.found_nullifier (hp : Sound api pegscc view p) (nf : Uint256) (he : e∈p.mapTx) :
    nf∈e.tx.nullifiers ↔ p.mapSaplingNullifiers nf=some e.tx.hash := by
  rw [hp.nullifiers]
  constructor
  · intro h
    exact ⟨e,he,mem_nullifierParts.mpr ⟨rfl,h⟩⟩
  · rintro ⟨f,hf,hmem⟩
    obtain ⟨hfe,hin⟩ := mem_nullifierParts.mp hmem
    rw [hp.same hf he hfe.symm] at hin
    exact hin

end Confirmed

/-- An entry spends, through an input that `mapNextTx` has, what a transaction spends, or
they share a nullifier. -/
def Conflicts (pegscc : Bool) (tx : PoolTx) (e : CTxMemPoolEntry) : Prop :=
  e.tx.hash≠tx.hash ∧ ((∃o∈tx.outpoints,∃i,(o,i)∈e.tx.indexedInputs pegscc) ∨
    ∃nf∈tx.nullifiers,nf∈e.tx.nullifiers)

section Block

variable {pool : List CTxMemPoolEntry} {mined : List Uint256} {C : CTxMemPoolEntry → Prop}

theorem Swept.removeConflicts (h : Swept pegscc pool mined C p) (hp : Sound api pegscc view p)
    {removed removed' : List PoolTx} (hrun : p.removeConflicts tx removed=some (q,removed')) :
    Swept pegscc pool mined (fun e => C e ∨ Conflicts pegscc tx e) q ∧ Sound api pegscc view q := by
  obtain ⟨⟨r,removed₁⟩,hr,hrun⟩ := Option.bind_eq_some_iff.mp hrun
  obtain ⟨hin,hr⟩ := h.conflicts (fun _ => rfl) (fun _ _ _ => rfl)
    (fun p hp o e he => hp.found_next o he) hp hr
  obtain ⟨hshielded,hq⟩ := hin.conflicts (fun _ => rfl) (fun _ _ _ => rfl)
    (fun p hp nf e he => hp.found_nullifier nf he) hr hrun
  refine ⟨?_,hq⟩
  convert hshielded using 2 with e
  rw [Conflicts,and_or_left,or_assoc]

theorem removeLoop_nil (fRecursive : Bool) (n : Nat) (s : CTxMemPool × List PoolTx) :
    removeLoop fRecursive n [] s=some s := by
  cases n <;> rfl

/-- The removal that is not recursive. -/
theorem remove_one {removed removed' : List PoolTx}
    (hrun : p.remove tx false removed=some (q,removed')) :
    ∀e,e∈q.mapTx ↔ e∈p.mapTx ∧ e.tx.hash≠tx.hash := by
  change removeLoop false (1+_) [tx.hash] (p,removed)=_ at hrun
  rw [Nat.add_comm 1,removeLoop] at hrun
  cases hfind : p.find tx.hash with
  | none =>
    rw [hfind] at hrun
    dsimp only at hrun
    rw [removeLoop_nil] at hrun
    obtain ⟨rfl,-⟩ := Prod.mk.inj (Option.some.inj hrun)
    exact fun e => ⟨fun he => ⟨he,find_none hfind e he⟩,And.left⟩
  | some f =>
    rw [hfind] at hrun
    dsimp only at hrun
    rw [if_neg Bool.false_ne_true,removeLoop_nil] at hrun
    obtain ⟨rfl,-⟩ := Prod.mk.inj (Option.some.inj hrun)
    intro e
    rw [mem_removeEntry,(find_some hfind).2]

/-- One transaction of the block. -/
theorem Swept.mine (h : Swept pegscc pool mined C p) (hp : Sound api pegscc view p)
    {vtx : List PoolTx} {conflicts conflicts' : List PoolTx}
    (hrun : removeForBlock vtx (p,conflicts)=some (q,conflicts')) :
    Swept pegscc pool (mined++vtx.map fun tx => tx.hash)
      (fun e => C e ∨ ∃tx∈vtx,Conflicts pegscc tx e) q := by
  induction vtx generalizing p mined conflicts C with
  | nil =>
    obtain ⟨rfl,-⟩ := Prod.mk.inj (Option.some.inj hrun)
    simpa using h
  | cons tx vtx ih =>
    obtain ⟨r,removed,hr,hpr⟩ := p.remove_returns tx false []
    obtain ⟨s,conflicts₁,hs,-⟩ := r.removeConflicts_returns tx conflicts
    rw [removeForBlock,hr] at hrun
    dsimp only at hrun
    rw [hs] at hrun
    obtain ⟨hconf,hsound⟩ := (h.confirm (remove_one hr)).removeConflicts (hp.removes hpr) hs
    have hrest := ih hconf hsound hrun
    convert hrest using 1
    · rw [List.map_cons,List.append_assoc,List.singleton_append]
    · funext e
      rw [List.exists_mem_cons_iff,or_assoc]

/-- The block is gone with what conflicts with it. The descendants of conflicts are gone
where none of the ones on the way is mined; where nothing that is mined descends from a
conflict, as in a block that connects, these and no others are gone. -/
structure TakesBlock (pegscc : Bool) (p : CTxMemPool) (vtx : List PoolTx) (q : CTxMemPool) :
    Prop where
  only : ∀e∈q.mapTx,e∈p.mapTx ∧ e.tx.hash∉vtx.map fun tx => tx.hash
  apart : ∀e∈q.mapTx,∀tx∈vtx,¬Conflicts pegscc tx e
  orphans : ∀e∈q.mapTx,
    ¬Falls pegscc (p.mapTx.filter fun e => e.tx.hash∉vtx.map fun tx => tx.hash)
      (fun e => ∃tx∈vtx,Conflicts pegscc tx e) e
  kept : ∀e∈p.mapTx,(e.tx.hash∉vtx.map fun tx => tx.hash) →
    ¬Falls pegscc p.mapTx (fun e => ∃tx∈vtx,Conflicts pegscc tx e) e → e∈q.mapTx
  exact : (∀e∈p.mapTx,(e.tx.hash∈vtx.map fun tx => tx.hash) →
      ¬Falls pegscc p.mapTx (fun e => ∃tx∈vtx,Conflicts pegscc tx e) e) →
    ∀e,e∈q.mapTx ↔ e∈p.mapTx ∧ (e.tx.hash∉vtx.map fun tx => tx.hash) ∧
      ¬Falls pegscc p.mapTx (fun e => ∃tx∈vtx,Conflicts pegscc tx e) e

theorem Swept.orphans (h : Swept pegscc pool mined C q)
    (hfall : Falls pegscc (pool.filter fun e => e.tx.hash∉mined) C e) : e∉q.mapTx := by
  induction hfall with
  | root _ hC => exact fun hq => h.apart _ hq hC
  | child hparent _ hspent ih =>
    obtain ⟨hpool,hno⟩ := List.mem_filter.mp hparent.mem
    exact fun hq => h.cut _ hpool ih (by simpa using hno) _ hq hspent

theorem falls_filter (hno : ∀e∈pool,e.tx.hash∈mined → ¬Falls pegscc pool C e)
    (hfall : Falls pegscc pool C e) :
    Falls pegscc (pool.filter fun e => e.tx.hash∉mined) C e := by
  have hin : ∀e,Falls pegscc pool C e → e∈pool.filter fun e => e.tx.hash∉mined := by
    intro e h
    refine List.mem_filter.mpr ⟨h.mem,?_⟩
    simpa using fun hmem => hno e h.mem hmem h
  induction hfall with
  | root he hC => exact .root (hin _ (.root he hC)) hC
  | child hparent he hspent ih => exact .child ih (hin _ (.child hparent he hspent)) hspent

/-- Where nothing that is mined descends from a conflict, the rest is known exactly. -/
theorem Swept.exact (h : Swept pegscc pool mined C q)
    (hno : ∀e∈pool,e.tx.hash∈mined → ¬Falls pegscc pool C e) (e : CTxMemPoolEntry) :
    e∈q.mapTx ↔ e∈pool ∧ e.tx.hash∉mined ∧ ¬Falls pegscc pool C e := by
  constructor
  · intro he
    obtain ⟨hpool,hmined⟩ := h.only e he
    exact ⟨hpool,hmined,fun hfall => h.orphans (falls_filter hno hfall) he⟩
  · rintro ⟨he,hmined,hfall⟩
    exact h.kept e he hmined hfall

theorem Sound.takesBlock (hp : Sound api pegscc view p) (vtx conflicts : List PoolTx) :
    ∃q conflicts',removeForBlock vtx (p,conflicts)=some (q,conflicts') ∧
      TakesBlock pegscc p vtx q := by
  obtain ⟨q,conflicts',hrun,-⟩ := removeForBlock_returns vtx p conflicts
  have hswept := (@swept_start pegscc p).mine hp hrun
  simp only [List.nil_append,false_or] at hswept
  refine ⟨q,conflicts',hrun,hswept.only,?_,?_,hswept.kept,hswept.exact⟩
  · intro e he tx htx hconf
    exact hswept.apart e he ⟨tx,htx,hconf⟩
  · exact fun e he hfall => hswept.orphans hfall he

end Block

end CTxMemPool

open CTxMemPool

/-- In every pool that calls lead to, a recursive removal and the connection of a block
take out what they should and nothing else. -/
theorem removals_exact (api : ScriptApi D) (pegscc : Bool) (view : COutPoint → Option CTxOut)
    (ops : List PoolOp) (p : CTxMemPool)
    (hops : Guarded (poolStep api pegscc view) (Admitted api pegscc view) ops CTxMemPool.empty)
    (hrun : run (poolStep api pegscc view) ops CTxMemPool.empty=some p) :
    (∀t removed,∃q l,p.remove t true removed=some (q,removed++l) ∧ TakesOut pegscc p t q l) ∧
    ∀vtx conflicts,∃q conflicts',CTxMemPool.removeForBlock vtx (p,conflicts)=some (q,conflicts') ∧
      TakesBlock pegscc p vtx q := by
  have hp := reachable_sound hops hrun
  exact ⟨hp.takesOut,hp.takesBlock⟩

/-- The first transaction is spent by the second one. -/
def spentChain : List PoolOp :=
  [.addUnchecked (poolEntry (spendTx 1 [⟨8,0⟩])),.addUnchecked (poolEntry (spendTx 2 [⟨1,0⟩]))]

theorem spent_chain_removals : ∃p,
    run (poolStep plainApi false oneOutput) spentChain CTxMemPool.empty=some p ∧
    (∀t removed,∃q l,p.remove t true removed=some (q,removed++l) ∧ TakesOut false p t q l) ∧
    ∀vtx conflicts,∃q conflicts',CTxMemPool.removeForBlock vtx (p,conflicts)=some (q,conflicts') ∧
      TakesBlock false p vtx q := by
  refine ⟨_,rfl,removals_exact plainApi false oneOutput spentChain _ ?_ rfl⟩
  refine ⟨⟨rfl,by decide +kernel,fun e he => by cases he⟩,?_⟩
  intro p hp
  obtain rfl := Option.some.inj hp
  refine ⟨⟨by decide +kernel,by decide +kernel,?_⟩,fun _ _ => trivial⟩
  intro e he
  rw [List.mem_singleton.mp he]
  exact ⟨by decide +kernel,by decide +kernel,fun nf hnf => by cases hnf⟩

/-- An import of coins that were burnt in the given transaction. -/
def importTx (hash burn : Uint256) : PoolTx := spendTx hash [⟨burn,CTransaction.importMarker⟩]

/-- A conflicting transaction, one that spends it and is mined, and one that spends that. -/
def minedBetween : List PoolOp :=
  [.addUnchecked (poolEntry (spendTx 1 [⟨8,0⟩])),.addUnchecked (poolEntry (spendTx 2 [⟨1,0⟩])),
    .addUnchecked (poolEntry (spendTx 3 [⟨2,0⟩]))]

theorem minedBetween_admitted :
    Guarded (poolStep plainApi false oneOutput) (Admitted plainApi false oneOutput) minedBetween
      CTxMemPool.empty := by
  refine ⟨⟨rfl,by decide +kernel,fun e he => by cases he⟩,?_⟩
  intro p hp
  obtain rfl := Option.some.inj hp
  refine ⟨⟨by decide +kernel,by decide +kernel,?_⟩,?_⟩
  · intro e he
    rw [List.mem_singleton.mp he]
    exact ⟨by decide +kernel,by decide +kernel,fun nf hnf => by cases hnf⟩
  intro p hp
  obtain rfl := Option.some.inj hp
  refine ⟨⟨by decide +kernel,by decide +kernel,?_⟩,fun _ _ => trivial⟩
  intro e he
  rcases List.mem_cons.mp he with rfl | he
  · exact ⟨by decide +kernel,by decide +kernel,fun nf hnf => by cases hnf⟩
  · rw [List.mem_singleton.mp he]
    exact ⟨by decide +kernel,by decide +kernel,fun nf hnf => by cases hnf⟩

/-- The block takes the middle one out before it meets the conflict. -/
theorem minedBetween_run : ∃p q conflicts,
    run (poolStep plainApi false oneOutput) minedBetween CTxMemPool.empty=some p ∧
    p.mapTx=[poolEntry (spendTx 1 [⟨8,0⟩]),poolEntry (spendTx 2 [⟨1,0⟩]),
      poolEntry (spendTx 3 [⟨2,0⟩])] ∧
    CTxMemPool.removeForBlock [spendTx 2 [⟨1,0⟩],spendTx 9 [⟨8,0⟩]] (p,[])=some (q,conflicts) ∧
    q.mapTx=[poolEntry (spendTx 3 [⟨2,0⟩])] :=
  ⟨_,_,_,rfl,by decide +kernel,rfl,by decide +kernel⟩

/-- An import in the pool outlives the block with another import of the same coins, and
what descends from a conflict through a transaction of the block outlives it too. -/
theorem import_outlives_block :
    (∃p q conflicts,
      run (poolStep plainApi false oneOutput) [.addUnchecked (poolEntry (importTx 4 7))]
        CTxMemPool.empty=some p ∧
      Fresh false CTxMemPool.empty (importTx 4 7) ∧
      CTxMemPool.removeForBlock [importTx 5 7] (p,[])=some (q,conflicts) ∧
      ¬∀e∈q.mapTx,∀tx∈[importTx 5 7],∀o∈e.tx.outpoints,o∉tx.outpoints) ∧
    Guarded (poolStep plainApi false oneOutput) (Admitted plainApi false oneOutput) minedBetween
      CTxMemPool.empty ∧
    ∃p q conflicts,run (poolStep plainApi false oneOutput) minedBetween CTxMemPool.empty=some p ∧
      CTxMemPool.removeForBlock [spendTx 2 [⟨1,0⟩],spendTx 9 [⟨8,0⟩]] (p,[])=some (q,conflicts) ∧
      ¬∀e∈q.mapTx,¬Falls false p.mapTx
        (fun e => ∃tx∈[spendTx 2 [⟨1,0⟩],spendTx 9 [⟨8,0⟩]],Conflicts false tx e) e := by
  refine ⟨?_,minedBetween_admitted,?_⟩
  · refine ⟨_,_,_,rfl,⟨rfl,by decide +kernel,fun e he => by cases he⟩,rfl,?_⟩
    intro hall
    exact hall (poolEntry (importTx 4 7)) (by decide +kernel) (importTx 5 7)
      (List.mem_singleton_self _) ⟨7,CTransaction.importMarker⟩ (by decide +kernel)
      (by decide +kernel)
  · obtain ⟨p,q,conflicts,hrun,hpool,hblock,hleft⟩ := minedBetween_run
    refine ⟨p,q,conflicts,hrun,hblock,fun hall => ?_⟩
    rw [hpool,hleft] at hall
    have hroot : Falls false [poolEntry (spendTx 1 [⟨8,0⟩]),poolEntry (spendTx 2 [⟨1,0⟩]),
        poolEntry (spendTx 3 [⟨2,0⟩])]
        (fun e => ∃tx∈[spendTx 2 [⟨1,0⟩],spendTx 9 [⟨8,0⟩]],Conflicts false tx e)
        (poolEntry (spendTx 1 [⟨8,0⟩])) :=
      .root List.mem_cons_self ⟨spendTx 9 [⟨8,0⟩],by simp,by decide +kernel,
        .inl ⟨⟨8,0⟩,by decide +kernel,0,by decide +kernel⟩⟩
    have hmiddle : SpentBy false (poolEntry (spendTx 1 [⟨8,0⟩])) (poolEntry (spendTx 2 [⟨1,0⟩])) :=
      ⟨(⟨1,0⟩,0),by decide +kernel,by decide +kernel,by decide +kernel⟩
    have hlast : SpentBy false (poolEntry (spendTx 2 [⟨1,0⟩])) (poolEntry (spendTx 3 [⟨2,0⟩])) :=
      ⟨(⟨2,0⟩,0),by decide +kernel,by decide +kernel,by decide +kernel⟩
    exact hall _ (List.mem_singleton_self _)
      ((hroot.child (by simp) hmiddle).child (by simp) hlast)

end Zdeex.Mempool
