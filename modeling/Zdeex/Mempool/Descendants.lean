import Zdeex.Mempool.Indexes

namespace Zdeex.Mempool

open Zdeex.Framework Zdeex.Block Zdeex.Coins

variable {D : Type} {api : ScriptApi D} {pegscc : Bool} {view : COutPoint → Option CTxOut}

section Descendants

variable {pool rest : List CTxMemPoolEntry} {R S : CTxMemPoolEntry → Prop}
  {e f : CTxMemPoolEntry}

/-- The second transaction spends an output of the first one. -/
def SpentBy (pegscc : Bool) (e f : CTxMemPoolEntry) : Prop :=
  ∃x∈f.tx.indexedInputs pegscc,x.1.hash=e.tx.hash ∧ x.1.n<e.tx.vout.length

/-- The entries of a pool that are picked, with their descendants. -/
inductive Falls (pegscc : Bool) (pool : List CTxMemPoolEntry) (R : CTxMemPoolEntry → Prop) :
    CTxMemPoolEntry → Prop
  | root {e : CTxMemPoolEntry} : e∈pool → R e → Falls pegscc pool R e
  | child {e f : CTxMemPoolEntry} :
      Falls pegscc pool R e → f∈pool → SpentBy pegscc e f → Falls pegscc pool R f

theorem Falls.mem (h : Falls pegscc pool R e) : e∈pool := by
  cases h with
  | root he _ => exact he
  | child _ he _ => exact he

theorem Falls.mono (hpool : ∀e∈pool,e∈rest) (hR : ∀e∈pool,R e → Falls pegscc rest S e)
    (h : Falls pegscc pool R e) : Falls pegscc rest S e := by
  induction h with
  | root he hRe => exact hR _ he hRe
  | child _ hf hspent ih => exact .child ih (hpool _ hf) hspent

theorem falls_congr (h : ∀e∈pool,R e ↔ S e) :
    Falls pegscc pool R e ↔ Falls pegscc pool S e := by
  constructor
  · intro hR
    exact hR.mono (fun _ he => he) (fun f hf hRf => .root hf ((h f hf).mp hRf))
  · intro hS
    exact hS.mono (fun _ he => he) (fun f hf hSf => .root hf ((h f hf).mpr hSf))

theorem falls_none (h : ∀e∈pool,¬R e) : ¬Falls pegscc pool R e := by
  intro hfall
  induction hfall with
  | root he hR => exact h _ he hR
  | child _ _ _ ih => exact ih

theorem falls_or :
    Falls pegscc pool (fun e => R e ∨ S e) e ↔ Falls pegscc pool R e ∨ Falls pegscc pool S e := by
  constructor
  · intro h
    induction h with
    | root he hor =>
      rcases hor with hR | hS
      · exact .inl (.root he hR)
      · exact .inr (.root he hS)
    | child _ hf hspent ih =>
      rcases ih with hR | hS
      · exact .inl (.child hR hf hspent)
      · exact .inr (.child hS hf hspent)
  · rintro (h | h)
    · exact h.mono (fun _ he => he) (fun e he hR => .root he (.inl hR))
    · exact h.mono (fun _ he => he) (fun e he hS => .root he (.inr hS))

/-- What is picked after a first removal falls as it would have fallen before. -/
theorem falls_rest (hrest : ∀e,e∈rest ↔ e∈pool ∧ ¬Falls pegscc pool R e) (he : e∈rest) :
    Falls pegscc rest S e ↔ Falls pegscc pool S e := by
  constructor
  · intro h
    exact h.mono (fun f hf => ((hrest f).mp hf).1) (fun f hf hS => .root ((hrest f).mp hf).1 hS)
  · intro h
    have hstay : ∀e,Falls pegscc pool S e → ¬Falls pegscc pool R e → Falls pegscc rest S e := by
      intro e h
      induction h with
      | root he hS =>
        intro hno
        exact .root ((hrest _).mpr ⟨he,hno⟩) hS
      | child _ hf hspent ih =>
        intro hno
        have hparent := ih (fun hR => hno (.child hR hf hspent))
        exact .child hparent ((hrest _).mpr ⟨hf,hno⟩) hspent
    exact hstay e h ((hrest e).mp he).2

end Descendants

namespace CTxMemPool

variable {p q : CTxMemPool} {e f : CTxMemPoolEntry} {hash : Uint256} {tx : PoolTx}

section Removed

theorem Sound.find_mem (hp : Sound api pegscc view p) (he : e∈p.mapTx) :
    p.find e.tx.hash=some e := by
  cases hfind : p.find e.tx.hash with
  | none => exact absurd rfl (find_none hfind e he)
  | some f =>
    obtain ⟨hf,hhash⟩ := find_some hfind
    rw [hp.same hf he hhash]

/-- `mapNextTx` leads from a transaction to those that spend its outputs. -/
theorem Sound.mem_spenders (hp : Sound api pegscc view p) (hf : f∈p.mapTx) :
    f.tx.hash∈p.spenders e.tx.hash e.tx.vout.length ↔ SpentBy pegscc e f := by
  rw [spenders,List.mem_filterMap]
  constructor
  · rintro ⟨i,hi,hmap⟩
    obtain ⟨c,hc,hptx⟩ := Option.map_eq_some_iff.mp hmap
    obtain ⟨g,hg,hin⟩ := (hp.next _ _).mp hc
    obtain ⟨hgp,hgn⟩ := mem_inPoints.mp hin
    rw [hp.same hg hf (hgp.symm.trans hptx)] at hgn
    exact ⟨_,hgn,rfl,List.mem_range.mp hi⟩
  · rintro ⟨⟨o,i⟩,hx,hhash,hn⟩
    have hnext : p.mapNextTx o=some ⟨f.tx.hash,i⟩ :=
      (hp.next _ _).mpr ⟨f,hf,mem_inPoints.mpr ⟨rfl,hx⟩⟩
    have ho : (⟨e.tx.hash,o.n⟩ : COutPoint)=o := by
      rw [← hhash]
    refine ⟨o.n,List.mem_range.mpr hn,?_⟩
    rw [ho,hnext]
    rfl

theorem mem_removeEntry : f∈(p.removeEntry e).mapTx ↔ f∈p.mapTx ∧ f.tx.hash≠e.tx.hash := by
  change f∈p.mapTx.filter (fun f => f.tx.hash≠e.tx.hash) ↔ _
  rw [List.mem_filter,decide_eq_true_iff]

/-- The recursive loop removes the queued transactions and their descendants. -/
theorem removeLoop_falls {n : Nat} {txToRemove : List Uint256} {removed removed' : List PoolTx}
    (hp : Sound api pegscc view p)
    (hrun : removeLoop true n txToRemove (p,removed)=some (q,removed')) :
    ∀e,e∈q.mapTx ↔ e∈p.mapTx ∧ ¬Falls pegscc p.mapTx (fun e => e.tx.hash∈txToRemove) e := by
  induction n generalizing txToRemove p removed with
  | zero =>
    cases txToRemove with
    | nil =>
      obtain ⟨rfl,-⟩ := Prod.mk.inj (Option.some.inj hrun)
      intro e
      exact ⟨fun he => ⟨he,falls_none (fun f _ hmem => by cases hmem)⟩,And.left⟩
    | cons hash txToRemove => cases hrun
  | succ n ih =>
    cases txToRemove with
    | nil =>
      obtain ⟨rfl,-⟩ := Prod.mk.inj (Option.some.inj hrun)
      intro e
      exact ⟨fun he => ⟨he,falls_none (fun f _ hmem => by cases hmem)⟩,And.left⟩
    | cons hash txToRemove =>
      rw [removeLoop] at hrun
      cases hfind : p.find hash with
      | none =>
        rw [hfind] at hrun
        intro e
        rw [ih hp hrun e]
        have hsame : Falls pegscc p.mapTx (fun e => e.tx.hash∈txToRemove) e ↔
            Falls pegscc p.mapTx (fun e => e.tx.hash∈hash::txToRemove) e := by
          constructor
          · intro h
            exact h.mono (fun _ hf => hf) (fun f hf hmem => .root hf (List.mem_cons_of_mem _ hmem))
          · intro h
            refine h.mono (fun _ hf => hf) ?_
            intro f hf hmem
            rcases List.mem_cons.mp hmem with heq | hmem
            · exact absurd heq (find_none hfind f hf)
            · exact .root hf hmem
        rw [hsame]
      | some d =>
        obtain ⟨hd,rfl⟩ := find_some hfind
        rw [hfind] at hrun
        intro e
        rw [ih (hp.removeEntry hd) hrun e,mem_removeEntry]
        have hforward : Falls pegscc (p.removeEntry d).mapTx
            (fun e => e.tx.hash∈txToRemove++p.spenders d.tx.hash d.tx.vout.length) e →
            Falls pegscc p.mapTx (fun e => e.tx.hash∈d.tx.hash::txToRemove) e := by
          intro h
          refine h.mono (fun f hf => (mem_removeEntry.mp hf).1) ?_
          intro f hf hmem
          have hf := (mem_removeEntry.mp hf).1
          rcases List.mem_append.mp hmem with hqueue | hspent
          · exact .root hf (List.mem_cons_of_mem _ hqueue)
          · exact .child (.root hd List.mem_cons_self) hf ((hp.mem_spenders hf).mp hspent)
        have hback : ∀e,Falls pegscc p.mapTx (fun e => e.tx.hash∈d.tx.hash::txToRemove) e →
            e=d ∨ Falls pegscc (p.removeEntry d).mapTx
              (fun e => e.tx.hash∈txToRemove++p.spenders d.tx.hash d.tx.vout.length) e := by
          intro e h
          have hin : ∀f∈p.mapTx,f≠d → f∈(p.removeEntry d).mapTx := by
            intro f hf hne
            exact mem_removeEntry.mpr ⟨hf,fun heq => hne (hp.same hf hd heq)⟩
          induction h with
          | root hf hmem =>
            rename_i f
            by_cases hfd : f=d
            · exact .inl hfd
            · rcases List.mem_cons.mp hmem with heq | hmem
              · exact absurd (hp.same hf hd heq) hfd
              · exact .inr (.root (hin f hf hfd) (List.mem_append_left _ hmem))
          | child _ hf hspent ihf =>
            rename_i g f _
            by_cases hfd : f=d
            · exact .inl hfd
            · rcases ihf with rfl | hg
              · exact .inr (.root (hin f hf hfd)
                  (List.mem_append_right _ ((hp.mem_spenders hf).mpr hspent)))
              · exact .inr (.child hg (hin f hf hfd) hspent)
        constructor
        · rintro ⟨⟨he,hne⟩,hno⟩
          refine ⟨he,?_⟩
          intro h
          rcases hback e h with rfl | hfall
          · exact hne rfl
          · exact hno hfall
        · rintro ⟨he,hno⟩
          refine ⟨⟨he,?_⟩,fun h => hno (hforward h)⟩
          intro heq
          rw [hp.same he hd heq] at hno
          exact hno (.root hd List.mem_cons_self)

/-- One call for a transaction that was in the pool before other calls. -/
theorem remove_falls {pool : List CTxMemPoolEntry} {R : CTxMemPoolEntry → Prop}
    {removed : List PoolTx} (hpool : ∀e∈pool,∀f∈pool,e.tx.hash=f.tx.hash → e=f) (hf : f∈pool)
    (hp : Sound api pegscc view p) (hstay : ∀e,e∈p.mapTx ↔ e∈pool ∧ ¬Falls pegscc pool R e)
    (hrun : p.remove f.tx true []=some (q,removed)) :
    ∀e,e∈q.mapTx ↔ e∈pool ∧ ¬Falls pegscc pool (fun e => R e ∨ e=f) e := by
  have hsub : ∀e∈p.mapTx,e∈pool := fun e he => ((hstay e).mp he).1
  have hpicked : ∀e∈p.mapTx,(e.tx.hash∈f.tx.hash::
      (if true && (p.find f.tx.hash).isNone then p.spenders f.tx.hash f.tx.vout.length
        else [])) ↔ e=f := by
    intro e he
    constructor
    · intro hmem
      rcases List.mem_cons.mp hmem with heq | hmem
      · exact hpool e (hsub e he) f hf heq
      · split_ifs at hmem with hnone
        · have hgone : f∉p.mapTx := by
            intro hfp
            rw [hp.find_mem hfp] at hnone
            cases hnone
          have hfall : Falls pegscc pool R f := by
            by_contra hno
            exact hgone ((hstay f).mpr ⟨hf,hno⟩)
          exact absurd (.child hfall (hsub e he) ((hp.mem_spenders he).mp hmem))
            ((hstay e).mp he).2
        · cases hmem
    · rintro rfl
      exact List.mem_cons_self
  intro e
  rw [removeLoop_falls hp hrun e,hstay e,falls_or,falls_congr hpicked]
  constructor
  · rintro ⟨hin,hno⟩
    refine ⟨hin.1,?_⟩
    rintro (hR | hfall)
    · exact hin.2 hR
    · exact hno ((falls_rest hstay ((hstay e).mpr hin)).mpr hfall)
  · rintro ⟨he,hno⟩
    have hin : e∈pool ∧ ¬Falls pegscc pool R e := ⟨he,fun hR => hno (.inl hR)⟩
    refine ⟨hin,fun hfall => hno (.inr ?_)⟩
    exact (falls_rest hstay ((hstay e).mpr hin)).mp hfall

/-- Removing transactions that were picked from a pool removes them with their
descendants, whatever is gone already. -/
theorem removeAll_falls {pool : List CTxMemPoolEntry} {R : CTxMemPoolEntry → Prop}
    (hpool : ∀e∈pool,∀f∈pool,e.tx.hash=f.tx.hash → e=f) (txs : List CTxMemPoolEntry)
    (htxs : ∀e∈txs,e∈pool) (hp : Sound api pegscc view p)
    (hstay : ∀e,e∈p.mapTx ↔ e∈pool ∧ ¬Falls pegscc pool R e)
    (hrun : removeAll (txs.map CTxMemPoolEntry.tx) p=some q) :
    ∀e,e∈q.mapTx ↔ e∈pool ∧ ¬Falls pegscc pool (fun e => R e ∨ e∈txs) e := by
  induction txs generalizing p R with
  | nil =>
    obtain rfl := Option.some.inj hrun
    intro e
    have hsame : Falls pegscc pool (fun e => R e ∨ e∈[]) e ↔ Falls pegscc pool R e :=
      falls_congr (fun f _ => by simp)
    rw [hstay e,hsame]
  | cons d txs ih =>
    obtain ⟨u,removed,hu,hpu⟩ := p.remove_returns d.tx true []
    rw [List.map_cons,removeAll,hu] at hrun
    have hnext := remove_falls hpool (htxs d List.mem_cons_self) hp hstay hu
    intro e
    rw [ih (fun f hf => htxs f (List.mem_cons_of_mem d hf)) (hp.removes hpu) hnext hrun e,
      falls_congr]
    intro f _
    rw [List.mem_cons,or_assoc]

/-- The passes that collect entries by a test: those that pass and descend from none
that fails stay. -/
theorem removeAll_picked (hp : Sound api pegscc view p) (test : CTxMemPoolEntry → Bool)
    (hrun : removeAll ((p.mapTx.filter test).map CTxMemPoolEntry.tx) p=some q) :
    ∀e,e∈q.mapTx ↔ e∈p.mapTx ∧ ¬Falls pegscc p.mapTx (fun e => test e=true) e := by
  intro e
  have hstart : ∀e,e∈p.mapTx ↔ e∈p.mapTx ∧ ¬Falls pegscc p.mapTx (fun _ => False) e :=
    fun e => ⟨fun he => ⟨he,falls_none (fun _ _ hno => hno)⟩,And.left⟩
  rw [removeAll_falls (fun e he f hf => hp.same he hf) (p.mapTx.filter test)
    (fun f hf => (List.mem_filter.mp hf).1) hp hstart hrun e,falls_congr]
  intro f hf
  rw [false_or,List.mem_filter]
  exact ⟨And.right,fun h => ⟨hf,h⟩⟩

end Removed

end CTxMemPool

end Zdeex.Mempool
