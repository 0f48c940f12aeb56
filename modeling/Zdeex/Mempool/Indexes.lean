import Mathlib.Data.List.Nodup
import Zdeex.Mempool.Pool

namespace Zdeex.Mempool

open Zdeex.Framework Zdeex.Block Zdeex.Coins

variable {D : Type} {api : ScriptApi D} {pegscc : Bool} {view : COutPoint → Option CTxOut}

namespace CTxMemPool

variable {p q : CTxMemPool} {e f : CTxMemPoolEntry} {hash : Uint256} {tx : PoolTx}

section Removal

theorem find_some (h : p.find hash=some e) : e∈p.mapTx ∧ e.tx.hash=hash :=
  ⟨List.mem_of_find?_eq_some h,by simpa using List.find?_some h⟩

theorem find_none (h : p.find hash=none) : ∀e∈p.mapTx,e.tx.hash≠hash := by
  intro e he
  simpa using List.find?_eq_none.mp h e he

/-- The result of removing entries one by one. -/
inductive Removes : CTxMemPool → CTxMemPool → Prop
  | refl (p : CTxMemPool) : Removes p p
  | step {p q : CTxMemPool} {e : CTxMemPoolEntry} :
      e∈p.mapTx → Removes (p.removeEntry e) q → Removes p q

theorem Removes.trans {r : CTxMemPool} (h₁ : Removes p q) (h₂ : Removes q r) : Removes p r := by
  induction h₁ with
  | refl p => exact h₂
  | step he _ ih => exact .step he (ih h₂)

/-- What one removal keeps, removals keep. -/
theorem Removes.keeps {I : CTxMemPool → Prop} (hstep : ∀p e,e∈p.mapTx → I p → I (p.removeEntry e))
    (h : Removes p q) (hp : I p) : I q := by
  induction h with
  | refl p => exact hp
  | step he _ ih => exact ih (hstep _ _ he hp)

theorem spenders_length (p : CTxMemPool) (hash : Uint256) (n : Nat) :
    (p.spenders hash n).length≤n := by
  have hle := List.length_filterMap_le (fun i => (p.mapNextTx ⟨hash,i⟩).map CInPoint.ptx)
    (List.range n)
  rw [List.length_range] at hle
  exact hle

theorem sum_without {l : List CTxMemPoolEntry} (size : CTxMemPoolEntry → Nat) (he : e∈l) :
    ((l.filter (fun f => f.tx.hash≠e.tx.hash)).map size).sum+size e≤(l.map size).sum := by
  induction l with
  | nil => cases he
  | cons f l ih =>
    have hfilter : ((l.filter (fun f => f.tx.hash≠e.tx.hash)).map size).sum≤(l.map size).sum :=
      (List.filter_sublist.map size).sum_le_sum (fun _ _ => Nat.zero_le _)
    rw [List.filter_cons,List.map_cons,List.sum_cons]
    rcases List.mem_cons.mp he with rfl | he
    · rw [if_neg (by simp)]
      omega
    · have hrest := ih he
      split_ifs
      · rw [List.map_cons,List.sum_cons]
        omega
      · omega

/-- The loop of `remove` ends, and it only removes entries. -/
theorem removeLoop_returns (fRecursive : Bool) {n : Nat} {txToRemove : List Uint256}
    {removed : List PoolTx} (hn : p.fuel txToRemove≤n) :
    ∃q removed',removeLoop fRecursive n txToRemove (p,removed)=some (q,removed') ∧
      Removes p q := by
  induction n generalizing txToRemove p removed with
  | zero =>
    cases txToRemove with
    | nil => exact ⟨p,removed,rfl,.refl p⟩
    | cons hash txToRemove =>
      rw [fuel,List.length_cons] at hn
      omega
  | succ n ih =>
    cases txToRemove with
    | nil => exact ⟨p,removed,rfl,.refl p⟩
    | cons hash txToRemove =>
      rw [fuel,List.length_cons] at hn
      rw [removeLoop]
      cases hfind : p.find hash with
      | none =>
        apply ih
        rw [fuel]
        omega
      | some e =>
        obtain ⟨he,-⟩ := find_some hfind
        have hsum := sum_without (fun e => e.tx.vout.length) he
        have hspend := p.spenders_length hash e.tx.vout.length
        have hfuel : ∀queue : List Uint256,queue.length≤txToRemove.length+e.tx.vout.length →
            (p.removeEntry e).fuel queue≤n := by
          intro queue hqueue
          change queue.length+((p.mapTx.filter (fun f => f.tx.hash≠e.tx.hash)).map
            (fun e => e.tx.vout.length)).sum≤n
          omega
        have hbound : (if fRecursive=true then
            txToRemove++p.spenders hash e.tx.vout.length else txToRemove).length≤
              txToRemove.length+e.tx.vout.length := by
          split_ifs
          · rw [List.length_append]
            omega
          · omega
        obtain ⟨q,removed',hrun,hq⟩ : ∃q removed',removeLoop fRecursive n
            (if fRecursive=true then txToRemove++p.spenders hash e.tx.vout.length else txToRemove)
            (p.removeEntry e,removed++[e.tx])=some (q,removed') ∧ Removes (p.removeEntry e) q :=
          ih (hfuel _ hbound)
        exact ⟨q,removed',hrun,.step he hq⟩

theorem remove_returns (p : CTxMemPool) (tx : PoolTx) (fRecursive : Bool) (removed : List PoolTx) :
    ∃q removed',p.remove tx fRecursive removed=some (q,removed') ∧ Removes p q :=
  removeLoop_returns fRecursive (Nat.le_refl _)

theorem removeAll_returns (txs : List PoolTx) (p : CTxMemPool) :
    ∃q,removeAll txs p=some q ∧ Removes p q := by
  induction txs generalizing p with
  | nil => exact ⟨p,rfl,.refl p⟩
  | cons tx txs ih =>
    obtain ⟨q,removed,hq,hpq⟩ := p.remove_returns tx true []
    obtain ⟨r,hr,hqr⟩ := ih q
    exact ⟨r,by rw [removeAll,hq]; exact hr,hpq.trans hqr⟩

theorem removeConflict_returns (tx : PoolTx) (found : Option Uint256) (p : CTxMemPool)
    (removed : List PoolTx) :
    ∃q removed',removeConflict tx found (p,removed)=some (q,removed') ∧ Removes p q := by
  rw [removeConflict]
  cases found.bind p.find with
  | none => exact ⟨p,removed,rfl,.refl p⟩
  | some e =>
    dsimp only
    split_ifs
    · exact ⟨p,removed,rfl,.refl p⟩
    · exact p.remove_returns e.tx true removed

theorem removeConflictsIn_returns (tx : PoolTx) (l : List COutPoint) (p : CTxMemPool)
    (removed : List PoolTx) :
    ∃q removed',removeConflictsIn tx l (p,removed)=some (q,removed') ∧ Removes p q := by
  induction l generalizing p removed with
  | nil => exact ⟨p,removed,rfl,.refl p⟩
  | cons o l ih =>
    obtain ⟨q,removed₁,hq,hpq⟩ :=
      removeConflict_returns tx ((p.mapNextTx o).map CInPoint.ptx) p removed
    obtain ⟨r,removed₂,hr,hqr⟩ := ih q removed₁
    refine ⟨r,removed₂,?_,hpq.trans hqr⟩
    rw [removeConflictsIn,hq]
    exact hr

theorem removeConflictsShielded_returns (tx : PoolTx) (l : List Uint256) (p : CTxMemPool)
    (removed : List PoolTx) :
    ∃q removed',removeConflictsShielded tx l (p,removed)=some (q,removed') ∧ Removes p q := by
  induction l generalizing p removed with
  | nil => exact ⟨p,removed,rfl,.refl p⟩
  | cons nf l ih =>
    obtain ⟨q,removed₁,hq,hpq⟩ := removeConflict_returns tx (p.mapSaplingNullifiers nf) p removed
    obtain ⟨r,removed₂,hr,hqr⟩ := ih q removed₁
    refine ⟨r,removed₂,?_,hpq.trans hqr⟩
    rw [removeConflictsShielded,hq]
    exact hr

theorem removeConflicts_returns (p : CTxMemPool) (tx : PoolTx) (removed : List PoolTx) :
    ∃q removed',p.removeConflicts tx removed=some (q,removed') ∧ Removes p q := by
  obtain ⟨q,removed₁,hq,hpq⟩ := removeConflictsIn_returns tx tx.outpoints p removed
  obtain ⟨r,removed₂,hr,hqr⟩ := removeConflictsShielded_returns tx tx.nullifiers q removed₁
  refine ⟨r,removed₂,?_,hpq.trans hqr⟩
  rw [removeConflicts,hq]
  exact hr

theorem removeForBlock_returns (vtx : List PoolTx) (p : CTxMemPool) (conflicts : List PoolTx) :
    ∃q conflicts',removeForBlock vtx (p,conflicts)=some (q,conflicts') ∧ Removes p q := by
  induction vtx generalizing p conflicts with
  | nil => exact ⟨p,conflicts,rfl,.refl p⟩
  | cons tx vtx ih =>
    obtain ⟨q,removed,hq,hpq⟩ := p.remove_returns tx false []
    obtain ⟨r,conflicts₁,hr,hqr⟩ := q.removeConflicts_returns tx conflicts
    obtain ⟨s,conflicts₂,hs,hrs⟩ := ih r conflicts₁
    refine ⟨s,conflicts₂,?_,hpq.trans (hqr.trans hrs)⟩
    rw [removeForBlock,hq]
    dsimp only
    rw [hr]
    exact hs

end Removal

section Invariant

/-- Neither transaction spends an input of the other, up to inputs that are not in the
index, and they share no nullifier. -/
structure Apart (pegscc : Bool) (t u : PoolTx) : Prop where
  left : ∀x∈t.indexedInputs pegscc,x.1∉u.outpoints
  right : ∀x∈u.indexedInputs pegscc,x.1∉t.outpoints
  nullifiers : ∀nf∈t.nullifiers,nf∉u.nullifiers

theorem Apart.symm {t u : PoolTx} (h : Apart pegscc t u) : Apart pegscc u t :=
  ⟨h.right,h.left,fun nf hu ht => h.nullifiers nf ht hu⟩

/-- What a transaction puts into the map of the nullifiers. -/
def nullifierParts (e : CTxMemPoolEntry) : List (Uint256 × Uint256) :=
  e.tx.nullifiers.map (fun nf => (nf,e.tx.hash))

/-- What holds between the calls. -/
structure Sound (api : ScriptApi D) (pegscc : Bool) (view : COutPoint → Option CTxOut)
    (p : CTxMemPool) : Prop where
  once : (p.mapTx.map (fun e => e.tx.hash)).Nodup
  apart : ∀e∈p.mapTx,∀f∈p.mapTx,e.tx.hash≠f.tx.hash → Apart pegscc e.tx f.tx
  distinct : ∀e∈p.mapTx,e.tx.outpoints.Nodup
  next : Inverse (fun e => e.tx.inPoints pegscc) p.mapTx p.mapNextTx
  nullifiers : Inverse nullifierParts p.mapTx p.mapSaplingNullifiers
  recent : ∀h∈p.mapRecentlyAddedTx,∃e∈p.mapTx,e.tx.hash=h
  address : Tracked (fun e => e.tx.hash) (api.addressEntries pegscc view) p.mapTx
    p.mapAddress p.mapAddressInserted
  spent : Tracked (fun e => e.tx.hash) (api.spentEntries pegscc view) p.mapTx
    p.mapSpent p.mapSpentInserted
  size : p.totalTxSize=(p.mapTx.map CTxMemPoolEntry.nTxSize).sum%2^64
  usage : p.cachedInnerUsage=(p.mapTx.map CTxMemPoolEntry.nUsageSize).sum%2^64

theorem Sound.same (hp : Sound api pegscc view p) (he : e∈p.mapTx) (hf : f∈p.mapTx)
    (h : e.tx.hash=f.tx.hash) : e=f := List.inj_on_of_nodup_map hp.once he hf h

theorem mem_inPoints {o : COutPoint} {c : CInPoint} :
    (o,c)∈tx.inPoints pegscc ↔ c.ptx=tx.hash ∧ (o,c.n)∈tx.indexedInputs pegscc := by
  constructor
  · intro h
    obtain ⟨x,hx,heq⟩ := List.mem_map.mp h
    obtain ⟨rfl,rfl⟩ := Prod.mk.inj heq
    exact ⟨rfl,hx⟩
  · rintro ⟨hptx,hmem⟩
    refine List.mem_map.mpr ⟨(o,c.n),hmem,?_⟩
    rw [← hptx]

theorem mem_indexedInputs {o : COutPoint} {i : Nat} :
    (o,i)∈tx.indexedInputs pegscc ↔ tx.isCoinImport=false ∧ tx.outpoints[i]?=some o ∧
      ¬(tx.isPegsImport pegscc=true ∧ i=0) := by
  rw [PoolTx.indexedInputs]
  split_ifs with himport
  · simp [himport]
  · rw [List.mem_filter,List.mem_zipIdx_iff_getElem?]
    cases hpegs : tx.isPegsImport pegscc with
    | false => simp [himport]
    | true => simp [himport]

theorem indexed_mem {x : COutPoint × Nat} (hx : x∈tx.indexedInputs pegscc) : x.1∈tx.outpoints :=
  List.mem_of_getElem? (mem_indexedInputs.mp hx).2.1

/-- Distinct inputs have one position each. -/
theorem indexed_one (h : tx.outpoints.Nodup) {o : COutPoint} {i j : Nat}
    (hi : (o,i)∈tx.indexedInputs pegscc) (hj : (o,j)∈tx.indexedInputs pegscc) : j=i := by
  obtain ⟨-,hi,-⟩ := mem_indexedInputs.mp hi
  obtain ⟨-,hj,-⟩ := mem_indexedInputs.mp hj
  obtain ⟨hlt,-⟩ := List.getElem?_eq_some_iff.mp hj
  exact (List.getElem?_inj hlt h).mp (hj.trans hi.symm)

theorem mem_nullifierParts {nf h : Uint256} :
    (nf,h)∈nullifierParts e ↔ h=e.tx.hash ∧ nf∈e.tx.nullifiers := by
  constructor
  · intro hmem
    obtain ⟨x,hx,heq⟩ := List.mem_map.mp hmem
    obtain ⟨rfl,rfl⟩ := Prod.mk.inj heq
    exact ⟨rfl,hx⟩
  · rintro ⟨rfl,hmem⟩
    exact List.mem_map.mpr ⟨nf,hmem,rfl⟩

/-- The pool without an entry. -/
theorem perm_without {l : List CTxMemPoolEntry} (hl : (l.map (fun e => e.tx.hash)).Nodup)
    (he : e∈l) : (e::l.filter (fun f => f.tx.hash≠e.tx.hash)).Perm l := by
  induction l with
  | nil => cases he
  | cons f l ih =>
    rw [List.map_cons,List.nodup_cons] at hl
    rcases List.mem_cons.mp he with rfl | hmem
    · rw [List.filter_cons,if_neg (by simp),List.filter_eq_self.mpr]
      intro f hf
      have hne : f.tx.hash≠e.tx.hash := by
        intro heq
        exact hl.1 (List.mem_map.mpr ⟨f,hf,heq⟩)
      simpa using hne
    · have hne : f.tx.hash≠e.tx.hash := by
        intro heq
        exact hl.1 (List.mem_map.mpr ⟨e,hmem,heq.symm⟩)
      rw [List.filter_cons,if_pos (by simpa using hne)]
      exact (List.Perm.swap f e _).trans ((ih hl.2 hmem).cons f)

theorem size_without {a b x : Nat} {l : List CTxMemPoolEntry} (size : CTxMemPoolEntry → Nat)
    (hl : (l.map (fun e => e.tx.hash)).Nodup) (he : e∈l) (ha : a=(l.map size).sum%2^64)
    (hx : x=size e) (hb : b=(a+(2^64-x%2^64))%2^64) :
    b=((l.filter (fun f => f.tx.hash≠e.tx.hash)).map size).sum%2^64 := by
  have hsum : size e+((l.filter (fun f => f.tx.hash≠e.tx.hash)).map size).sum=(l.map size).sum := by
    rw [← List.sum_cons,← List.map_cons]
    exact ((perm_without hl he).map size).sum_eq
  omega

theorem Sound.removeEntry (hp : Sound api pegscc view p) (he : e∈p.mapTx) :
    Sound api pegscc view (p.removeEntry e) := by
  have hrest : ∀f,f∈p.mapTx.filter (fun f => f.tx.hash≠e.tx.hash) ↔
      f∈p.mapTx ∧ f.tx.hash≠e.tx.hash := by
    intro f
    rw [List.mem_filter,decide_eq_true_iff]
  have hrest' : ∀f,f∈p.mapTx.filter (fun f => f.tx.hash≠e.tx.hash) ↔ f∈p.mapTx ∧ f≠e := by
    intro f
    rw [hrest]
    constructor
    · rintro ⟨hf,hne⟩
      refine ⟨hf,?_⟩
      rintro rfl
      exact hne rfl
    · rintro ⟨hf,hne⟩
      exact ⟨hf,fun heq => hne (hp.same hf he heq)⟩
  have hapart : ∀f∈p.mapTx.filter (fun f => f.tx.hash≠e.tx.hash),Apart pegscc f.tx e.tx := by
    intro f hf
    obtain ⟨hf,hne⟩ := (hrest f).mp hf
    exact hp.apart f hf e he hne
  refine ⟨?_,?_,?_,?_,?_,?_,?_,?_,?_,?_⟩
  · exact (hp.once.sublist (List.filter_sublist.map _))
  · intro f hf g hg
    exact hp.apart f ((hrest f).mp hf).1 g ((hrest g).mp hg).1
  · intro f hf
    exact hp.distinct f ((hrest f).mp hf).1
  · refine hp.next.remove hrest' ?_ ?_
    · intro o c hmem
      exact indexed_mem (mem_inPoints.mp hmem).2
    · intro f hf o c hmem
      exact (hapart f hf).left _ (mem_inPoints.mp hmem).2
  · refine hp.nullifiers.remove hrest' ?_ ?_
    · intro nf h hmem
      exact (mem_nullifierParts.mp hmem).2
    · intro f hf nf h hmem
      exact (hapart f hf).nullifiers nf (mem_nullifierParts.mp hmem).2
  · intro h hh
    obtain ⟨hh,hne⟩ := List.mem_filter.mp hh
    obtain ⟨f,hf,rfl⟩ := hp.recent h hh
    exact ⟨f,(hrest f).mpr ⟨hf,by simpa using hne⟩,rfl⟩
  · exact hp.address.remove hrest
  · exact hp.spent.remove hrest
  · exact size_without CTxMemPoolEntry.nTxSize hp.once he hp.size rfl rfl
  · exact size_without CTxMemPoolEntry.nUsageSize hp.once he hp.usage rfl rfl

theorem Sound.removes (hp : Sound api pegscc view p) (h : Removes p q) :
    Sound api pegscc view q :=
  h.keeps (fun _ _ he hp => hp.removeEntry he) hp

/-- What `AcceptToMemoryPool` makes sure of before `addUnchecked`. -/
structure Fresh (pegscc : Bool) (p : CTxMemPool) (tx : PoolTx) : Prop where
  absent : p.find tx.hash=none
  distinct : tx.outpoints.Nodup
  apart : ∀e∈p.mapTx,Apart pegscc tx e.tx

theorem Sound.addUnchecked (hp : Sound api pegscc view p) (hnew : Fresh pegscc p e.tx) :
    Sound api pegscc view (p.addUnchecked pegscc e) := by
  have hfresh := find_none hnew.absent
  have hmap : (p.addUnchecked pegscc e).mapTx=p.mapTx++[e] := if_pos hnew.absent
  have htx : (p.find e.tx.hash).elim e.tx CTxMemPoolEntry.tx=e.tx := by rw [hnew.absent]; rfl
  have hsub : ∀f∈p.mapTx,f∈p.mapTx++[e] := fun f hf => List.mem_append_left _ hf
  refine ⟨?_,?_,?_,?_,?_,?_,?_,?_,?_,?_⟩
  · rw [hmap,List.map_append,List.map_singleton,← List.concat_eq_append,List.nodup_concat]
    refine ⟨?_,hp.once⟩
    intro hmem
    obtain ⟨f,hf,heq⟩ := List.mem_map.mp hmem
    exact hfresh f hf heq
  · rw [hmap]
    intro f hf g hg hne
    rcases List.mem_append.mp hf with hf | hf
    · rcases List.mem_append.mp hg with hg | hg
      · exact hp.apart f hf g hg hne
      · rw [List.mem_singleton.mp hg]
        exact (hnew.apart f hf).symm
    · rw [List.mem_singleton.mp hf] at hne ⊢
      rcases List.mem_append.mp hg with hg | hg
      · exact hnew.apart g hg
      · rw [List.mem_singleton.mp hg] at hne
        exact absurd rfl hne
  · rw [hmap]
    intro f hf
    rcases List.mem_append.mp hf with hf | hf
    · exact hp.distinct f hf
    · rw [List.mem_singleton.mp hf]
      exact hnew.distinct
  · rw [hmap]
    change Inverse _ _ (writeAll p.mapNextTx
      (((p.find e.tx.hash).elim e.tx CTxMemPoolEntry.tx).inPoints pegscc))
    rw [htx]
    refine hp.next.add (e := e) ?_ ?_
    · intro o c d hc hd
      obtain ⟨hcp,hcn⟩ := mem_inPoints.mp hc
      obtain ⟨hdp,hdn⟩ := mem_inPoints.mp hd
      have hn := indexed_one hnew.distinct hcn hdn
      cases c
      cases d
      rw [CInPoint.mk.injEq]
      exact ⟨hdp.trans hcp.symm,hn⟩
    · intro f hf o c d hc hd
      have hin := indexed_mem (mem_inPoints.mp hd).2
      exact (hnew.apart f hf).left _ (mem_inPoints.mp hc).2 hin
  · rw [hmap]
    change Inverse _ _ (writeAll p.mapSaplingNullifiers
      (((p.find e.tx.hash).elim e.tx CTxMemPoolEntry.tx).nullifiers.map (fun nf => (nf,e.tx.hash))))
    rw [htx]
    refine hp.nullifiers.add (e := e) ?_ ?_
    · intro nf g h hg hh
      exact (mem_nullifierParts.mp hh).1.trans (mem_nullifierParts.mp hg).1.symm
    · intro f hf nf g h hg hh
      exact (hnew.apart f hf).nullifiers nf (mem_nullifierParts.mp hg).2 (mem_nullifierParts.mp hh).2
  · rw [hmap]
    intro h hh
    have hor : h∈p.mapRecentlyAddedTx ∨ h=e.tx.hash := by
      change h∈ite _ _ _ at hh
      split_ifs at hh
      · exact .inl hh
      · rw [List.mem_append,List.mem_singleton] at hh
        exact hh
    rcases hor with hold | rfl
    · obtain ⟨f,hf,heq⟩ := hp.recent h hold
      exact ⟨f,hsub f hf,heq⟩
    · exact ⟨e,List.mem_append_right _ (List.mem_singleton_self e),rfl⟩
  · rw [hmap]
    exact hp.address.mono hsub
  · rw [hmap]
    exact hp.spent.mono hsub
  · rw [hmap,List.map_append,List.sum_append]
    change (p.totalTxSize+e.nTxSize)%2^64=_
    rw [hp.size,List.map_singleton,List.sum_singleton,Nat.mod_add_mod]
  · rw [hmap,List.map_append,List.sum_append]
    change (p.cachedInnerUsage+e.nUsageSize)%2^64=_
    rw [hp.usage,List.map_singleton,List.sum_singleton,Nat.mod_add_mod]

theorem Sound.addAddressIndex (hp : Sound api pegscc view p) (he : e∈p.mapTx)
    {l : List (CMempoolAddressDeltaKey × CMempoolAddressDelta)}
    (hl : api.addressEntries pegscc view e=some l) :
    ∃q,p.addAddressIndex api pegscc view e=some q ∧ Sound api pegscc view q := by
  rw [CTxMemPool.addAddressIndex,hl]
  refine ⟨_,rfl,?_⟩
  exact {hp with address := hp.address.insert (fun f hf g hg => hp.same hf hg) he hl}

theorem Sound.addSpentIndex (hp : Sound api pegscc view p) (he : e∈p.mapTx)
    {l : List (COutPoint × CSpentIndexValue)} (hl : api.spentEntries pegscc view e=some l) :
    ∃q,p.addSpentIndex api pegscc view e=some q ∧ Sound api pegscc view q := by
  rw [CTxMemPool.addSpentIndex,hl]
  refine ⟨_,rfl,?_⟩
  exact {hp with spent := hp.spent.insert (fun f hf g hg => hp.same hf hg) he hl}

theorem Sound.drain (hp : Sound api pegscc view p) :
    Sound api pegscc view p.drainRecentlyAdded.1 :=
  {hp with recent := fun h hh => by cases hh}

theorem sound_empty : Sound api pegscc view empty := by
  have hnone : ∀e,e∉empty.mapTx := fun e he => by cases he
  refine ⟨List.nodup_nil,?_,?_,?_,?_,?_,⟨?_,?_⟩,⟨?_,?_⟩,rfl,rfl⟩
  · exact fun e he => absurd he (hnone e)
  · exact fun e he => absurd he (hnone e)
  · intro o c
    constructor
    · intro h
      cases h
    · rintro ⟨e,he,-⟩
      exact absurd he (hnone e)
  · intro nf h
    constructor
    · intro h
      cases h
    · rintro ⟨e,he,-⟩
      exact absurd he (hnone e)
  · exact fun h hh => by cases hh
  · exact fun k v hv => by cases hv
  · exact fun i keys hi => by cases hi
  · exact fun k v hv => by cases hv
  · exact fun i keys hi => by cases hi

end Invariant

/-- The indexes of a pool say what is in `mapTx`: `mapNextTx` has the inputs of every
transaction but a coin import, except the first one of a pegs import. -/
structure Exact (api : ScriptApi D) (pegscc : Bool) (view : COutPoint → Option CTxOut)
    (p : CTxMemPool) : Prop where
  next : ∀o c,p.mapNextTx o=some c ↔ ∃e∈p.mapTx,e.tx.hash=c.ptx ∧ e.tx.isCoinImport=false ∧
    e.tx.outpoints[c.n]?=some o ∧ ¬(e.tx.isPegsImport pegscc=true ∧ c.n=0)
  nullifiers : ∀nf h,p.mapSaplingNullifiers nf=some h ↔
    ∃e∈p.mapTx,e.tx.hash=h ∧ nf∈e.tx.nullifiers
  recent : ∀h∈p.mapRecentlyAddedTx,∃e∈p.mapTx,e.tx.hash=h
  address : ∀k d,p.mapAddress k=some d →
    ∃e∈p.mapTx,∃l,api.addressEntries pegscc view e=some l ∧ (k,d)∈l
  spent : ∀o v,p.mapSpent o=some v →
    ∃e∈p.mapTx,∃l,api.spentEntries pegscc view e=some l ∧ (o,v)∈l
  size : p.totalTxSize=(p.mapTx.map CTxMemPoolEntry.nTxSize).sum%2^64
  usage : p.cachedInnerUsage=(p.mapTx.map CTxMemPoolEntry.nUsageSize).sum%2^64

theorem Sound.exact (hp : Sound api pegscc view p) : Exact api pegscc view p := by
  refine ⟨?_,?_,hp.recent,?_,?_,hp.size,hp.usage⟩
  · intro o c
    rw [hp.next o c]
    constructor
    · rintro ⟨e,he,hmem⟩
      obtain ⟨hptx,hin⟩ := mem_inPoints.mp hmem
      exact ⟨e,he,hptx.symm,mem_indexedInputs.mp hin⟩
    · rintro ⟨e,he,hptx,hin⟩
      exact ⟨e,he,mem_inPoints.mpr ⟨hptx.symm,mem_indexedInputs.mpr hin⟩⟩
  · intro nf h
    rw [hp.nullifiers nf h]
    constructor
    · rintro ⟨e,he,hmem⟩
      obtain ⟨hh,hin⟩ := mem_nullifierParts.mp hmem
      exact ⟨e,he,hh.symm,hin⟩
    · rintro ⟨e,he,hh,hin⟩
      exact ⟨e,he,mem_nullifierParts.mpr ⟨hh.symm,hin⟩⟩
  · intro k d hk
    obtain ⟨e,he,l,hl,hmem,-⟩ := hp.address.only k d hk
    exact ⟨e,he,l,hl,hmem⟩
  · intro o v ho
    obtain ⟨e,he,l,hl,hmem,-⟩ := hp.spent.only o v ho
    exact ⟨e,he,l,hl,hmem⟩

end CTxMemPool

open CTxMemPool

/-- What the callers make sure of: new transactions that conflict with none of the pool,
and indexes for transactions of the pool whose outputs are in the view. -/
def Admitted (api : ScriptApi D) (pegscc : Bool) (view : COutPoint → Option CTxOut)
    (p : CTxMemPool) : PoolOp → Prop
  | .addUnchecked entry => Fresh pegscc p entry.tx
  | .addAddressIndex entry => entry∈p.mapTx ∧ (api.addressEntries pegscc view entry).isSome
  | .addSpentIndex entry => entry∈p.mapTx ∧ (api.spentEntries pegscc view entry).isSome
  | _ => True

theorem step_sound {p : CTxMemPool} {op : PoolOp} (hop : Admitted api pegscc view p op)
    (hp : Sound api pegscc view p) :
    ∃q,poolStep api pegscc view p op=some q ∧ Sound api pegscc view q := by
  cases op with
  | addUnchecked entry => exact ⟨_,rfl,hp.addUnchecked hop⟩
  | addAddressIndex entry =>
    obtain ⟨l,hl⟩ := Option.isSome_iff_exists.mp hop.2
    exact hp.addAddressIndex hop.1 hl
  | addSpentIndex entry =>
    obtain ⟨l,hl⟩ := Option.isSome_iff_exists.mp hop.2
    exact hp.addSpentIndex hop.1 hl
  | remove tx fRecursive =>
    obtain ⟨q,removed,hq,hpq⟩ := p.remove_returns tx fRecursive []
    exact ⟨q,by rw [poolStep,hq]; rfl,hp.removes hpq⟩
  | removeConflicts tx =>
    obtain ⟨q,removed,hq,hpq⟩ := p.removeConflicts_returns tx []
    exact ⟨q,by rw [poolStep,hq]; rfl,hp.removes hpq⟩
  | removeForBlock vtx =>
    obtain ⟨q,removed,hq,hpq⟩ := removeForBlock_returns vtx p []
    exact ⟨q,by rw [poolStep,hq]; rfl,hp.removes hpq⟩
  | removeForReorg tip =>
    obtain ⟨q,hq,hpq⟩ := removeAll_returns _ p
    exact ⟨q,hq,hp.removes hpq⟩
  | removeWithAnchor invalidRoot =>
    obtain ⟨q,hq,hpq⟩ := removeAll_returns _ p
    exact ⟨q,hq,hp.removes hpq⟩
  | removeWithoutBranchId nMemPoolBranchId =>
    obtain ⟨q,hq,hpq⟩ := removeAll_returns _ p
    exact ⟨q,hq,hp.removes hpq⟩
  | drainRecentlyAdded => exact ⟨_,rfl,hp.drain⟩

theorem reachable_sound {ops : List PoolOp} {p : CTxMemPool}
    (hops : Guarded (poolStep api pegscc view) (Admitted api pegscc view) ops CTxMemPool.empty)
    (hrun : run (poolStep api pegscc view) ops CTxMemPool.empty=some p) :
    Sound api pegscc view p := by
  refine run_keeps (I := Sound api pegscc view) ?_ hrun hops sound_empty
  intro s op t hop hs hstep
  obtain ⟨u,hu,hsound⟩ := step_sound hop hs
  rw [hstep] at hu
  rw [Option.some.inj hu]
  exact hsound

/-- Every sequence of calls returns and leaves the indexes exact. -/
theorem indexes_exact (api : ScriptApi D) (pegscc : Bool) (view : COutPoint → Option CTxOut)
    (ops : List PoolOp)
    (hops : Guarded (poolStep api pegscc view) (Admitted api pegscc view) ops CTxMemPool.empty) :
    ∃p,run (poolStep api pegscc view) ops CTxMemPool.empty=some p ∧ Exact api pegscc view p := by
  obtain ⟨p,hrun,hp⟩ := run_completes (I := Sound api pegscc view)
    (fun p op hop hp => step_sound hop hp) hops sound_empty
  exact ⟨p,hrun,hp.exact⟩

/-- Every script pays to its own bytes. -/
def plainApi : ScriptApi Unit where
  solver script := some (.pubkeyhash,[script])
  extractDestination _ := none
  getIndexKey _ _ := none
  getKeyID _ := none
  isPayToCryptoCondition _ := false
  hash160 bytes := bytes

/-- A transaction with some inputs and one output. -/
def spendTx (hash : Uint256) (inputs : List COutPoint) : PoolTx :=
  { hash := hash,fOverwintered := true,nVersion := 4,nVersionGroupId := SAPLING_VERSION_GROUP_ID,
    vin := inputs.map (fun o => ⟨o,[]⟩),vout := [⟨5,[0x51]⟩],nExpiryHeight := 0,valueBalance := 0,
    vShieldedSpend := [],vShieldedOutput := [],vjoinsplit := [],nLockTime := 0,
    nSequence := inputs.map (fun _ => 0xffffffff) }

def poolEntry (tx : PoolTx) : CTxMemPoolEntry := ⟨tx,100,200,0,false,0⟩

def oneOutput (_ : COutPoint) : Option CTxOut := some ⟨7,[0x51]⟩

/-- A transaction and one that spends its output; the first one is mined. -/
def minedParent : List PoolOp :=
  [.addUnchecked (poolEntry (spendTx 1 [⟨8,0⟩])),.addSpentIndex (poolEntry (spendTx 1 [⟨8,0⟩])),
    .addUnchecked (poolEntry (spendTx 2 [⟨1,0⟩])),.removeForBlock [spendTx 1 [⟨8,0⟩]],
    .drainRecentlyAdded]

theorem mined_parent_exact : ∃p,
    run (poolStep plainApi false oneOutput) minedParent CTxMemPool.empty=some p ∧
      Exact plainApi false oneOutput p := by
  apply indexes_exact plainApi false oneOutput minedParent
  refine ⟨⟨rfl,by decide +kernel,fun e he => by cases he⟩,?_⟩
  intro p hp
  obtain rfl := Option.some.inj hp
  refine ⟨⟨by decide +kernel,by decide +kernel⟩,?_⟩
  intro p hp
  obtain rfl := Option.some.inj hp
  refine ⟨⟨by decide +kernel,by decide +kernel,?_⟩,?_⟩
  · intro e he
    rw [List.mem_singleton.mp he]
    exact ⟨by decide +kernel,by decide +kernel,fun nf hnf => by cases hnf⟩
  · intro p _
    exact ⟨trivial,fun q _ => ⟨trivial,fun _ _ => trivial⟩⟩

/-- The map that leaves out the imports and has every input of the other transactions. -/
def NextLiteral (isImport : PoolTx → Bool) (p : CTxMemPool) : Prop :=
  ∀o c,p.mapNextTx o=some c ↔
    ∃e∈p.mapTx,e.tx.hash=c.ptx ∧ isImport e.tx=false ∧ e.tx.outpoints[c.n]?=some o

/-- A pegs import with a second input. -/
def pegsImport : PoolTx := spendTx 3 [⟨5,1000000000⟩,⟨7,0⟩]

/-- One input of the pegs import is in the map and the other is not, so the map is not
the literal one whether it counts as an import or not. -/
theorem pegs_import_indexed_partly : ∃p,
    run (poolStep plainApi true oneOutput) [.addUnchecked (poolEntry pegsImport)]
      CTxMemPool.empty=some p ∧
    Fresh true CTxMemPool.empty pegsImport ∧
    ¬NextLiteral (fun tx => tx.isCoinImport) p ∧
    ¬NextLiteral (fun tx => tx.isCoinImport || tx.isPegsImport true) p := by
  refine ⟨_,rfl,⟨rfl,by decide +kernel,fun e he => by cases he⟩,?_,?_⟩
  · intro hall
    have hfirst := (hall ⟨5,1000000000⟩ ⟨3,0⟩).mpr
      ⟨poolEntry pegsImport,List.mem_singleton_self _,rfl,by decide +kernel,rfl⟩
    have hmissing : (CTxMemPool.empty.addUnchecked true (poolEntry pegsImport)).mapNextTx
        ⟨5,1000000000⟩=none := by decide +kernel
    rw [hmissing] at hfirst
    cases hfirst
  · intro hall
    have hsecond : (CTxMemPool.empty.addUnchecked true (poolEntry pegsImport)).mapNextTx
        ⟨7,0⟩=some ⟨3,1⟩ := by decide +kernel
    obtain ⟨e,he,-,himport,-⟩ := (hall ⟨7,0⟩ ⟨3,1⟩).mp hsecond
    rw [List.mem_singleton.mp he] at himport
    revert himport
    decide +kernel

end Zdeex.Mempool
