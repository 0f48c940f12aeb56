import Mathlib.Data.Finset.Basic
import Zdeex.Framework.OrderedMap
import Zdeex.Framework.Run

namespace Zdeex.Mempool.Orphans

open Zdeex.Framework

/-- What the pool reads of a transaction: the transactions that its inputs spend and the size that
`GetSerializeSize` finds. -/
structure CTransaction (H : Type) where
  hash : H
  prevouts : List H
  serializeSize : Nat
  deriving DecidableEq

structure COrphanTx (H : Type) where
  tx : CTransaction H
  fromPeer : Int
  deriving DecidableEq

/-- The two maps. `mapOrphanTransactions` is in the order of its keys. -/
structure OrphanPool (H : Type) where
  mapOrphanTransactions : List (H × COrphanTx H)
  mapOrphanTransactionsByPrev : H → Option (Finset H)

variable {H : Type} [LinearOrder H]

def OrphanPool.empty : OrphanPool H := ⟨[],fun _ => none⟩

/-- One input of a new orphan: the subscript makes an empty set where there is none. -/
def insertPrev (hash : H) (m : H → Option (Finset H)) (prev : H) : H → Option (Finset H) :=
  Function.update m prev (some (insert hash ((m prev).getD ∅)))

/-- One input of an orphan that goes. -/
def erasePrev (hash : H) (m : H → Option (Finset H)) (prev : H) : H → Option (Finset H) :=
  match m prev with
  | none => m
  | some hashes =>
      let hashes := hashes.erase hash
      if hashes=∅ then Function.update m prev none else Function.update m prev (some hashes)

namespace OrphanPool

variable (s : OrphanPool H)

/-- `find` in the map of the orphans. -/
def find (hash : H) : Option (COrphanTx H) :=
  (s.mapOrphanTransactions.find? fun e => e.1=hash).map Prod.snd

def addOrphanTx (tx : CTransaction H) (peer : Int) : OrphanPool H × Bool :=
  if (s.find tx.hash).isSome then (s,false)
  else if tx.serializeSize>5000 then (s,false)
  else
    ({ mapOrphanTransactions :=
        OrderedMap.insertNew tx.hash ⟨tx,peer⟩ s.mapOrphanTransactions
       mapOrphanTransactionsByPrev :=
        tx.prevouts.foldl (insertPrev tx.hash) s.mapOrphanTransactionsByPrev },true)

def eraseOrphanTx (hash : H) : OrphanPool H :=
  match s.find hash with
  | none => s
  | some it =>
      { mapOrphanTransactions := s.mapOrphanTransactions.filter fun e => e.1≠hash
        mapOrphanTransactionsByPrev :=
          it.tx.prevouts.foldl (erasePrev hash) s.mapOrphanTransactionsByPrev }

/-- The iterator has moved on before its entry is erased. -/
def eraseOrphansFor (peer : Int) : OrphanPool H :=
  s.mapOrphanTransactions.foldl (fun s maybeErase =>
    if maybeErase.2.fromPeer=peer then s.eraseOrphanTx maybeErase.2.tx.hash else s) s

/-- The first orphan that is not below the random hash, else the first of all. -/
def victim (randomhash : H) : Option H :=
  ((s.mapOrphanTransactions.find? fun e => randomhash≤e.1).or
    s.mapOrphanTransactions.head?).map Prod.fst

/-- The loop of `LimitOrphanTxSize`; `rand i` is the random hash of round `i`, and `none` stands for
more rounds than `fuel`. -/
def limitLoop (nMaxOrphans : Nat) (rand : Nat → H) : Nat → OrphanPool H → Nat →
    Option (OrphanPool H × Nat)
  | fuel,s,nEvicted =>
      if s.mapOrphanTransactions.length>nMaxOrphans then
        match fuel,s.victim (rand nEvicted) with
        | fuel+1,some it => limitLoop nMaxOrphans rand fuel (s.eraseOrphanTx it) (nEvicted+1)
        | _,_ => none
      else some (s,nEvicted)

def limitOrphanTxSize (nMaxOrphans : Nat) (rand : Nat → H) : Option (OrphanPool H × Nat) :=
  limitLoop nMaxOrphans rand s.mapOrphanTransactions.length s 0

end OrphanPool

inductive PoolOp (H : Type) where
  | add (tx : CTransaction H) (peer : Int)
  | erase (hash : H)
  | eraseFor (peer : Int)
  | limit (nMaxOrphans : Nat) (rand : Nat → H)

def OrphanPool.step (s : OrphanPool H) : PoolOp H → Option (OrphanPool H)
  | .add tx peer => some (s.addOrphanTx tx peer).1
  | .erase hash => some (s.eraseOrphanTx hash)
  | .eraseFor peer => some (s.eraseOrphansFor peer)
  | .limit nMaxOrphans rand => (s.limitOrphanTxSize nMaxOrphans rand).map Prod.fst

variable {H : Type} [LinearOrder H]

/-- The stored orphans that have an input from `p`. -/
def OrphanPool.spenders (s : OrphanPool H) (p : H) : Finset H :=
  ((s.mapOrphanTransactions.filter fun e => e.2.tx.prevouts.any fun q => decide (q=p)).map
    Prod.fst).toFinset

/-- How a set stands in the index: the empty set has no entry. -/
def asEntry (hashes : Finset H) : Option (Finset H) := if hashes=∅ then none else some hashes

section Index

variable {hash p : H} {S : H → Finset H}

theorem getD_asEntry (hashes : Finset H) : (asEntry hashes).getD ∅=hashes := by
  unfold asEntry
  split_ifs with h
  · exact h.symm
  · rfl

theorem asEntry_update (S : H → Finset H) (q : H) (hashes : Finset H) :
    Function.update (fun p => asEntry (S p)) q (asEntry hashes)=
      fun p => asEntry (Function.update S q hashes p) := by
  funext p
  by_cases hp : p=q
  · subst hp
    rw [Function.update_self,Function.update_self]
  · rw [Function.update_of_ne hp,Function.update_of_ne hp]

theorem insertPrev_eq (hash : H) (S : H → Finset H) (q : H) :
    insertPrev hash (fun p => asEntry (S p)) q=
      fun p => asEntry (Function.update S q (insert hash (S q)) p) := by
  have hentry : some (insert hash (S q))=asEntry (insert hash (S q)) :=
    (if_neg (Finset.insert_ne_empty _ _)).symm
  rw [insertPrev,getD_asEntry,hentry,asEntry_update]

theorem asEntry_eq_none {hashes : Finset H} (h : hashes=∅) : asEntry hashes=none := if_pos h

theorem erasePrev_of_none {m : H → Option (Finset H)} {q : H} (h : m q=none) :
    erasePrev hash m q=m := by
  unfold erasePrev
  rw [h]

theorem erasePrev_of_some {m : H → Option (Finset H)} {q : H} {hashes : Finset H}
    (h : m q=some hashes) :
    erasePrev hash m q=Function.update m q (asEntry (hashes.erase hash)) := by
  unfold erasePrev asEntry
  rw [h]
  dsimp only
  split_ifs with hlast <;> rfl

theorem erasePrev_eq (hash : H) (S : H → Finset H) (q : H) :
    erasePrev hash (fun p => asEntry (S p)) q=
      fun p => asEntry (Function.update S q ((S q).erase hash) p) := by
  rw [← asEntry_update]
  by_cases hempty : S q=∅
  · have hrest : asEntry ((S q).erase hash)=asEntry (S q) := by rw [hempty]; rfl
    have hnone : (fun p => asEntry (S p)) q=none := asEntry_eq_none hempty
    rw [erasePrev_of_none hnone,hrest]
    exact (Function.update_eq_self q _).symm
  · exact erasePrev_of_some (if_neg hempty)

/-- Two inputs from one transaction enter its set once. -/
theorem foldl_insertPrev (hash : H) (prevs : List H) (S : H → Finset H) :
    prevs.foldl (insertPrev hash) (fun p => asEntry (S p))=
      fun p => asEntry (if p∈prevs then insert hash (S p) else S p) := by
  induction prevs generalizing S with
  | nil => simp
  | cons q prevs ih =>
    rw [List.foldl_cons,insertPrev_eq,ih]
    funext p
    congr 1
    by_cases hp : p=q
    · subst hp
      simp
    · simp [hp]

theorem foldl_erasePrev (hash : H) (prevs : List H) (S : H → Finset H) :
    prevs.foldl (erasePrev hash) (fun p => asEntry (S p))=
      fun p => asEntry (if p∈prevs then (S p).erase hash else S p) := by
  induction prevs generalizing S with
  | nil => simp
  | cons q prevs ih =>
    rw [List.foldl_cons,erasePrev_eq,ih]
    funext p
    congr 1
    by_cases hp : p=q
    · subst hp
      simp
    · simp [hp]

end Index

namespace OrphanPool

variable {s : OrphanPool H} {e f : H × COrphanTx H} {hash p : H}

theorem mem_spenders {h : H} : h∈s.spenders p ↔
    ∃e∈s.mapOrphanTransactions,p∈e.2.tx.prevouts ∧ e.1=h := by
  simp [spenders,and_assoc]

/-- The maps agree: every orphan stands under its own hash, and the index holds the sets that
belong to the stored orphans. -/
structure Exact (s : OrphanPool H) : Prop where
  sorted : OrderedMap.Sorted s.mapOrphanTransactions
  keyed : ∀e∈s.mapOrphanTransactions,e.2.tx.hash=e.1
  index : s.mapOrphanTransactionsByPrev=fun p => asEntry (s.spenders p)

theorem Exact.keys_nodup (hs : Exact s) : (s.mapOrphanTransactions.map Prod.fst).Nodup :=
  List.pairwise_map.mpr (hs.sorted.imp fun h => ne_of_lt h)

theorem Exact.unique (hs : Exact s) (he : e∈s.mapOrphanTransactions)
    (hf : f∈s.mapOrphanTransactions) (h : e.1=f.1) : e=f :=
  List.inj_on_of_nodup_map hs.keys_nodup he hf h

theorem find_some {o : COrphanTx H} (h : s.find hash=some o) :
    (hash,o)∈s.mapOrphanTransactions := by
  obtain ⟨e,he,rfl⟩ := Option.map_eq_some_iff.mp h
  have hkey := List.find?_some he
  rw [← of_decide_eq_true hkey]
  exact List.mem_of_find?_eq_some he

theorem find_none (h : s.find hash=none) : ∀e∈s.mapOrphanTransactions,e.1≠hash := by
  intro e he
  have hno := List.find?_eq_none.mp (Option.map_eq_none_iff.mp h) e he
  simpa using hno

theorem eraseOrphanTx_map (s : OrphanPool H) (hash : H) :
    (s.eraseOrphanTx hash).mapOrphanTransactions=
      s.mapOrphanTransactions.filter fun e => e.1≠hash := by
  unfold eraseOrphanTx
  cases hfind : s.find hash with
  | none =>
    refine (List.filter_eq_self.mpr fun e he => ?_).symm
    exact decide_eq_true (find_none hfind e he)
  | some it => rfl

theorem Exact.empty : Exact (OrphanPool.empty : OrphanPool H) where
  sorted := List.Pairwise.nil
  keyed _ he := by cases he
  index := rfl

/-- A new orphan is stored unless it is too large. -/
theorem addOrphanTx_perm (s : OrphanPool H) (tx : CTransaction H) (peer : Int) :
    (s.addOrphanTx tx peer).1.mapOrphanTransactions.Perm
      (if (s.find tx.hash).isSome ∨ tx.serializeSize>5000 then s.mapOrphanTransactions
        else (tx.hash,⟨tx,peer⟩)::s.mapOrphanTransactions) := by
  unfold addOrphanTx
  by_cases hfound : (s.find tx.hash).isSome
  · rw [if_pos hfound,if_pos (.inl hfound)]
  rw [if_neg hfound]
  by_cases hsize : tx.serializeSize>5000
  · rw [if_pos hsize,if_pos (.inr hsize)]
  rw [if_neg hsize,if_neg (not_or.mpr ⟨hfound,hsize⟩)]
  exact OrderedMap.insertNew_perm _ (find_none (Option.not_isSome_iff_eq_none.mp hfound))

theorem Exact.add (hs : Exact s) (tx : CTransaction H) (peer : Int) :
    Exact (s.addOrphanTx tx peer).1 := by
  unfold addOrphanTx
  split_ifs with hfound hsize
  · exact hs
  · exact hs
  · have hnew := find_none (Option.not_isSome_iff_eq_none.mp hfound)
    have hperm := OrderedMap.insertNew_perm (COrphanTx.mk tx peer) hnew
    refine ⟨OrderedMap.sorted_insertNew _ _ hs.sorted,fun e he => ?_,?_⟩
    · rcases List.mem_cons.mp (hperm.mem_iff.mp he) with rfl | he
      · rfl
      · exact hs.keyed e he
    · dsimp only
      rw [hs.index,foldl_insertPrev]
      funext p
      congr 1
      ext h
      have hall : ∀m,
          h∈spenders ⟨OrderedMap.insertNew tx.hash ⟨tx,peer⟩ s.mapOrphanTransactions,m⟩ p ↔
          p∈tx.prevouts ∧ tx.hash=h ∨ h∈s.spenders p := by
        intro m
        simp only [mem_spenders,hperm.mem_iff,List.mem_cons,or_and_right,exists_or,exists_eq_left]
      rw [hall]
      split_ifs with hp
      · rw [Finset.mem_insert,eq_comm]
        simp only [hp,true_and]
      · simp only [hp,false_and,false_or]

/-- An erased orphan leaves the sets of all the transactions it spends from. -/
theorem Exact.erase (hs : Exact s) (hash : H) : Exact (s.eraseOrphanTx hash) := by
  have hmap := eraseOrphanTx_map s hash
  refine ⟨?_,fun e he => ?_,?_⟩
  · rw [hmap]
    exact hs.sorted.filter _
  · rw [hmap] at he
    exact hs.keyed e (List.mem_of_mem_filter he)
  · have hrest : ∀p,(s.eraseOrphanTx hash).spenders p=(s.spenders p).erase hash := by
      intro p
      ext h
      simp only [mem_spenders,hmap,Finset.mem_erase,List.mem_filter,decide_eq_true_eq]
      constructor
      · rintro ⟨e,⟨he,hne⟩,hp,rfl⟩
        exact ⟨hne,e,he,hp,rfl⟩
      · rintro ⟨hne,e,he,hp,rfl⟩
        exact ⟨e,⟨he,hne⟩,hp,rfl⟩
    funext p
    rw [hrest]
    unfold eraseOrphanTx
    cases hfind : s.find hash with
    | none =>
      have hno : hash∉s.spenders p := by
        rw [mem_spenders]
        rintro ⟨e,he,-,hkey⟩
        exact find_none hfind e he hkey
      dsimp only
      rw [hs.index,Finset.erase_eq_of_notMem hno]
    | some it =>
      have hit := find_some hfind
      dsimp only
      rw [hs.index,foldl_erasePrev]
      dsimp only
      congr 1
      split_ifs with hp
      · rfl
      · have hno : hash∉s.spenders p := by
          rw [mem_spenders]
          rintro ⟨e,he,hpe,hkey⟩
          rw [hs.unique he hit hkey] at hpe
          exact hp hpe
        exact (Finset.erase_eq_of_notMem hno).symm

/-- Over a list of entries the loop takes out the orphans of the peer one by one. -/
theorem eraseOrphansFor_loop (peer : Int) (l : List (H × COrphanTx H)) (hs : Exact s) :
    let s' := l.foldl (fun s maybeErase =>
      if maybeErase.2.fromPeer=peer then s.eraseOrphanTx maybeErase.2.tx.hash else s) s
    Exact s' ∧ s'.mapOrphanTransactions=s.mapOrphanTransactions.filter fun e =>
      decide (∀f∈l,f.2.fromPeer=peer → e.1≠f.2.tx.hash) := by
  induction l generalizing s with
  | nil => exact ⟨hs,(List.filter_eq_self.mpr fun e he => by simp).symm⟩
  | cons f l ih =>
    rw [List.foldl_cons]
    by_cases hpeer : f.2.fromPeer=peer
    · rw [if_pos hpeer]
      obtain ⟨hexact,hmap⟩ := ih (hs.erase f.2.tx.hash)
      refine ⟨hexact,hmap.trans ?_⟩
      rw [eraseOrphanTx_map,List.filter_filter]
      apply List.filter_congr
      intro e he
      rw [← Bool.decide_and,decide_eq_decide,List.forall_mem_cons]
      constructor
      · rintro ⟨hrest,hne⟩
        exact ⟨fun _ => hne,hrest⟩
      · rintro ⟨hne,hrest⟩
        exact ⟨hrest,hne hpeer⟩
    · rw [if_neg hpeer]
      obtain ⟨hexact,hmap⟩ := ih hs
      refine ⟨hexact,hmap.trans ?_⟩
      apply List.filter_congr
      intro e he
      rw [decide_eq_decide,List.forall_mem_cons]
      exact (and_iff_right fun h => absurd h hpeer).symm

theorem Exact.eraseFor (hs : Exact s) (peer : Int) : Exact (s.eraseOrphansFor peer) ∧
    (s.eraseOrphansFor peer).mapOrphanTransactions=
      s.mapOrphanTransactions.filter fun e => e.2.fromPeer≠peer := by
  obtain ⟨hexact,hmap⟩ := eraseOrphansFor_loop peer s.mapOrphanTransactions hs
  refine ⟨hexact,hmap.trans ?_⟩
  apply List.filter_congr
  intro e he
  rw [decide_eq_decide]
  constructor
  · intro h hpeer
    exact h e he hpeer (hs.keyed e he).symm
  · intro hpeer f hf hfpeer heq
    rw [hs.keyed f hf] at heq
    rw [hs.unique he hf heq] at hpeer
    exact hpeer hfpeer

theorem victim_mem {randomhash : H} (h : s.victim randomhash=some hash) :
    ∃e∈s.mapOrphanTransactions,e.1=hash := by
  obtain ⟨e,he,rfl⟩ := Option.map_eq_some_iff.mp h
  rcases Option.or_eq_some_iff.mp he with hfind | ⟨-,hhead⟩
  · exact ⟨e,List.mem_of_find?_eq_some hfind,rfl⟩
  · exact ⟨e,List.mem_of_head? hhead,rfl⟩

theorem exists_victim (s : OrphanPool H) (randomhash : H) (h : 0<s.mapOrphanTransactions.length) :
    ∃it,s.victim randomhash=some it := by
  obtain ⟨e,l,hl⟩ := List.exists_cons_of_length_pos h
  unfold victim
  rw [hl,List.head?_cons]
  cases (e::l).find? fun e => decide (randomhash≤e.1) <;> exact ⟨_,rfl⟩

/-- A stored orphan is one orphan. -/
theorem Exact.erase_length (hs : Exact s) (he : ∃e∈s.mapOrphanTransactions,e.1=hash) :
    (s.eraseOrphanTx hash).mapOrphanTransactions.length+1=s.mapOrphanTransactions.length := by
  obtain ⟨e,he,rfl⟩ := he
  have hone : s.mapOrphanTransactions.countP (fun f => decide (f.1=e.1))=1 := by
    have hcount := List.count_eq_one_of_mem hs.keys_nodup (List.mem_map_of_mem he)
    rw [List.count,List.countP_map] at hcount
    refine Eq.trans ?_ hcount
    apply List.countP_congr
    intro f _
    simp
  have hsplit : s.mapOrphanTransactions.length=_ :=
    List.length_eq_countP_add_countP (fun f => decide (f.1=e.1))
  rw [eraseOrphanTx_map,← List.countP_eq_length_filter,hsplit,hone,Nat.add_comm]
  congr 1
  apply List.countP_congr
  intro f _
  simp

theorem Exact.limitLoop {nMaxOrphans fuel : Nat} (rand : Nat → H) (hs : Exact s)
    (hfuel : s.mapOrphanTransactions.length≤fuel) (nEvicted : Nat) :
    ∃s' k,limitLoop nMaxOrphans rand fuel s nEvicted=some (s',nEvicted+k) ∧ Exact s' ∧
      s'.mapOrphanTransactions.length=min nMaxOrphans s.mapOrphanTransactions.length ∧
      k+s'.mapOrphanTransactions.length=s.mapOrphanTransactions.length ∧
      s'.mapOrphanTransactions.Sublist s.mapOrphanTransactions := by
  induction fuel generalizing s nEvicted with
  | zero =>
    refine ⟨s,0,?_,hs,by omega,Nat.zero_add _,List.Sublist.refl _⟩
    rw [OrphanPool.limitLoop.eq_def]
    dsimp only
    rw [if_neg (by omega)]
    rfl
  | succ fuel ih =>
    rw [OrphanPool.limitLoop.eq_def]
    dsimp only
    by_cases hmore : s.mapOrphanTransactions.length>nMaxOrphans
    · obtain ⟨it,hit⟩ := exists_victim s (rand nEvicted) (by omega)
      have hlen := hs.erase_length (victim_mem hit)
      obtain ⟨s',k,hrun,hexact,hmin,hcount,hsub⟩ := ih (hs.erase it) (by omega) (nEvicted+1)
      rw [if_pos hmore,hit]
      rw [eraseOrphanTx_map] at hsub
      refine ⟨s',k+1,?_,hexact,by omega,by omega,hsub.trans List.filter_sublist⟩
      exact hrun.trans (by rw [Nat.add_assoc,Nat.add_comm 1 k])
    · rw [if_neg hmore]
      exact ⟨s,0,rfl,hs,by omega,Nat.zero_add _,List.Sublist.refl _⟩

theorem Exact.limit (hs : Exact s) (nMaxOrphans : Nat) (rand : Nat → H) :
    ∃s' k,s.limitOrphanTxSize nMaxOrphans rand=some (s',k) ∧ Exact s' ∧
      s'.mapOrphanTransactions.length=min nMaxOrphans s.mapOrphanTransactions.length ∧
      k+s'.mapOrphanTransactions.length=s.mapOrphanTransactions.length ∧
      s'.mapOrphanTransactions.Sublist s.mapOrphanTransactions := by
  obtain ⟨s',k,hloop,hrest⟩ := hs.limitLoop rand (Nat.le_refl _) 0
  rw [Nat.zero_add] at hloop
  exact ⟨s',k,hloop,hrest⟩

theorem Exact.step (hs : Exact s) (o : PoolOp H) : ∃s',s.step o=some s' ∧ Exact s' := by
  cases o with
  | add tx peer => exact ⟨_,rfl,hs.add tx peer⟩
  | erase hash => exact ⟨_,rfl,hs.erase hash⟩
  | eraseFor peer => exact ⟨_,rfl,(hs.eraseFor peer).1⟩
  | limit nMaxOrphans rand =>
    obtain ⟨s',k,hlimit,hexact,-⟩ := hs.limit nMaxOrphans rand
    exact ⟨s',by rw [OrphanPool.step,hlimit]; rfl,hexact⟩

/-- After every sequence of calls the index holds exactly the stored orphans, a new one is
stored unless it is too large, the orphans of a peer and no others are erased for it, and the
eviction ends with the number it took out. -/
theorem orphans_exact (ops : List (PoolOp H)) : ∃s,run step ops OrphanPool.empty=some s ∧
    (∀p,s.mapOrphanTransactionsByPrev p=if s.spenders p=∅ then none else some (s.spenders p)) ∧
    (∀tx peer,(s.addOrphanTx tx peer).1.mapOrphanTransactions.Perm
      (if (s.find tx.hash).isSome ∨ tx.serializeSize>5000 then s.mapOrphanTransactions
        else (tx.hash,⟨tx,peer⟩)::s.mapOrphanTransactions)) ∧
    (∀peer,(s.eraseOrphansFor peer).mapOrphanTransactions=
      s.mapOrphanTransactions.filter fun e => e.2.fromPeer≠peer) ∧
    ∀nMaxOrphans rand,∃s' k,s.limitOrphanTxSize nMaxOrphans rand=some (s',k) ∧
      s'.mapOrphanTransactions.length=min nMaxOrphans s.mapOrphanTransactions.length ∧
      k+s'.mapOrphanTransactions.length=s.mapOrphanTransactions.length ∧
      s'.mapOrphanTransactions.Sublist s.mapOrphanTransactions := by
  obtain ⟨s,hrun,hs⟩ := run_always (fun s o hs => Exact.step hs o) ops Exact.empty
  refine ⟨s,hrun,fun p => congrFun hs.index p,s.addOrphanTx_perm,
    fun peer => (hs.eraseFor peer).2,fun nMaxOrphans rand => ?_⟩
  obtain ⟨s',k,hlimit,-,hrest⟩ := hs.limit nMaxOrphans rand
  exact ⟨s',k,hlimit,hrest⟩

end OrphanPool

end Zdeex.Mempool.Orphans
