import Zdeex.Validity.TotalRuns

namespace Zdeex.Validity

open Zdeex.Framework Zdeex.Block

variable {H : Type} [LinearOrder H]

open ChainState

namespace TotalState

variable {fZindex flag : Bool} {s : TotalState H} {t : Totals H} {a b h p : H}
  {pre post : List H}

/-- What the loop has computed for a block. -/
structure Reloaded (s : TotalState H) (t : Totals H) (h : H) : Prop where
  tx : t.nChainTx h=s.chain.nChainTx h
  sapling : s.chain.nChainTx h≠0 → t.nChainSaplingValue h=s.nChainSaplingValue h

/-- A block with its data is linked exactly if its parent is. -/
theorem Settled.linked_iff (hs : Settled fZindex s) (hd : (s.chain.status h).haveData=true) :
    s.chain.nChainTx h≠0 ↔ ∀p,s.chain.pprev h=some p → s.chain.nChainTx p≠0 := by
  constructor
  · intro hh
    exact (hs.linked.linked h hh).2.2
  · intro hparent hzero
    rcases (hs.linked.data h hd).2.2 hzero with hno | ⟨p,hp,hmem⟩
    · cases hno
    · exact hparent p hp (hs.linked.unlinked p h hmem).2.2.1

theorem Settled.data_iff (hs : Settled fZindex s) :
    0<(s.chain.index h).nTx ↔ (s.chain.status h).haveData=true := by
  constructor
  · intro hpos
    by_contra hno
    have hzero := hs.bare h (by simpa using hno)
    omega
  · intro hd
    exact (hs.linked.data h hd).2.1

/-- Nothing has been computed for a block yet. -/
structure Untouched (t : Totals H) (h : H) : Prop where
  tx : t.nChainTx h=0
  sapling : t.nChainSaplingValue h=none

theorem loadBlock_of_ne (flag : Bool) (s : TotalState H) (t : Totals H) (hne : a≠h) :
    (s.loadBlock flag t h).nChainTx a=t.nChainTx a ∧
    (s.loadBlock flag t h).nChainSaplingValue a=t.nChainSaplingValue a := by
  have hassign : ∀n v w,(t.assign flag h n v w).nChainTx a=t.nChainTx a ∧
      (t.assign flag h n v w).nChainSaplingValue a=t.nChainSaplingValue a := by
    intro n v w
    exact ⟨Function.update_of_ne hne _ _,Function.update_of_ne hne _ _⟩
  rw [loadBlock]
  cases s.chain.pprev h with
  | none =>
    dsimp only
    split_ifs
    · exact hassign _ _ _
    · exact ⟨rfl,rfl⟩
  | some p =>
    dsimp only
    split_ifs
    · exact hassign _ _ _
    · exact hassign _ _ _
    · exact ⟨rfl,rfl⟩

/-- While the flag is not set, nothing is assigned to the statistics. -/
theorem loadBlock_stat (s : TotalState H) (t : Totals H) (h : H) :
    (s.loadBlock false t h).nChainStat=t.nChainStat := by
  rw [loadBlock]
  cases s.chain.pprev h with
  | none =>
    dsimp only
    split_ifs <;> rfl
  | some p =>
    dsimp only
    split_ifs <;> rfl

theorem restart_stat (s : TotalState H) : s.restart.nChainStat=fun _ _ => 0 := by
  have hloop : ∀(l : List H) (t : Totals H),
      (l.foldl (s.loadBlock false) t).nChainStat=t.nChainStat := by
    intro l
    induction l with
    | nil => exact fun t => rfl
    | cons h l ih => exact fun t => (ih _).trans (loadBlock_stat s t h)
  exact hloop _ .none

theorem Reloaded.of_ne (ha : Reloaded s t a) (hne : a≠h) :
    Reloaded s (s.loadBlock flag t h) a := by
  obtain ⟨htx,hsapling⟩ := loadBlock_of_ne flag s t hne
  refine ⟨?_,?_⟩
  · rw [htx]
    exact ha.tx
  · rw [hsapling]
    exact ha.sapling

theorem assign_reloaded {n : Nat} {v : Option Int} (w : Stat → Int)
    (htx : n=s.chain.nChainTx h) (hsapling : s.chain.nChainTx h≠0 → v=s.nChainSaplingValue h) :
    Reloaded s (t.assign flag h n v w) h :=
  ⟨(Function.update_self h _ _).trans htx,
    fun hh => (Function.update_self h _ _).trans (hsapling hh)⟩

/-- A block is loaded right once its parent is. -/
theorem loadBlock_reloaded (hs : Settled fZindex s) (hfresh : Untouched t h)
    (hparent : ∀p,s.chain.pprev h=some p → Reloaded s t p) :
    Reloaded s (s.loadBlock flag t h) h := by
  by_cases hpos : 0<(s.chain.index h).nTx
  · have hd := hs.data_iff.mp hpos
    have hlinked := hs.linked_iff hd
    have hkey := hs.linked.mem_keys_of_data hd
    rw [loadBlock,if_pos hpos]
    cases hp : s.chain.pprev h with
    | none =>
      have hh : s.chain.nChainTx h≠0 := by
        rw [hlinked,hp]
        exact fun p hno => by cases hno
      dsimp only
      apply assign_reloaded
      · rw [(hs.linked.linked h hh).2.1,hs.linked.total_none hkey hp]
      · intro _
        rw [hs.summed.sapling h hh,sumSaplingValue,hs.linked.along_none hkey hp]
    | some p =>
      have hprev := hparent p hp
      have hiff : s.chain.nChainTx h≠0 ↔ s.chain.nChainTx p≠0 := by
        rw [hlinked,hp]
        constructor
        · intro hall
          exact hall p rfl
        · intro hpl q hq
          rw [← Option.some.inj hq]
          exact hpl
      dsimp only
      rw [hprev.tx]
      by_cases hpl : s.chain.nChainTx p≠0
      · have hh := hiff.mpr hpl
        rw [if_pos hpl]
        apply assign_reloaded
        · rw [(hs.linked.linked p hpl).2.1,(hs.linked.linked h hh).2.1,Nat.add_comm,
            ← hs.linked.total_some hp]
          exact Nat.mod_eq_of_lt (hs.tx h hh)
        · intro _
          obtain ⟨hlo,hhi⟩ := hs.sapling h hh
          rw [hprev.sapling hpl,hs.summed.sapling p hpl,hs.summed.sapling h hh,Option.map_some,
            ← int64_of_bounds hlo hhi]
          apply congrArg (fun v => some (int64 v))
          rw [sumSaplingValue,sumSaplingValue,hs.linked.along_some hp,Int.add_comm]
      · rw [if_neg hpl]
        have hzero : s.chain.nChainTx h=0 := by
          by_contra hno
          exact hpl (hiff.mp hno)
        apply assign_reloaded _ hzero.symm
        exact fun hno => absurd hzero hno
  · have hd : (s.chain.status h).haveData=false := by
      by_contra hno
      exact hpos (hs.data_iff.mpr (by simpa using hno))
    have hzero := hs.linked.nChainTx_eq_zero hd
    rw [loadBlock,if_neg hpos]
    exact ⟨hfresh.tx.trans hzero.symm,fun hno => absurd hzero hno⟩

/-- Parents come before their children. -/
theorem parent_before (hs : Settled fZindex s) (hsplit : s.vSortedByHeight=pre++h::post)
    (hp : s.chain.pprev h=some p) : p∈pre := by
  have hkey : p∈Forest.keys s.chain.mapBlockIndex := (hs.linked.grown.parent_mem hp).2
  have hheight := hs.linked.height h p hp
  have hsorted : s.vSortedByHeight.Pairwise s.before := by
    have htotal : Std.Total s.before := ⟨fun a b => le_total _ _⟩
    have htrans : IsTrans H s.before := ⟨fun a b c => le_trans⟩
    exact List.pairwise_insertionSort _ _
  have hmem : p∈pre++h::post := by
    rw [← hsplit]
    exact (List.mem_insertionSort _).mpr hkey
  rw [hsplit] at hsorted
  rcases List.mem_append.mp hmem with hpre | hpost
  · exact hpre
  · exfalso
    rcases List.mem_cons.mp hpost with rfl | hpost
    · omega
    · have hrel := List.rel_of_pairwise_cons (List.pairwise_append.mp hsorted).2.1 hpost
      rcases Prod.Lex.toLex_le_toLex.mp hrel with hlt | ⟨heq,-⟩
      · omega
      · omega

/-- The loop of `LoadBlockIndexDB` over the blocks so far. -/
theorem load_upto (hs : Settled fZindex s) (flag : Bool) (pre : List H) :
    ∀post,s.vSortedByHeight=pre++post →
      (∀h∈pre,Reloaded s (pre.foldl (s.loadBlock flag) .none) h) ∧
      ∀h,h∉pre → Untouched (pre.foldl (s.loadBlock flag) .none) h := by
  induction pre using List.reverseRecOn with
  | nil =>
    intro post _
    constructor
    · intro h hh
      cases hh
    · intro h _
      exact ⟨rfl,rfl⟩
  | append_singleton pre b ih =>
    intro post hsplit
    have hsplit' : s.vSortedByHeight=pre++b::post := by
      rw [hsplit,List.append_assoc,List.singleton_append]
    obtain ⟨hdone,hfresh⟩ := ih (b::post) hsplit'
    have honce : s.vSortedByHeight.Nodup :=
      (List.perm_insertionSort _ _).nodup_iff.mpr hs.linked.grown.keys_nodup
    have hb : b∉pre := by
      rw [hsplit'] at honce
      intro hmem
      exact (List.nodup_append.mp honce).2.2 b hmem b List.mem_cons_self rfl
    rw [List.foldl_append,List.foldl_cons,List.foldl_nil]
    constructor
    · intro h hh
      rcases List.mem_append.mp hh with hpre | hlast
      · refine (hdone h hpre).of_ne ?_
        rintro rfl
        exact hb hpre
      · rw [List.mem_singleton.mp hlast]
        apply loadBlock_reloaded hs (hfresh b hb)
        intro p hp
        exact hdone p (parent_before hs hsplit' hp)
    · intro h hh
      rw [List.mem_append,not_or,List.mem_singleton] at hh
      obtain ⟨htx,hsapling⟩ := loadBlock_of_ne flag s (pre.foldl (s.loadBlock flag) .none) hh.2
      obtain ⟨htx',hsapling'⟩ := hfresh h hh.1
      exact ⟨htx.trans htx',hsapling.trans hsapling'⟩

theorem restart_reloaded (hs : Settled fZindex s) (hh : h∈Forest.keys s.chain.mapBlockIndex) :
    Reloaded s s.restart h :=
  (load_upto hs false s.vSortedByHeight [] (List.append_nil _).symm).1 h
    ((List.mem_insertionSort _).mpr hh)

/-- The totals of a block are the sums over it and its ancestors. -/
structure SumsAt (fZindex : Bool) (s : TotalState H) (h : H) : Prop where
  tx : s.chain.nChainTx h=s.chain.total h
  sapling : s.nChainSaplingValue h=some (s.sumSaplingValue h)
  stat : fZindex=true → ∀x,s.nChainStat h x=s.sumStat x h

/-- A restart gives a block the totals it had. -/
structure SameAt (fZindex : Bool) (s : TotalState H) (t : Totals H) (h : H) : Prop where
  tx : t.nChainTx h=s.chain.nChainTx h
  sapling : t.nChainSaplingValue h=s.nChainSaplingValue h
  stat : fZindex=true → ∀x,t.nChainStat h x=s.nChainStat h x

end TotalState

open TotalState

/-- After arrivals that follow each other every linked block has the totals of its chain,
and a restart restores them exactly for the chains without any statistic or without
`-zindex`. -/
theorem totals_sum (fZindex : Bool) (ops : List (TotalOp H))
    (hops : Guarded (totalStep fZindex) (Admits fZindex) ops (TotalState.empty : TotalState H)) :
    ∃s,run (totalStep fZindex) ops TotalState.empty=some s ∧
      ∀h,s.chain.nChainTx h≠0 → SumsAt fZindex s h ∧
        (SameAt fZindex s s.restart h ↔ (fZindex=true → ∀x,s.sumStat x h=0)) := by
  obtain ⟨s,hrun,hs⟩ := run_completes (I := Settled fZindex)
    (fun s op hop hs => hs.step hop) hops settled_empty
  refine ⟨s,hrun,?_⟩
  intro h hh
  have hload := restart_reloaded hs (hs.linked.mem_keys hh)
  refine ⟨⟨(hs.linked.linked h hh).2.1,hs.summed.sapling h hh,fun hz => hs.summed.stat hz h hh⟩,?_⟩
  constructor
  · intro hsame hz x
    have hstat := hsame.stat hz x
    rw [restart_stat,hs.summed.stat hz h hh] at hstat
    exact hstat.symm
  · intro hzero
    refine ⟨hload.tx,hload.sapling hh,?_⟩
    intro hz x
    rw [restart_stat,hs.summed.stat hz h hh]
    exact (hzero hz x).symm

/-- A transaction with a number of transparent and of shielded outputs. -/
def outputsTx (n m : Nat) : CTransaction :=
  { hash := 0,fOverwintered := true,nVersion := 4,nVersionGroupId := SAPLING_VERSION_GROUP_ID,
    vin := [⟨⟨0,0xFFFFFFFF⟩,[]⟩],vout := List.replicate n ⟨1,[0x51]⟩,nExpiryHeight := 0,
    valueBalance := 0,vShieldedSpend := [],vShieldedOutput := List.replicate m ⟨0⟩,
    vjoinsplit := [] }

/-- Only blocks of the index have ancestors to sum over. -/
theorem fits_of_keys {s : TotalState H}
    (htx : ∀h∈Forest.keys s.chain.mapBlockIndex,s.chain.total h<2^32)
    (hsapling : ∀h∈Forest.keys s.chain.mapBlockIndex,
      -2^63 ≤ s.sumSaplingValue h ∧ s.sumSaplingValue h<2^63)
    (hstat : ∀x,∀h∈Forest.keys s.chain.mapBlockIndex,s.sumStat x h<2^63) : Fits s := by
  have hnone : ∀h,h∉Forest.keys s.chain.mapBlockIndex → s.chain.lineage h=[] :=
    fun h hh => Forest.lineage_of_not_mem hh
  refine ⟨?_,?_,?_⟩
  · intro h
    by_cases hh : h∈Forest.keys s.chain.mapBlockIndex
    · exact htx h hh
    · rw [ChainState.total,hnone h hh,List.map_nil,List.sum_nil]
      decide
  · intro h
    by_cases hh : h∈Forest.keys s.chain.mapBlockIndex
    · exact hsapling h hh
    · rw [sumSaplingValue,along,hnone h hh,List.map_nil,List.sum_nil]
      decide
  · intro x h
    by_cases hh : h∈Forest.keys s.chain.mapBlockIndex
    · exact hstat x h hh
    · rw [sumStat,along,hnone h hh,List.map_nil,List.sum_nil]
      decide

/-- A root and its child, with their headers only. -/
def rootAndChild : TotalState Nat :=
  {TotalState.empty with chain :=
    ((ChainState.empty : ChainState Nat).addToBlockIndex 0 9 0x200f0f0f).addToBlockIndex 1 0 0x200f0f0f}

/-- The child has its data and waits. -/
def childWaits : TotalState Nat :=
  {rootAndChild.storeBlock true 1 [outputsTx 1 0,outputsTx 1 1] with
    chain := {(rootAndChild.storeBlock true 1 [outputsTx 1 0,outputsTx 1 1]).chain with
      mapBlocksUnlinked := [(0,1)]}}

/-- The data of the child, which has a shielded output, comes first. -/
def lateRoot : List (TotalOp Nat) :=
  [.addToBlockIndex 0 9 0x200f0f0f,.addToBlockIndex 1 0 0x200f0f0f,
    .receivedBlockTransactions 1 [outputsTx 1 0,outputsTx 1 1],
    .receivedBlockTransactions 0 [outputsTx 1 0]]

theorem late_root_sums : ∃s,run (totalStep true) lateRoot TotalState.empty=some s ∧
    ∀h,s.chain.nChainTx h≠0 → SumsAt true s h ∧
      (SameAt true s s.restart h ↔ (true=true → ∀x,s.sumStat x h=0)) := by
  apply totals_sum true lateRoot
  refine ⟨trivial,?_⟩
  intro s hs
  obtain rfl := Option.some.inj hs
  refine ⟨trivial,?_⟩
  intro s hs
  obtain rfl : rootAndChild=s := Option.some.inj hs
  refine ⟨⟨by decide +kernel,by decide +kernel,List.cons_ne_nil _ _,?_,fun _ => trivial⟩,?_⟩
  · apply fits_of_keys
    · decide +kernel
    · decide +kernel
    · intro x
      cases x <;> decide +kernel
  · intro s hs
    obtain rfl : childWaits=s := Option.some.inj hs
    refine ⟨⟨by decide +kernel,by decide +kernel,List.cons_ne_nil _ _,?_,?_⟩,fun _ _ => trivial⟩
    · apply fits_of_keys
      · decide +kernel
      · decide +kernel
      · intro x
        cases x <;> decide +kernel
    · intro _
      have hnext : (childWaits.storeBlock true 0 [outputsTx 1 0]).chain.linkedNext 0=[0,1] := by
        decide +kernel
      rw [hnext]
      refine ⟨?_,?_,trivial⟩
      · intro p _ a ha
        cases ha
      · intro p hp a ha x hzero
        have hp' : childWaits.chain.pprev 1=some 0 := by decide +kernel
        rw [Option.some.inj (hp.symm.trans hp')] at hzero
        rw [← Option.some.inj ha]
        exact hzero

/-- Two children of a root without shielded transactions. -/
def siblings : List (TotalOp Nat) :=
  [.addToBlockIndex 0 9 0x200f0f0f,.addToBlockIndex 1 0 0x200f0f0f,
    .addToBlockIndex 2 0 0x200f0f0f,.receivedBlockTransactions 0 [outputsTx 1 0],
    .receivedBlockTransactions 1 [outputsTx 1 1],.receivedBlockTransactions 2 [outputsTx 1 0]]

/-- The root gets the shielded transaction of its first child, which that child does not have
any more after a restart. -/
theorem sibling_loaded : ∃s,run (totalStep true) siblings TotalState.empty=some s ∧
    s.chain.nChainTx 0≠0 ∧ ¬SumsAt true s 0 ∧ s.chain.nChainTx 1≠0 ∧
      ¬SameAt true s s.restart 1 := by
  have hrun : (run (totalStep true) siblings TotalState.empty).map (fun s =>
      (s.chain.nChainTx 0,s.nChainStat 0 .shieldedTx,s.sumStat .shieldedTx 0,s.chain.nChainTx 1,
        s.nChainStat 1 .shieldedTx))=some (1,1,0,2,1) := by
    decide +kernel
  obtain ⟨s,hs,hvalues⟩ := Option.map_eq_some_iff.mp hrun
  simp only [Prod.mk.injEq] at hvalues
  obtain ⟨htx,hstat,hsum,htx',hstat'⟩ := hvalues
  refine ⟨s,hs,by omega,?_,by omega,?_⟩
  · intro hsums
    have heq := hsums.stat rfl .shieldedTx
    omega
  · intro hsame
    have heq := hsame.stat rfl .shieldedTx
    rw [restart_stat,hstat'] at heq
    cases heq

end Zdeex.Validity
