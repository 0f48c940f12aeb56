import Mathlib.Data.List.Nodup
import Mathlib.Data.Prod.Lex
import Zdeex.Framework.OrderedMap
import Zdeex.Wallet.MapWallet

namespace Zdeex.Wallet.Positions

open Zdeex.Block
open Zdeex.Framework

section Definitions

/-- An output with what `IsMine` says about its script. -/
structure CTxOut where
  nValue : Int
  mine : IsMineType
  deriving DecidableEq

/-- A note of the wallet by its output, with the nullifier if one is set. -/
structure SaplingNoteData where
  n : Nat
  nullifier : Option Uint256
  deriving DecidableEq

structure CWalletTx where
  hash : Uint256
  isCoinBase : Bool
  vin : List COutPoint
  vout : List CTxOut
  vShieldedSpend : List Uint256
  mapSaplingNoteData : List SaplingNoteData
  nIndex : Int
  nOrderPos : Int
  deriving DecidableEq

/-- The active chain and the mempool: the depth of a transaction, and the height of its block. -/
structure Chain where
  tipHeight : Int
  depth : Uint256 → Int
  height : Uint256 → Int
  height_le : ∀hash,height hash≤tipHeight

/-- The key of `mapSorted`. -/
abbrev SortKey := Int ×ₗ Int

/-- The state of the loop in `ReorderWalletTransactions`. -/
structure Sorting where
  mapSorted : List (SortKey × CWalletTx)
  maxSortNumber : Int
  maxOrderPos : Int

def sortKey (c : Chain) (tx : CWalletTx) (maxSortNumber : Int) : SortKey :=
  if 0<c.depth tx.hash then toLex (c.height tx.hash,tx.nIndex) else toLex (maxSortNumber,0)

def sortTx (c : Chain) (s : Sorting) (tx : CWalletTx) : Sorting where
  mapSorted := OrderedMap.insertNew (sortKey c tx s.maxSortNumber) tx s.mapSorted
  maxSortNumber := if 0<c.depth tx.hash then s.maxSortNumber else s.maxSortNumber+1
  maxOrderPos := max s.maxOrderPos tx.nOrderPos

def reorderWalletTransactions (c : Chain) (mapWallet : List CWalletTx) (maxOrderPos : Int) :
    Sorting :=
  mapWallet.foldl (sortTx c) ⟨[],c.tipHeight+1,maxOrderPos⟩

/-- The positions that the loop of `UpdateWalletTransactionOrder` leaves, in order, and the last
one. -/
def updatePositions (resetOrder : Bool) : Int → List CWalletTx → List (Uint256 × Int) × Int
  | previousPosition,[] => ([],previousPosition)
  | previousPosition,tx::txs =>
    let nOrderPos := if tx.nOrderPos≤previousPosition ∨ resetOrder=true then previousPosition+1
      else tx.nOrderPos
    let r := updatePositions resetOrder nOrderPos txs
    ((tx.hash,nOrderPos)::r.1,r.2)

structure CWallet where
  mapWallet : List CWalletTx
  nodup : (mapWallet.map CWalletTx.hash).Nodup
  nOrderPosNext : Int

def withPosition (positions : List (Uint256 × Int)) (tx : CWalletTx) : CWalletTx :=
  {tx with nOrderPos := ((positions.find? fun e => e.1 == tx.hash).map Prod.snd).getD tx.nOrderPos}

theorem withPosition_hash (positions : List (Uint256 × Int)) (tx : CWalletTx) :
    (withPosition positions tx).hash=tx.hash := rfl

/-- `nOrderPosNext = previousPosition++`: the value before the increment. -/
def updateWalletTransactionOrder (w : CWallet) (mapSorted : List (SortKey × CWalletTx))
    (resetOrder : Bool) : CWallet :=
  let r := updatePositions resetOrder 0 (mapSorted.map Prod.snd)
  { mapWallet := w.mapWallet.map (withPosition r.1)
    nodup := by
      rw [List.map_map]
      exact w.nodup
    nOrderPosNext := r.2 }

/-- Both calls, one after the other. -/
def reordered (c : Chain) (w : CWallet) (resetOrder : Bool) : CWallet :=
  updateWalletTransactionOrder w (reorderWalletTransactions c w.mapWallet 0).mapSorted resetOrder

end Definitions

section Sorted

variable {c : Chain}

/-- What the loop over the wallet has put into the map. -/
structure SortedUpTo (c : Chain) (done : List CWalletTx) (s : Sorting) : Prop where
  sorted : OrderedMap.Sorted s.mapSorted
  number : c.tipHeight+1 ≤ s.maxSortNumber
  mem : ∀e∈s.mapSorted,e.2∈done
  confirmed : ∀e∈s.mapSorted,0<c.depth e.2.hash →
    e.1=toLex (c.height e.2.hash,e.2.nIndex)
  unconfirmed : ∀e∈s.mapSorted,¬0<c.depth e.2.hash →
    ∃n,c.tipHeight<n ∧ n<s.maxSortNumber ∧ e.1=toLex (n,0)

theorem sortTx_sorted {done : List CWalletTx} {s : Sorting} (h : SortedUpTo c done s)
    (tx : CWalletTx) : SortedUpTo c (done++[tx]) (sortTx c s tx) := by
  have hnumber := h.number
  have hmono : s.maxSortNumber≤(sortTx c s tx).maxSortNumber := by
    unfold sortTx
    dsimp only
    split_ifs <;> omega
  refine ⟨OrderedMap.sorted_insertNew _ _ h.sorted,by omega,?_,?_,?_⟩
  · intro e he
    rcases OrderedMap.mem_insertNew he with rfl | he
    · exact List.mem_append_right _ List.mem_cons_self
    · exact List.mem_append_left _ (h.mem e he)
  · intro e he hdepth
    rcases OrderedMap.mem_insertNew he with rfl | he
    · exact if_pos hdepth
    · exact h.confirmed e he hdepth
  · intro e he hdepth
    rcases OrderedMap.mem_insertNew he with rfl | he
    · refine ⟨s.maxSortNumber,by omega,?_,if_neg hdepth⟩
      dsimp only at hdepth
      unfold sortTx
      dsimp only
      rw [if_neg hdepth]
      omega
    · obtain ⟨n,hlow,hhigh,hkey⟩ := h.unconfirmed e he hdepth
      exact ⟨n,hlow,by omega,hkey⟩

theorem foldl_sortTx (txs done : List CWalletTx) {s : Sorting} (h : SortedUpTo c done s) :
    SortedUpTo c (done++txs) (txs.foldl (sortTx c) s) := by
  induction txs generalizing done s with
  | nil => rwa [List.append_nil]
  | cons tx txs ih =>
    have hstep := ih (done++[tx]) (sortTx_sorted h tx)
    rwa [List.append_assoc,List.singleton_append] at hstep

theorem reorder_sorted (mapWallet : List CWalletTx) (maxOrderPos : Int) :
    SortedUpTo c mapWallet (reorderWalletTransactions c mapWallet maxOrderPos) := by
  have hstart : SortedUpTo c [] ⟨[],c.tipHeight+1,maxOrderPos⟩ := by
    refine ⟨List.Pairwise.nil,le_rfl,?_,?_,?_⟩ <;>
    exact fun e he => absurd he List.not_mem_nil
  exact foldl_sortTx mapWallet [] hstart

theorem reorder_ne_nil {mapWallet : List CWalletTx} (h : mapWallet≠[]) (maxOrderPos : Int) :
    (reorderWalletTransactions c mapWallet maxOrderPos).mapSorted≠[] := by
  have hkeep : ∀(txs : List CWalletTx) (s : Sorting),s.mapSorted≠[] →
      (txs.foldl (sortTx c) s).mapSorted≠[] := by
    intro txs
    induction txs with
    | nil => exact fun s hs => hs
    | cons tx txs ih => exact fun s _ => ih _ (OrderedMap.insertNew_ne_nil _ _ _)
  cases mapWallet with
  | nil => exact absurd rfl h
  | cons tx txs => exact hkeep txs _ (OrderedMap.insertNew_ne_nil _ _ _)

/-- A transaction is in the map once at most. -/
theorem reorder_subperm (mapWallet : List CWalletTx) (maxOrderPos : Int) :
    ((reorderWalletTransactions c mapWallet maxOrderPos).mapSorted.map Prod.snd).Subperm
      mapWallet := by
  have hkeep : ∀(txs done : List CWalletTx) (s : Sorting),
      (s.mapSorted.map Prod.snd).Subperm done →
      ((txs.foldl (sortTx c) s).mapSorted.map Prod.snd).Subperm (done++txs) := by
    intro txs
    induction txs with
    | nil =>
      intro done s hs
      rwa [List.append_nil]
    | cons tx txs ih =>
      intro done s hs
      obtain ⟨l,hperm,hsub⟩ :=
        OrderedMap.insertNew_subperm (sortKey c tx s.maxSortNumber) tx s.mapSorted
      have hadd : ((sortTx c s tx).mapSorted.map Prod.snd).Subperm
          (tx::s.mapSorted.map Prod.snd) := ⟨l.map Prod.snd,hperm.map _,hsub.map _⟩
      have hstep : ((sortTx c s tx).mapSorted.map Prod.snd).Subperm (done++[tx]) :=
        hadd.trans
          (((List.subperm_cons tx).mpr hs).trans (List.perm_append_singleton tx done).symm.subperm)
      have hrest := ih (done++[tx]) (sortTx c s tx) hstep
      rwa [List.append_assoc,List.singleton_append] at hrest
  exact hkeep mapWallet [] _ (List.nil_subperm)

/-- No two confirmed transactions of the wallet have the same place in the chain. -/
def DistinctPlaces (c : Chain) (txs : List CWalletTx) : Prop :=
  txs.Pairwise fun a b => 0<c.depth a.hash → 0<c.depth b.hash →
    (c.height a.hash,a.nIndex)≠(c.height b.hash,b.nIndex)

/-- Then no transaction is dropped. -/
theorem foldl_sortTx_perm (txs done : List CWalletTx) {s : Sorting} (h : SortedUpTo c done s)
    (hperm : (s.mapSorted.map Prod.snd).Perm done) (hplaces : DistinctPlaces c (done++txs)) :
    ((txs.foldl (sortTx c) s).mapSorted.map Prod.snd).Perm (done++txs) := by
  induction txs generalizing done s with
  | nil => rwa [List.append_nil]
  | cons tx txs ih =>
    have hnew : ∀e∈s.mapSorted,e.1≠sortKey c tx s.maxSortNumber := by
      intro e he hsame
      have hnumber := h.number
      have hheight := c.height_le e.2.hash
      have hheight' := c.height_le tx.hash
      have hplace := (List.pairwise_append.mp hplaces).2.2 e.2 (h.mem e he) tx List.mem_cons_self
      by_cases hdepth : 0<c.depth e.2.hash
      · by_cases hdepth' : 0<c.depth tx.hash
        · rw [h.confirmed e he hdepth,sortKey,if_pos hdepth'] at hsame
          exact hplace hdepth hdepth' (toLex.injective hsame)
        · rw [h.confirmed e he hdepth,sortKey,if_neg hdepth'] at hsame
          have hfst := congrArg Prod.fst (toLex.injective hsame)
          dsimp only at hfst
          omega
      · obtain ⟨n,hlow,hhigh,hkey⟩ := h.unconfirmed e he hdepth
        by_cases hdepth' : 0<c.depth tx.hash
        · rw [hkey,sortKey,if_pos hdepth'] at hsame
          have hfst := congrArg Prod.fst (toLex.injective hsame)
          dsimp only at hfst
          omega
        · rw [hkey,sortKey,if_neg hdepth'] at hsame
          have hfst := congrArg Prod.fst (toLex.injective hsame)
          dsimp only at hfst
          omega
    have hinsert : ((sortTx c s tx).mapSorted.map Prod.snd).Perm (done++[tx]) := by
      have hadd := (OrderedMap.insertNew_perm tx hnew).map Prod.snd
      rw [List.map_cons] at hadd
      exact (hadd.trans (hperm.cons tx)).trans (List.perm_append_singleton tx done).symm
    have hassoc : done++tx::txs=done++[tx]++txs := by simp
    rw [hassoc] at hplaces ⊢
    exact ih (done++[tx]) (sortTx_sorted h tx) hinsert hplaces

theorem reorder_perm {mapWallet : List CWalletTx} (hplaces : DistinctPlaces c mapWallet)
    (maxOrderPos : Int) :
    ((reorderWalletTransactions c mapWallet maxOrderPos).mapSorted.map Prod.snd).Perm
      mapWallet := by
  have hstart : SortedUpTo c [] ⟨[],c.tipHeight+1,maxOrderPos⟩ := by
    refine ⟨List.Pairwise.nil,le_rfl,?_,?_,?_⟩ <;>
    exact fun e he => absurd he List.not_mem_nil
  exact foldl_sortTx_perm mapWallet [] hstart (List.Perm.refl _) hplaces

end Sorted

section Positions

/-- The positions increase, from the given one to the one that is left. -/
structure Increasing (txs : List CWalletTx) (previousPosition : Int)
    (r : List (Uint256 × Int) × Int) : Prop where
  hashes : r.1.map Prod.fst=txs.map CWalletTx.hash
  pairwise : (r.1.map Prod.snd).Pairwise (· < ·)
  above : ∀e∈r.1,previousPosition<e.2
  upTo : ∀e∈r.1,e.2 ≤ r.2
  le : previousPosition ≤ r.2
  last : txs≠[] → ∃e∈r.1,e.2=r.2

theorem updatePositions_increasing (resetOrder : Bool) (txs : List CWalletTx)
    (previousPosition : Int) :
    Increasing txs previousPosition (updatePositions resetOrder previousPosition txs) := by
  induction txs generalizing previousPosition with
  | nil =>
    refine ⟨rfl,List.Pairwise.nil,?_,?_,le_rfl,fun h => absurd rfl h⟩ <;>
    exact fun e he => absurd he List.not_mem_nil
  | cons tx txs ih =>
    rw [updatePositions]
    generalize hpos : (if tx.nOrderPos≤previousPosition ∨ resetOrder=true
      then previousPosition+1 else tx.nOrderPos)=nOrderPos
    have hgreater : previousPosition<nOrderPos := by
      rw [← hpos]
      split_ifs with hreset
      · omega
      · omega
    have h := ih nOrderPos
    have hle := h.le
    refine ⟨?_,?_,?_,?_,by dsimp only; omega,fun _ => ?_⟩
    · rw [List.map_cons,h.hashes,List.map_cons]
    · refine List.pairwise_cons.mpr ⟨fun p hp => ?_,h.pairwise⟩
      obtain ⟨e,he,rfl⟩ := List.mem_map.mp hp
      exact h.above e he
    · intro e he
      rcases List.mem_cons.mp he with rfl | he
      · exact hgreater
      · exact hgreater.trans (h.above e he)
    · intro e he
      rcases List.mem_cons.mp he with rfl | he
      · exact hle
      · exact h.upTo e he
    · by_cases hnil : txs=[]
      · subst hnil
        exact ⟨(tx.hash,nOrderPos),List.mem_cons_self,rfl⟩
      · obtain ⟨e,he,hlast⟩ := h.last hnil
        exact ⟨e,List.mem_cons_of_mem _ he,hlast⟩

/-- A transaction whose position was set has it. -/
theorem withPosition_eq {positions : List (Uint256 × Int)} (hnodup : (positions.map Prod.fst).Nodup)
    {tx : CWalletTx} {pos : Int} (h : (tx.hash,pos)∈positions) :
    (withPosition positions tx).nOrderPos=pos := by
  have hfind := OrderedMap.find_key Prod.fst hnodup h
  rw [withPosition,hfind]
  rfl

end Positions

section Order

variable {c : Chain} {w : CWallet}

/-- Distinct positions that follow the chain, confirmed transactions first. -/
structure Ordered (c : Chain) (w : CWallet) : Prop where
  distinct : (w.mapWallet.map CWalletTx.nOrderPos).Nodup
  confirmed : ∀a∈w.mapWallet,∀b∈w.mapWallet,0<c.depth a.hash → 0<c.depth b.hash →
    toLex (c.height a.hash,a.nIndex)<toLex (c.height b.hash,b.nIndex) → a.nOrderPos<b.nOrderPos
  unconfirmed : ∀a∈w.mapWallet,∀b∈w.mapWallet,0<c.depth a.hash → ¬0<c.depth b.hash →
    a.nOrderPos<b.nOrderPos

/-- A transaction that is added next gets a position behind all others. -/
def NextIsFresh (w : CWallet) : Prop := ∀a∈w.mapWallet,a.nOrderPos<w.nOrderPosNext

/-- The map of a call, and the positions it sets. -/
def sortedOf (c : Chain) (w : CWallet) : List (SortKey × CWalletTx) :=
  (reorderWalletTransactions c w.mapWallet 0).mapSorted

def positionsOf (c : Chain) (w : CWallet) (resetOrder : Bool) : List (Uint256 × Int) :=
  (updatePositions resetOrder 0 ((sortedOf c w).map Prod.snd)).1

theorem reordered_increasing (c : Chain) (w : CWallet) (resetOrder : Bool) :
    Increasing ((sortedOf c w).map Prod.snd) 0
      (updatePositions resetOrder 0 ((sortedOf c w).map Prod.snd)) :=
  updatePositions_increasing resetOrder _ 0

theorem positionsOf_nodup (c : Chain) (w : CWallet) (resetOrder : Bool) :
    ((positionsOf c w resetOrder).map Prod.fst).Nodup := by
  rw [positionsOf,(reordered_increasing c w resetOrder).hashes]
  obtain ⟨l,hperm,hsub⟩ := reorder_subperm (c := c) w.mapWallet 0
  exact (hperm.map _).nodup_iff.mp (w.nodup.sublist (hsub.map _))

/-- The next position is already taken when there is a transaction. -/
theorem next_taken (c : Chain) (resetOrder : Bool) (h : w.mapWallet≠[]) :
    ∃a∈(reordered c w resetOrder).mapWallet,
      a.nOrderPos=(reordered c w resetOrder).nOrderPosNext := by
  have hincreasing := reordered_increasing c w resetOrder
  have hne : (sortedOf c w).map Prod.snd≠[] := by
    rw [ne_eq,List.map_eq_nil_iff]
    exact reorder_ne_nil h 0
  obtain ⟨e,he,hlast⟩ := hincreasing.last hne
  have hhash : e.1∈((sortedOf c w).map Prod.snd).map CWalletTx.hash := by
    rw [← hincreasing.hashes]
    exact List.mem_map_of_mem he
  obtain ⟨tx,htx,hsame⟩ := List.mem_map.mp hhash
  obtain ⟨entry,hentry,rfl⟩ := List.mem_map.mp htx
  have hmem : entry.2∈w.mapWallet := (reorder_sorted (c := c) w.mapWallet 0).mem entry hentry
  refine ⟨withPosition (positionsOf c w resetOrder) entry.2,List.mem_map_of_mem hmem,?_⟩
  have hposition : (entry.2.hash,e.2)∈positionsOf c w resetOrder := by
    rw [hsame]
    exact he
  rw [withPosition_eq (positionsOf_nodup c w resetOrder) hposition]
  exact hlast

/-- Where a transaction is in the map, and its position. -/
theorem located (resetOrder : Bool) (hplaces : DistinctPlaces c w.mapWallet) {a : CWalletTx}
    (ha : a∈(reordered c w resetOrder).mapWallet) :
    ∃i,∃(hi : i < (sortedOf c w).length) (hp : i < (positionsOf c w resetOrder).length),
      a=withPosition (positionsOf c w resetOrder) (sortedOf c w)[i].2 ∧
        a.nOrderPos=(positionsOf c w resetOrder)[i].2 := by
  obtain ⟨tx,htx,rfl⟩ := List.mem_map.mp ha
  have hmem : tx∈(sortedOf c w).map Prod.snd := (reorder_perm hplaces 0).mem_iff.mpr htx
  obtain ⟨entry,hentry,rfl⟩ := List.mem_map.mp hmem
  obtain ⟨i,hi,rfl⟩ := List.getElem_of_mem hentry
  have hincreasing := reordered_increasing c w resetOrder
  have hlen := congrArg List.length hincreasing.hashes
  simp only [List.length_map] at hlen
  have hp : i < (positionsOf c w resetOrder).length := by
    rw [positionsOf,hlen]
    exact hi
  have hhash : (positionsOf c w resetOrder)[i].1=(sortedOf c w)[i].2.hash := by
    have hget := List.getElem_of_eq hincreasing.hashes (by rw [List.length_map,hlen]; exact hi)
    simp only [List.getElem_map] at hget
    exact hget
  refine ⟨i,hi,hp,rfl,withPosition_eq (positionsOf_nodup c w resetOrder) ?_⟩
  rw [← hhash]
  exact List.getElem_mem hp

theorem positions_lt (c : Chain) (w : CWallet) (resetOrder : Bool) {i j : Nat}
    (hi : i < (positionsOf c w resetOrder).length) (hj : j < (positionsOf c w resetOrder).length)
    (hij : i < j) : (positionsOf c w resetOrder)[i].2<(positionsOf c w resetOrder)[j].2 := by
  have hpairwise := List.pairwise_iff_getElem.mp (reordered_increasing c w resetOrder).pairwise
    i j (by rwa [List.length_map]) (by rwa [List.length_map]) hij
  rwa [List.getElem_map,List.getElem_map] at hpairwise

theorem keys_lt (c : Chain) (w : CWallet) {i j : Nat} (hi : i < (sortedOf c w).length)
    (hj : j < (sortedOf c w).length) (hkey : (sortedOf c w)[i].1<(sortedOf c w)[j].1) : i < j := by
  have hsorted := List.pairwise_iff_getElem.mp (reorder_sorted (c := c) w.mapWallet 0).sorted
  by_contra hno
  rcases Nat.lt_or_eq_of_le (Nat.le_of_not_lt hno) with hlt | rfl
  · exact lt_asymm hkey (hsorted j i hj hi hlt)
  · exact lt_irrefl _ hkey

/-- With distinct places the positions are in order, and the next one is not below any. -/
theorem reordered_ordered (resetOrder : Bool) (hplaces : DistinctPlaces c w.mapWallet) :
    Ordered c (reordered c w resetOrder) ∧ ∀a∈(reordered c w resetOrder).mapWallet,
      a.nOrderPos≤(reordered c w resetOrder).nOrderPosNext := by
  have hsorted := reorder_sorted (c := c) w.mapWallet 0
  refine ⟨⟨?_,?_,?_⟩,?_⟩
  · apply List.Nodup.map_on
    · intro a ha b hb hsame
      obtain ⟨i,hi,hp,heq,hpos⟩ := located resetOrder hplaces ha
      obtain ⟨j,hj,hq,heq',hpos'⟩ := located resetOrder hplaces hb
      rcases Nat.lt_trichotomy i j with hlt | rfl | hlt
      · have := positions_lt c w resetOrder hp hq hlt
        omega
      · rw [heq,heq']
      · have := positions_lt c w resetOrder hq hp hlt
        omega
    · exact (reordered c w resetOrder).nodup.of_map _
  · intro a ha b hb hdepth hdepth' hplace
    obtain ⟨i,hi,hp,heq,hpos⟩ := located resetOrder hplaces ha
    obtain ⟨j,hj,hq,heq',hpos'⟩ := located resetOrder hplaces hb
    rw [hpos,hpos']
    apply positions_lt c w resetOrder hp hq
    apply keys_lt c w hi hj
    rw [heq] at hdepth hplace
    rw [heq'] at hdepth' hplace
    rw [hsorted.confirmed _ (List.getElem_mem hi) hdepth,
      hsorted.confirmed _ (List.getElem_mem hj) hdepth']
    exact hplace
  · intro a ha b hb hdepth hdepth'
    obtain ⟨i,hi,hp,heq,hpos⟩ := located resetOrder hplaces ha
    obtain ⟨j,hj,hq,heq',hpos'⟩ := located resetOrder hplaces hb
    rw [hpos,hpos']
    apply positions_lt c w resetOrder hp hq
    apply keys_lt c w hi hj
    rw [heq] at hdepth
    rw [heq'] at hdepth'
    obtain ⟨n,hlow,-,hkey⟩ := hsorted.unconfirmed (sortedOf c w)[j] (List.getElem_mem hj) hdepth'
    have hheight := c.height_le (sortedOf c w)[i].2.hash
    rw [hkey,hsorted.confirmed (sortedOf c w)[i] (List.getElem_mem hi) hdepth,
      Prod.Lex.toLex_lt_toLex]
    left
    dsimp only
    omega
  · intro a ha
    obtain ⟨i,hi,hp,heq,hpos⟩ := located resetOrder hplaces ha
    rw [hpos]
    exact (reordered_increasing c w resetOrder).upTo _ (List.getElem_mem hp)

/-- The next position is fresh only where there is nothing to order. -/
theorem order_positions_iff (c : Chain) (w : CWallet) (resetOrder : Bool) :
    (Ordered c (reordered c w resetOrder) ∧ NextIsFresh (reordered c w resetOrder) ↔
      w.mapWallet=[]) ∧
    (DistinctPlaces c w.mapWallet → Ordered c (reordered c w resetOrder) ∧
      ∀a∈(reordered c w resetOrder).mapWallet,
        a.nOrderPos≤(reordered c w resetOrder).nOrderPosNext) := by
  refine ⟨⟨?_,?_⟩,reordered_ordered resetOrder⟩
  · rintro ⟨-,hfresh⟩
    by_contra hne
    obtain ⟨a,ha,htaken⟩ := next_taken c resetOrder hne
    have hlt := hfresh a ha
    omega
  · intro hempty
    have hplaces : DistinctPlaces c w.mapWallet := by
      rw [hempty]
      exact List.Pairwise.nil
    refine ⟨(reordered_ordered resetOrder hplaces).1,fun a ha => ?_⟩
    have hnil : (reordered c w resetOrder).mapWallet=[] := by
      unfold reordered updateWalletTransactionOrder
      dsimp only
      rw [hempty]
      rfl
    rw [hnil] at ha
    cases ha

/-- A chain of height ten; the transaction with hash one is in its last block. -/
def tenBlocks : Chain where
  tipHeight := 10
  depth hash := if hash=1 then 1 else 0
  height _ := 10
  height_le _ := le_rfl

/-- A confirmed and an unconfirmed transaction. -/
def twoTxs : CWallet where
  mapWallet := [⟨1,false,[],[],[],[],1,0⟩,⟨2,false,[],[],[],[],-1,1⟩]
  nodup := by decide
  nOrderPosNext := 2

/-- The next transaction gets the position of the unconfirmed one. -/
theorem last_position_again :
    ¬(Ordered tenBlocks (reordered tenBlocks twoTxs false) ∧
      NextIsFresh (reordered tenBlocks twoTxs false)) := by
  rintro ⟨-,hfresh⟩
  have hnext : (reordered tenBlocks twoTxs false).nOrderPosNext=2 := by decide +kernel
  have hpos : (reordered tenBlocks twoTxs false).mapWallet.any (fun a => a.nOrderPos == 2)=true := by
    decide +kernel
  obtain ⟨a,ha,htwo⟩ := List.any_eq_true.mp hpos
  have hlt := hfresh a ha
  rw [hnext,beq_iff_eq.mp htwo] at hlt
  omega

/-- The two transactions keep their order. -/
theorem two_txs_in_order : Ordered tenBlocks (reordered tenBlocks twoTxs false) := by
  have hplaces : DistinctPlaces tenBlocks twoTxs.mapWallet := by
    unfold DistinctPlaces
    decide +kernel
  exact ((order_positions_iff tenBlocks twoTxs false).2 hplaces).1

end Order

end Zdeex.Wallet.Positions
