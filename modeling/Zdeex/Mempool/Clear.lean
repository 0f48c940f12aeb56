import Zdeex.Block.CoinsView
import Zdeex.Mempool.Indexes

namespace Zdeex.Mempool

open Zdeex.Framework Zdeex.Block Zdeex.Coins

namespace CTxMemPool

variable (p : CTxMemPool)

/-- What `clear` resets; the other maps and the sequence number stay. -/
def clear : CTxMemPool :=
  {p with mapTx := [],mapNextTx := fun _ => none,totalTxSize := 0,cachedInnerUsage := 0}

def nullifierExists (nullifier : Uint256) : Bool := (p.mapSaplingNullifiers nullifier).isSome

def «exists» (hash : Uint256) : Bool := (p.find hash).isSome

def lookup (hash : Uint256) : Option PoolTx := (p.find hash).map CTxMemPoolEntry.tx

/-- The entries for each address, which the source lists in the order of their keys. -/
def getAddressIndex (addresses : List (List UInt8 × Nat)) :
    List (CMempoolAddressDeltaKey → Option CMempoolAddressDelta) :=
  addresses.map (fun a k => if k.addressBytes=a.1 ∧ k.type=a.2 then p.mapAddress k else none)

def getSpentIndex (key : COutPoint) : Option CSpentIndexValue := p.mapSpent key

/-- `DrainRecentlyAdded`, which fails where a pointer leads to a transaction that is gone. -/
def drain : Option (CTxMemPool × List PoolTx × Nat) :=
  if p.mapRecentlyAddedTx.all p.exists then some p.drainRecentlyAdded else none

/-- `removeConflict`, which fails where the pointer leads to a transaction that is gone. -/
def followConflict (tx : PoolTx) (found : Option Uint256) (s : CTxMemPool × List PoolTx) :
    Option (CTxMemPool × List PoolTx) :=
  if found.all s.1.exists then removeConflict tx found s else none

def followConflictsIn (tx : PoolTx) :
    List COutPoint → CTxMemPool × List PoolTx → Option (CTxMemPool × List PoolTx)
  | [],s => some s
  | o::rest,s =>
      (followConflict tx ((s.1.mapNextTx o).map CInPoint.ptx) s).bind (followConflictsIn tx rest)

def followConflictsShielded (tx : PoolTx) :
    List Uint256 → CTxMemPool × List PoolTx → Option (CTxMemPool × List PoolTx)
  | [],s => some s
  | nf::rest,s =>
      (followConflict tx (s.1.mapSaplingNullifiers nf) s).bind (followConflictsShielded tx rest)

def followConflicts (tx : PoolTx) (removed : List PoolTx) : Option (CTxMemPool × List PoolTx) :=
  (followConflictsIn tx tx.outpoints (p,removed)).bind (followConflictsShielded tx tx.nullifiers)

def followForBlock : List PoolTx → CTxMemPool × List PoolTx → Option (CTxMemPool × List PoolTx)
  | [],s => some s
  | tx::vtx,(p,conflicts) =>
      match p.remove tx false [] with
      | none => none
      | some (q,_) => (q.followConflicts tx conflicts).bind (followForBlock vtx)

end CTxMemPool

def MEMPOOL_HEIGHT : Int := 0x7FFFFFFF

/-- What `CCoinsViewMemPool` asks of the view below it. -/
structure BaseView where
  getNullifier : Uint256 → Bool
  getCoins : Uint256 → Option CCoins
  haveCoins : Uint256 → Bool

namespace BaseView

variable (base : BaseView) (mempool : CTxMemPool)

/-- `CCoinsViewMemPool::GetNullifier`. -/
def poolNullifier (nf : Uint256) : Bool := mempool.nullifierExists nf || base.getNullifier nf

/-- `CCoinsViewMemPool::GetCoins`. -/
def poolCoins (txid : Uint256) : Option CCoins :=
  match mempool.lookup txid with
  | some tx => some (.fromTx tx.toCTransaction MEMPOOL_HEIGHT)
  | none => (base.getCoins txid).filter (fun coins => !coins.isPruned)

/-- `CCoinsViewMemPool::HaveCoins`. -/
def poolHaveCoins (txid : Uint256) : Bool := mempool.exists txid || base.haveCoins txid

end BaseView

/-- The calls on a pool and on the view over it. -/
inductive PoolCall where
  | addUnchecked (entry : CTxMemPoolEntry)
  | remove (tx : PoolTx) (fRecursive : Bool)
  | removeForReorg (tip : ChainTip)
  | removeWithAnchor (invalidRoot : Uint256)
  | removeConflicts (tx : PoolTx)
  | removeExpired (nBlockHeight : Nat)
  | removeForBlock (vtx : List PoolTx)
  | removeWithoutBranchId (nMemPoolBranchId : Nat)
  | removeAddressIndex (txhash : Uint256)
  | removeSpentIndex (txhash : Uint256)
  | nullifierExists (nullifier : Uint256)
  | lookup (hash : Uint256)
  | getAddressIndex (addresses : List (List UInt8 × Nat))
  | getSpentIndex (key : COutPoint)
  | drainRecentlyAdded
  | viewNullifier (nf : Uint256)
  | viewCoins (txid : Uint256)
  | viewHaveCoins (txid : Uint256)

/-- What a call returns or puts into its reference arguments. -/
inductive PoolAnswer where
  | nothing
  | removed (txs : List PoolTx)
  | ids (hashes : List Uint256)
  | flag (b : Bool)
  | transaction (tx : Option PoolTx)
  | deltas (results : List (CMempoolAddressDeltaKey → Option CMempoolAddressDelta))
  | spent (value : Option CSpentIndexValue)
  | recent (txs : List PoolTx) (sequence : Nat)
  | coins (coins : Option CCoins)

/-- One call; it fails where the source follows a pointer to a transaction that is gone. -/
def poolCall (pegscc : Bool) (base : BaseView) (p : CTxMemPool) :
    PoolCall → Option (CTxMemPool × PoolAnswer)
  | .addUnchecked entry => some (p.addUnchecked pegscc entry,.flag true)
  | .remove tx fRecursive => (p.remove tx fRecursive []).map (Prod.map id .removed)
  | .removeForReorg tip => (p.removeForReorg tip).map (fun q => (q,.nothing))
  | .removeWithAnchor invalidRoot => (p.removeWithAnchor invalidRoot).map (fun q => (q,.nothing))
  | .removeConflicts tx => (p.followConflicts tx []).map (Prod.map id .removed)
  | .removeExpired nBlockHeight => (p.removeExpired nBlockHeight).map (Prod.map id .ids)
  | .removeForBlock vtx => (CTxMemPool.followForBlock vtx (p,[])).map (Prod.map id .removed)
  | .removeWithoutBranchId nMemPoolBranchId =>
      (p.removeWithoutBranchId nMemPoolBranchId).map (fun q => (q,.nothing))
  | .removeAddressIndex txhash => some (p.removeAddressIndex txhash,.flag true)
  | .removeSpentIndex txhash => some (p.removeSpentIndex txhash,.flag true)
  | .nullifierExists nullifier => some (p,.flag (p.nullifierExists nullifier))
  | .lookup hash => some (p,.transaction (p.lookup hash))
  | .getAddressIndex addresses => some (p,.deltas (p.getAddressIndex addresses))
  | .getSpentIndex key => some (p,.spent (p.getSpentIndex key))
  | .drainRecentlyAdded => p.drain.map (Prod.map id (fun x => .recent x.1 x.2))
  | .viewNullifier nf => some (p,.flag (base.poolNullifier p nf))
  | .viewCoins txid => some (p,.coins (base.poolCoins p txid))
  | .viewHaveCoins txid => some (p,.flag (base.poolHaveCoins p txid))

namespace CTxMemPool

variable {p q : CTxMemPool} {e : CTxMemPoolEntry} {tx : PoolTx}

section Bare

/-- The pool without the lists of what was inserted into the indexes. -/
def bare (p : CTxMemPool) : CTxMemPool :=
  {p with mapAddressInserted := fun _ => none,mapSpentInserted := fun _ => none}

/-- The indexes of addresses and spent outputs are empty. -/
structure IndexFree (p : CTxMemPool) : Prop where
  address : ∀k,p.mapAddress k=none
  spent : ∀o,p.mapSpent o=none

theorem IndexFree.removeEntry (h : IndexFree p) (e : CTxMemPoolEntry) :
    IndexFree (p.removeEntry e) :=
  ⟨fun k => (congrFun (untrack_of_empty h.address) k).trans (h.address k),
    fun o => (congrFun (untrack_of_empty h.spent) o).trans (h.spent o)⟩

theorem bare_removeEntry (h : IndexFree p) (e : CTxMemPoolEntry) :
    (bare p).removeEntry e=bare (p.removeEntry e) := by
  have haddress : (untrack p.mapAddress p.mapAddressInserted e.tx.hash).1=p.mapAddress :=
    untrack_of_empty h.address
  have hspent : (untrack p.mapSpent p.mapSpentInserted e.tx.hash).1=p.mapSpent :=
    untrack_of_empty h.spent
  have hleft : (bare p).removeEntry e={p.removeEntry e with
      mapAddress := p.mapAddress,mapSpent := p.mapSpent,
      mapAddressInserted := fun _ => none,mapSpentInserted := fun _ => none} := rfl
  have hright : bare (p.removeEntry e)={p.removeEntry e with
      mapAddress := (untrack p.mapAddress p.mapAddressInserted e.tx.hash).1,
      mapSpent := (untrack p.mapSpent p.mapSpentInserted e.tx.hash).1,
      mapAddressInserted := fun _ => none,mapSpentInserted := fun _ => none} := rfl
  rw [hleft,hright,haddress,hspent]

theorem bare_removeAddressIndex (h : IndexFree p) (txhash : Uint256) :
    (bare p).removeAddressIndex txhash=bare (p.removeAddressIndex txhash) := by
  have haddress : (untrack p.mapAddress p.mapAddressInserted txhash).1=p.mapAddress :=
    untrack_of_empty h.address
  have hright : bare (p.removeAddressIndex txhash)={bare p with
      mapAddress := (untrack p.mapAddress p.mapAddressInserted txhash).1} := rfl
  rw [hright,haddress]
  rfl

theorem bare_removeSpentIndex (h : IndexFree p) (txhash : Uint256) :
    (bare p).removeSpentIndex txhash=bare (p.removeSpentIndex txhash) := by
  have hspent : (untrack p.mapSpent p.mapSpentInserted txhash).1=p.mapSpent :=
    untrack_of_empty h.spent
  have hright : bare (p.removeSpentIndex txhash)={bare p with
      mapSpent := (untrack p.mapSpent p.mapSpentInserted txhash).1} := rfl
  rw [hright,hspent]
  rfl

/-- A part of a call that neither reads nor changes the lists, as long as the indexes
are empty. -/
def Blind (f : CTxMemPool × List PoolTx → Option (CTxMemPool × List PoolTx)) : Prop :=
  ∀s,IndexFree s.1 → f (Prod.map bare id s)=(f s).map (Prod.map bare id) ∧
    ∀t,f s=some t → IndexFree t.1

theorem blind_some : Blind some := by
  intro s hs
  refine ⟨rfl,?_⟩
  intro t ht
  rw [← Option.some.inj ht]
  exact hs

theorem Blind.bind {f g : CTxMemPool × List PoolTx → Option (CTxMemPool × List PoolTx)}
    (hf : Blind f) (hg : Blind g) : Blind (fun s => (f s).bind g) := by
  intro s hs
  obtain ⟨hmap,hkeep⟩ := hf s hs
  dsimp only
  rw [hmap]
  cases hfs : f s with
  | none => exact ⟨rfl,fun t ht => by cases ht⟩
  | some t => exact hg t (hkeep t hfs)

theorem blind_removeLoop (fRecursive : Bool) (n : Nat) (txToRemove : List Uint256) :
    Blind (removeLoop fRecursive n txToRemove) := by
  induction n generalizing txToRemove with
  | zero =>
    cases txToRemove with
    | nil => exact blind_some
    | cons hash txToRemove => exact fun s _ => ⟨rfl,fun t ht => by cases ht⟩
  | succ n ih =>
    cases txToRemove with
    | nil => exact blind_some
    | cons hash txToRemove =>
      rintro ⟨p,removed⟩ hs
      have hfind : (bare p).find hash=p.find hash := rfl
      change removeLoop _ _ _ (bare p,removed)=_ ∧ _
      rw [removeLoop,removeLoop,hfind]
      cases p.find hash with
      | none => exact ih txToRemove (p,removed) hs
      | some e =>
        dsimp only
        rw [bare_removeEntry hs]
        exact ih _ (p.removeEntry e,removed++[e.tx]) (hs.removeEntry e)

theorem blind_remove (tx : PoolTx) (fRecursive : Bool) :
    Blind (fun s => s.1.remove tx fRecursive s.2) :=
  fun s hs => blind_removeLoop fRecursive _ _ s hs

theorem blind_followConflict (tx : PoolTx) {found : CTxMemPool → Option Uint256}
    (hfound : ∀p,found (bare p)=found p) : Blind (fun s => followConflict tx (found s.1) s) := by
  intro s hs
  dsimp only [Prod.map_fst]
  rw [hfound,followConflict,followConflict]
  change (if (found s.1).all s.1.exists=true then _ else _)=_ ∧ _
  split_ifs
  · have hfind : (Prod.map bare id s).1.find=s.1.find := rfl
    rw [removeConflict,removeConflict,hfind]
    cases (found s.1).bind s.1.find with
    | none => exact blind_some s hs
    | some txConflict =>
      dsimp only
      split_ifs
      · exact blind_some s hs
      · exact blind_remove txConflict.tx true s hs
  · exact ⟨rfl,fun t ht => by cases ht⟩

theorem blind_followConflictsIn (tx : PoolTx) (l : List COutPoint) :
    Blind (followConflictsIn tx l) := by
  induction l with
  | nil => exact blind_some
  | cons o l ih =>
    have hfirst := @blind_followConflict tx
      (fun p => (p.mapNextTx o).map CInPoint.ptx) (fun _ => rfl)
    exact hfirst.bind ih

theorem blind_followConflictsShielded (tx : PoolTx) (l : List Uint256) :
    Blind (followConflictsShielded tx l) := by
  induction l with
  | nil => exact blind_some
  | cons nf l ih =>
    have hfirst := @blind_followConflict tx (fun p => p.mapSaplingNullifiers nf) (fun _ => rfl)
    exact hfirst.bind ih

theorem blind_followConflicts (tx : PoolTx) : Blind (fun s => s.1.followConflicts tx s.2) :=
  (blind_followConflictsIn tx tx.outpoints).bind (blind_followConflictsShielded tx tx.nullifiers)

theorem blind_followForBlock (vtx : List PoolTx) : Blind (followForBlock vtx) := by
  induction vtx with
  | nil => exact blind_some
  | cons tx vtx ih =>
    rintro ⟨p,conflicts⟩ hs
    have hmap : (bare p).remove tx false []=(p.remove tx false []).map (Prod.map bare id) :=
      (blind_remove tx false (p,[]) hs).1
    change followForBlock _ (bare p,conflicts)=_ ∧ _
    rw [followForBlock,followForBlock,hmap]
    cases hr : p.remove tx false [] with
    | none => exact ⟨rfl,fun t ht => by cases ht⟩
    | some t =>
      exact (blind_followConflicts tx).bind ih (t.1,conflicts)
        ((blind_remove tx false (p,[]) hs).2 t hr)

theorem blind_removeAll (txs : List PoolTx) (h : IndexFree p) :
    removeAll txs (bare p)=(removeAll txs p).map bare ∧
      ∀q,removeAll txs p=some q → IndexFree q := by
  induction txs generalizing p with
  | nil =>
    refine ⟨rfl,?_⟩
    intro q hq
    rw [← Option.some.inj hq]
    exact h
  | cons tx txs ih =>
    have hmap : (bare p).remove tx true []=(p.remove tx true []).map (Prod.map bare id) :=
      (blind_remove tx true (p,[]) h).1
    rw [removeAll,removeAll,hmap]
    cases hr : p.remove tx true [] with
    | none => exact ⟨rfl,fun q hq => by cases hq⟩
    | some t => exact ih ((blind_remove tx true (p,[]) h).2 t hr)

/-- No call and no answer depends on the lists while the indexes are empty. -/
theorem poolCall_bare (pegscc : Bool) (base : BaseView) (h : IndexFree p) (c : PoolCall) :
    poolCall pegscc base (bare p) c=(poolCall pegscc base p c).map (Prod.map bare id) ∧
      ∀q a,poolCall pegscc base p c=some (q,a) → IndexFree q := by
  have hblind : ∀{f},Blind f → ∀removed (g : List PoolTx → PoolAnswer),
      (f (bare p,removed)).map (Prod.map id g)=
        ((f (p,removed)).map (Prod.map id g)).map (Prod.map bare id) ∧
      ∀q a,(f (p,removed)).map (Prod.map id g)=some (q,a) → IndexFree q := by
    intro f hf removed g
    obtain ⟨hmap,hkeep⟩ := hf (p,removed) h
    refine ⟨?_,?_⟩
    · rw [show f (bare p,removed)=_ from hmap,Option.map_map,Option.map_map]
      rfl
    · intro q a hq
      obtain ⟨t,ht,heq⟩ := Option.map_eq_some_iff.mp hq
      rw [← (Prod.mk.inj heq).1]
      exact hkeep t ht
  have hall : ∀txs,
      (removeAll txs (bare p)).map (fun q => (q,PoolAnswer.nothing))=
        ((removeAll txs p).map (fun q => (q,PoolAnswer.nothing))).map (Prod.map bare id) ∧
      ∀q a,(removeAll txs p).map (fun q => (q,PoolAnswer.nothing))=some (q,a) → IndexFree q := by
    intro txs
    obtain ⟨hmap,hkeep⟩ := blind_removeAll txs h
    refine ⟨?_,?_⟩
    · rw [hmap,Option.map_map,Option.map_map]
      rfl
    · intro q a hq
      obtain ⟨t,ht,heq⟩ := Option.map_eq_some_iff.mp hq
      rw [← (Prod.mk.inj heq).1]
      exact hkeep t ht
  have hquery : ∀a : PoolAnswer,∀q b,some (p,a)=some (q,b) → IndexFree q := by
    intro a q b hq
    rw [← (Prod.mk.inj (Option.some.inj hq)).1]
    exact h
  cases c with
  | addUnchecked entry =>
    refine ⟨rfl,?_⟩
    intro q a hq
    rw [← (Prod.mk.inj (Option.some.inj hq)).1]
    exact ⟨h.address,h.spent⟩
  | remove tx fRecursive => exact hblind (blind_remove tx fRecursive) [] .removed
  | removeForReorg tip => exact hall _
  | removeWithAnchor invalidRoot => exact hall _
  | removeConflicts tx => exact hblind (blind_followConflicts tx) [] .removed
  | removeExpired nBlockHeight => exact ⟨rfl,hquery _⟩
  | removeForBlock vtx => exact hblind (blind_followForBlock vtx) [] .removed
  | removeWithoutBranchId nMemPoolBranchId => exact hall _
  | removeAddressIndex txhash =>
    refine ⟨congrArg (fun q => some (q,PoolAnswer.flag true)) (bare_removeAddressIndex h txhash),?_⟩
    intro q a hq
    rw [← (Prod.mk.inj (Option.some.inj hq)).1]
    exact ⟨fun k => (congrFun (untrack_of_empty h.address) k).trans (h.address k),h.spent⟩
  | removeSpentIndex txhash =>
    refine ⟨congrArg (fun q => some (q,PoolAnswer.flag true)) (bare_removeSpentIndex h txhash),?_⟩
    intro q a hq
    rw [← (Prod.mk.inj (Option.some.inj hq)).1]
    exact ⟨h.address,fun o => (congrFun (untrack_of_empty h.spent) o).trans (h.spent o)⟩
  | nullifierExists nullifier => exact ⟨rfl,hquery _⟩
  | lookup hash => exact ⟨rfl,hquery _⟩
  | getAddressIndex addresses => exact ⟨rfl,hquery _⟩
  | getSpentIndex key => exact ⟨rfl,hquery _⟩
  | drainRecentlyAdded =>
    change (if p.mapRecentlyAddedTx.all p.exists=true then some (bare p).drainRecentlyAdded
      else none).map _=((p.drain.map _).map _) ∧ ∀q a,p.drain.map _=some (q,a) → _
    rw [drain]
    split_ifs
    · refine ⟨rfl,?_⟩
      intro q a hq
      rw [← (Prod.mk.inj (Option.some.inj hq)).1]
      exact ⟨h.address,h.spent⟩
    · exact ⟨rfl,fun q a hq => by cases hq⟩
  | viewNullifier nf => exact ⟨rfl,hquery _⟩
  | viewCoins txid => exact ⟨rfl,hquery _⟩
  | viewHaveCoins txid => exact ⟨rfl,hquery _⟩

end Bare

section Follow

variable {D : Type} {api : ScriptApi D} {pegscc : Bool} {view : COutPoint → Option CTxOut}

theorem exists_of_mem (he : e∈p.mapTx) : p.exists e.tx.hash=true := by
  rw [CTxMemPool.exists,Option.isSome_iff_ne_none]
  exact fun hnone => find_none hnone e he rfl

theorem followConflict_eq {found : Option Uint256} (hfound : ∀h,found=some h → p.exists h=true)
    (tx : PoolTx) (removed : List PoolTx) :
    followConflict tx found (p,removed)=removeConflict tx found (p,removed) := by
  cases found with
  | none => rfl
  | some h => exact if_pos (hfound h rfl)

theorem Sound.followConflictsIn (hp : Sound api pegscc view p) (tx : PoolTx) (l : List COutPoint)
    (removed : List PoolTx) :
    followConflictsIn tx l (p,removed)=removeConflictsIn tx l (p,removed) := by
  induction l generalizing p removed with
  | nil => rfl
  | cons o l ih =>
    obtain ⟨q,removed',hq,hpq⟩ :=
      removeConflict_returns tx ((p.mapNextTx o).map CInPoint.ptx) p removed
    rw [CTxMemPool.followConflictsIn,removeConflictsIn,followConflict_eq,hq]
    · exact ih (hp.removes hpq) removed'
    · intro h hh
      obtain ⟨c,hc,rfl⟩ := Option.map_eq_some_iff.mp hh
      obtain ⟨f,hf,hmem⟩ := (hp.next _ _).mp hc
      rw [(mem_inPoints.mp hmem).1]
      exact exists_of_mem hf

theorem Sound.followConflictsShielded (hp : Sound api pegscc view p) (tx : PoolTx)
    (l : List Uint256) (removed : List PoolTx) :
    followConflictsShielded tx l (p,removed)=removeConflictsShielded tx l (p,removed) := by
  induction l generalizing p removed with
  | nil => rfl
  | cons nf l ih =>
    obtain ⟨q,removed',hq,hpq⟩ := removeConflict_returns tx (p.mapSaplingNullifiers nf) p removed
    rw [CTxMemPool.followConflictsShielded,removeConflictsShielded,followConflict_eq,hq]
    · exact ih (hp.removes hpq) removed'
    · intro h hh
      obtain ⟨f,hf,hmem⟩ := (hp.nullifiers _ _).mp hh
      rw [(mem_nullifierParts.mp hmem).1]
      exact exists_of_mem hf

theorem Sound.followConflicts (hp : Sound api pegscc view p) (tx : PoolTx)
    (removed : List PoolTx) : p.followConflicts tx removed=p.removeConflicts tx removed := by
  obtain ⟨q,removed',hq,hpq⟩ := removeConflictsIn_returns tx tx.outpoints p removed
  rw [CTxMemPool.followConflicts,removeConflicts,hp.followConflictsIn,hq]
  exact (hp.removes hpq).followConflictsShielded tx tx.nullifiers removed'

/-- Before a `clear` no pointer leads to a transaction that is gone. -/
theorem Sound.followForBlock (hp : Sound api pegscc view p) (vtx conflicts : List PoolTx) :
    followForBlock vtx (p,conflicts)=removeForBlock vtx (p,conflicts) := by
  induction vtx generalizing p conflicts with
  | nil => rfl
  | cons tx vtx ih =>
    obtain ⟨q,removed,hq,hpq⟩ := p.remove_returns tx false []
    obtain ⟨r,conflicts',hr,hqr⟩ := q.removeConflicts_returns tx conflicts
    rw [CTxMemPool.followForBlock,removeForBlock,hq]
    dsimp only
    rw [(hp.removes hpq).followConflicts,hr]
    exact ih ((hp.removes hpq).removes hqr) conflicts'

theorem Sound.drain_eq (hp : Sound api pegscc view p) : p.drain=some p.drainRecentlyAdded := by
  refine if_pos (List.all_eq_true.mpr ?_)
  intro h hh
  obtain ⟨e,he,rfl⟩ := hp.recent h hh
  exact exists_of_mem he

end Follow

/-- What `clear` leaves is empty already. -/
structure NothingLeft (p : CTxMemPool) : Prop where
  nullifiers : ∀nf,p.mapSaplingNullifiers nf=none
  recent : p.mapRecentlyAddedTx=[]
  sequence : p.nRecentlyAddedSequence=0
  address : ∀k,p.mapAddress k=none
  spent : ∀o,p.mapSpent o=none

theorem NothingLeft.bare_clear (h : NothingLeft p) : bare p.clear=empty := by
  have hnullifiers : p.mapSaplingNullifiers=fun _ => none := funext h.nullifiers
  have haddress : p.mapAddress=fun _ => none := funext h.address
  have hspent : p.mapSpent=fun _ => none := funext h.spent
  rw [bare,clear,empty,hnullifiers,h.recent,h.sequence,haddress,hspent]

end CTxMemPool

open CTxMemPool

/-- A pool that was cleared cannot be told from a new one exactly if there was nothing in
what `clear` leaves. -/
theorem clear_is_new (pegscc : Bool) (base : BaseView) (p : CTxMemPool) :
    (∀calls,answers (poolCall pegscc base) calls p.clear=
      answers (poolCall pegscc base) calls CTxMemPool.empty) ↔ NothingLeft p := by
  constructor
  · intro hall
    have hhead : ∀c q a r b,poolCall pegscc base p.clear c=some (q,a) →
        poolCall pegscc base CTxMemPool.empty c=some (r,b) → a=b := by
      intro c q a r b ha hb
      have hlist := hall [c]
      rw [answers,answers,ha,hb] at hlist
      exact Option.some.inj (List.cons.inj hlist).1
    have hrecent : p.mapRecentlyAddedTx=[] := by
      cases hp : p.mapRecentlyAddedTx with
      | nil => rfl
      | cons h l =>
        have hfails : poolCall pegscc base p.clear .drainRecentlyAdded=none := by
          change (if p.mapRecentlyAddedTx.all p.clear.exists=true then _ else none).map _=none
          rw [hp]
          rfl
        have hlist := hall [.drainRecentlyAdded]
        rw [answers,hfails] at hlist
        exact absurd (List.cons.inj hlist).1.symm (Option.some_ne_none _)
    refine ⟨?_,hrecent,?_,?_,?_⟩
    · intro nf
      have hflag : (p.mapSaplingNullifiers nf).isSome=false :=
        PoolAnswer.flag.inj (hhead (.nullifierExists nf) _ _ _ _ rfl rfl)
      rwa [Option.isSome_eq_false_iff,Option.isNone_iff_eq_none] at hflag
    · have hdrain : poolCall pegscc base p.clear .drainRecentlyAdded=
          some ({p.clear with mapRecentlyAddedTx := []},.recent [] p.nRecentlyAddedSequence) := by
        change (if p.mapRecentlyAddedTx.all p.clear.exists=true then
          some (_,p.mapRecentlyAddedTx.filterMap _,_) else none).map _=_
        rw [hrecent]
        rfl
      exact (PoolAnswer.recent.inj (hhead .drainRecentlyAdded _ _ _ _ hdrain rfl)).2
    · intro k
      have hdeltas := PoolAnswer.deltas.inj
        (hhead (.getAddressIndex [(k.addressBytes,k.type)]) _ _ _ _ rfl rfl)
      have hk : (if k.addressBytes=k.addressBytes ∧ k.type=k.type then p.mapAddress k else none)=
          if k.addressBytes=k.addressBytes ∧ k.type=k.type then none else none :=
        congrFun (List.cons.inj hdeltas).1 k
      rwa [if_pos ⟨rfl,rfl⟩,if_pos ⟨rfl,rfl⟩] at hk
    · intro o
      exact PoolAnswer.spent.inj (hhead (.getSpentIndex o) _ _ _ _ rfl rfl)
  · intro h calls
    have hfree : IndexFree p.clear := ⟨h.address,h.spent⟩
    rw [← h.bare_clear]
    exact (answers_image (fun s c hs => (poolCall_bare pegscc base hs c).1)
      (fun s c t a hs => (poolCall_bare pegscc base hs c).2 t a) calls hfree).symm


/-- A transaction with one shielded spend. -/
def shieldedTx : PoolTx := {spendTx 1 [] with vShieldedSpend := [⟨3,9⟩]}

/-- The nullifier of a transaction that was cleared away stays. -/
theorem nullifier_stays : ∃p,
    run (poolStep plainApi false oneOutput) [.addUnchecked (poolEntry shieldedTx)]
      CTxMemPool.empty=some p ∧
    Fresh false CTxMemPool.empty shieldedTx ∧
    ¬∀calls,answers (poolCall false ⟨fun _ => false,fun _ => none,fun _ => false⟩) calls p.clear=
      answers (poolCall false ⟨fun _ => false,fun _ => none,fun _ => false⟩) calls
        CTxMemPool.empty := by
  refine ⟨_,rfl,⟨rfl,by decide +kernel,fun e he => by cases he⟩,?_⟩
  intro hall
  have hlist := hall [.nullifierExists 9]
  have hflag : ((CTxMemPool.empty.addUnchecked false
      (poolEntry shieldedTx)).mapSaplingNullifiers 9).isSome=false :=
    PoolAnswer.flag.inj (Option.some.inj (List.cons.inj hlist).1)
  revert hflag
  decide +kernel

end Zdeex.Mempool
