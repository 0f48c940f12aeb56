import Zdeex.Mempool.Removal

namespace Zdeex.Mempool

open Zdeex.Framework Zdeex.Block Zdeex.Coins

variable {D : Type} {api : ScriptApi D} {pegscc : Bool} {view : COutPoint → Option CTxOut}

open CTxMemPool

/-- The calls of `ConnectTip` for the blocks that are connected. -/
def connectBlocks : List (List PoolTx × Nat) → CTxMemPool → Option CTxMemPool
  | [],p => some p
  | (vtx,nBlockHeight)::blocks,p =>
      match CTxMemPool.removeForBlock vtx (p,[]) with
      | none => none
      | some (q,_) =>
          match q.removeExpired nBlockHeight with
          | none => none
          | some (r,_) => connectBlocks blocks r

/-- The maintenance of a tip change in `ActivateBestChainStep`. -/
def maintain (fBlocksDisconnected : Bool) (blocks : List (List PoolTx × Nat)) (c : ChainTip)
    (nMemPoolBranchId : Nat) (p : CTxMemPool) : Option CTxMemPool :=
  match connectBlocks blocks p with
  | none => none
  | some p =>
      match if fBlocksDisconnected then p.removeForReorg c else some p with
      | none => none
      | some p => p.removeWithoutBranchId nMemPoolBranchId

namespace ChainTip

variable (c : ChainTip)

def immature (coins : CCoins) : Prop := c.nMemPoolHeight-coins.nHeight<c.COINBASE_MATURITY

/-- As `CheckTxInputs` has it. -/
def timeLocked (coins : CCoins) : Prop :=
  c.ASSETCHAINS_TIMELOCKGTE≤((coins.vout.map CTxOut.nValue).sum.bmod (2^64))%2^64 ∧
    c.nMemPoolHeight<c.blockUnlockTime coins.nHeight

/-- No input spends a coinbase of the view that is immature or still locked. -/
def CoinbasesSpendable (tx : PoolTx) : Prop :=
  ∀o∈tx.outpoints,∀coins,c.accessCoins o.hash=some coins → coins.fCoinBase=true →
    ¬c.immature coins ∧ ¬c.timeLocked coins

end ChainTip

/-- The transaction could be in the next block. -/
structure Minable (c : ChainTip) (nMemPoolBranchId : Nat) (e : CTxMemPoolEntry) : Prop where
  unexpired : isExpiredTx e.tx (c.nMemPoolHeight-1)=false
  final : c.checkFinalTx e.tx=true
  branch : e.nBranchId=nMemPoolBranchId
  coinbases : c.CoinbasesSpendable e.tx

/-- The entries that one of the passes after the blocks picks. -/
def Picked (fBlocksDisconnected : Bool) (c : ChainTip) (nMemPoolBranchId : Nat) (p : CTxMemPool)
    (e : CTxMemPoolEntry) : Prop :=
  (fBlocksDisconnected=true ∧ p.failsReorg c e=true) ∨ e.nBranchId≠nMemPoolBranchId

section Before

variable (pegscc : Bool) (p : CTxMemPool) (blocks : List (List PoolTx × Nat)) (c : ChainTip)
  (fBlocksDisconnected : Bool) (nMemPoolBranchId : Nat)

def minedIds : List Uint256 := blocks.flatMap fun block => block.1.map fun tx => tx.hash

/-- The pool before the tip change without the transactions of the blocks. -/
def unmined : List CTxMemPoolEntry := p.mapTx.filter fun e => e.tx.hash∉minedIds blocks

def ConflictsWith (e : CTxMemPoolEntry) : Prop := ∃block∈blocks,∃tx∈block.1,Conflicts pegscc tx e

/-- The blocks connect: none of their transactions descends from one that conflicts with them. -/
def Connects : Prop :=
  ∀e∈p.mapTx,e.tx.hash∈minedIds blocks → ¬Falls pegscc p.mapTx (ConflictsWith pegscc blocks) e

/-- The entry is not in the blocks, and neither conflicts with them nor descends from one that
does. -/
def LeftBy (e : CTxMemPoolEntry) : Prop :=
  e∈unmined p blocks ∧ ¬Falls pegscc (unmined p blocks) (ConflictsWith pegscc blocks) e

/-- After a reorganisation the entry is not final, or it spends a coinbase and has an input of no
transaction that is left, whose coins are missing or are an immature and locked coinbase. -/
def LostByReorg (e : CTxMemPoolEntry) : Prop :=
  c.checkFinalTx e.tx=false ∨ (e.spendsCoinbase=true ∧ ∃o∈e.tx.outpoints,
    (∀f,LeftBy pegscc p blocks f → f.tx.hash≠o.hash) ∧
      c.evictsCoins (c.accessCoins o.hash)=true)

/-- What the tip change takes out besides the transactions of the blocks and what descends from
those that it takes out. -/
def TakenOut (e : CTxMemPoolEntry) : Prop :=
  ConflictsWith pegscc blocks e ∨
    (fBlocksDisconnected=true ∧ LostByReorg pegscc p blocks c e) ∨ e.nBranchId≠nMemPoolBranchId

end Before

/-- What no pass makes sure of holds. -/
structure PassesUntested (fBlocksDisconnected : Bool) (c : ChainTip) (e : CTxMemPoolEntry) :
    Prop where
  unexpired : isExpiredTx e.tx (c.nMemPoolHeight-1)=false
  final : fBlocksDisconnected=false → c.checkFinalTx e.tx=true
  coinbases : c.CoinbasesSpendable e.tx

theorem connectBlocks_returns (blocks : List (List PoolTx × Nat)) {p : CTxMemPool}
    (hp : Sound api pegscc view p) :
    ∃q,connectBlocks blocks p=some q ∧ Sound api pegscc view q := by
  induction blocks generalizing p with
  | nil => exact ⟨p,rfl,hp⟩
  | cons block blocks ih =>
    obtain ⟨vtx,nBlockHeight⟩ := block
    obtain ⟨q,conflicts,hq,hpq⟩ := removeForBlock_returns vtx p []
    obtain ⟨r,hr,hsound⟩ := ih (hp.removes hpq)
    refine ⟨r,?_,hsound⟩
    rw [connectBlocks,hq]
    exact hr

/-- The passes after the blocks leave the entries that are not picked and do not descend
from one that is. -/
theorem maintain_falls (fBlocksDisconnected : Bool) {blocks : List (List PoolTx × Nat)}
    (c : ChainTip) (nMemPoolBranchId : Nat) {p q : CTxMemPool} (hq : Sound api pegscc view q)
    (hblocks : connectBlocks blocks p=some q) :
    ∃r,maintain fBlocksDisconnected blocks c nMemPoolBranchId p=some r ∧
      ∀e,e∈r.mapTx ↔ e∈q.mapTx ∧
        ¬Falls pegscc q.mapTx (Picked fBlocksDisconnected c nMemPoolBranchId q) e := by
  obtain ⟨u,hu,hqu⟩ : ∃u,(if fBlocksDisconnected=true then q.removeForReorg c else some q)=some u ∧
      Removes q u := by
    split_ifs
    · exact removeAll_returns _ q
    · exact ⟨q,rfl,.refl q⟩
  obtain ⟨r,hr,-⟩ : ∃r,u.removeWithoutBranchId nMemPoolBranchId=some r ∧ Removes u r :=
    removeAll_returns _ u
  refine ⟨r,?_,?_⟩
  · rw [maintain,hblocks]
    dsimp only
    rw [hu]
    exact hr
  · have hfirst : ∀e,e∈u.mapTx ↔ e∈q.mapTx ∧ ¬Falls pegscc q.mapTx
        (fun e => fBlocksDisconnected=true ∧ q.failsReorg c e=true) e := by
      intro e
      cases fBlocksDisconnected with
      | false =>
        obtain rfl := Option.some.inj hu
        refine ⟨fun he => ⟨he,falls_none ?_⟩,And.left⟩
        rintro f _ ⟨hno,-⟩
        cases hno
      | true =>
        rw [removeAll_picked hq (fun e => q.failsReorg c e) hu e,falls_congr]
        intro f _
        exact ⟨fun h => ⟨rfl,h⟩,And.right⟩
    intro e
    have hlast := removeAll_picked (hq.removes hqu) (fun e => e.nBranchId≠nMemPoolBranchId) hr e
    rw [hlast,hfirst e]
    constructor
    · rintro ⟨hin,hno⟩
      refine ⟨hin.1,?_⟩
      intro h
      rcases falls_or.mp h with hreorg | hbranch
      · exact hin.2 hreorg
      · apply hno
        have hkept := (falls_rest (S := fun e => e.nBranchId≠nMemPoolBranchId) hfirst
          ((hfirst e).mpr hin)).mpr hbranch
        exact (falls_congr (fun f _ => by simp)).mp hkept
    · rintro ⟨he,hno⟩
      have hin := (⟨he,fun h => hno (falls_or.mpr (.inl h))⟩ : e∈q.mapTx ∧ _)
      refine ⟨hin,?_⟩
      intro h
      apply hno
      apply falls_or.mpr
      refine .inr ((falls_rest hfirst ((hfirst e).mpr hin)).mp ?_)
      exact (falls_congr (fun f _ => by simp)).mp h

/-- The blocks take their transactions, and those that conflict with them. -/
theorem connectBlocks_swept {pool : List CTxMemPoolEntry} {mined : List Uint256}
    {C : CTxMemPoolEntry → Prop} (blocks : List (List PoolTx × Nat)) {p q : CTxMemPool}
    (h : Swept pegscc pool mined C p) (hp : Sound api pegscc view p)
    (hrun : connectBlocks blocks p=some q) : Swept pegscc pool (mined++minedIds blocks)
      (fun e => C e ∨ ConflictsWith pegscc blocks e) q := by
  induction blocks generalizing p mined C with
  | nil =>
    obtain rfl := Option.some.inj hrun
    simpa [minedIds,ConflictsWith] using h
  | cons block blocks ih =>
    obtain ⟨vtx,nBlockHeight⟩ := block
    obtain ⟨r,conflicts,hr,hpr⟩ := removeForBlock_returns vtx p []
    rw [connectBlocks,hr] at hrun
    have hrest := ih (h.mine hp hr) (hp.removes hpr) hrun
    convert hrest using 1
    · rw [minedIds,List.flatMap_cons,← List.append_assoc]
      rfl
    · funext e
      unfold ConflictsWith
      rw [List.exists_mem_cons_iff,or_assoc]

/-- Blocks that connect leave exactly the entries that they do not take or that descend from none
they take. -/
theorem connectBlocks_leaves {blocks : List (List PoolTx × Nat)} {p q : CTxMemPool}
    (hp : Sound api pegscc view p) (hconnect : Connects pegscc p blocks)
    (hrun : connectBlocks blocks p=some q) (e : CTxMemPoolEntry) :
    e∈q.mapTx ↔ LeftBy pegscc p blocks e := by
  have hswept := connectBlocks_swept blocks (@swept_start pegscc p) hp hrun
  simp only [List.nil_append,false_or] at hswept
  have hunmined : e∈unmined p blocks ↔ e∈p.mapTx ∧ e.tx.hash∉minedIds blocks := by
    rw [unmined,List.mem_filter,decide_eq_true_iff]
  unfold LeftBy
  rw [hunmined,hswept.exact hconnect e,and_assoc]
  refine and_congr_right fun _ => and_congr_right fun _ => not_congr ⟨falls_filter hconnect,?_⟩
  exact fun hfall => hfall.mono (fun f hf => (List.mem_filter.mp hf).1)
    fun f hf hC => .root (List.mem_filter.mp hf).1 hC

/-- The test of `removeForReorg` in terms of the pool before. -/
theorem failsReorg_iff {blocks : List (List PoolTx × Nat)} {p q : CTxMemPool} {c : ChainTip}
    (hleft : ∀e,e∈q.mapTx ↔ LeftBy pegscc p blocks e) (e : CTxMemPoolEntry) :
    q.failsReorg c e=true ↔ LostByReorg pegscc p blocks c e := by
  have hfind : ∀h,(q.find h).isNone=true ↔ ∀f,LeftBy pegscc p blocks f → f.tx.hash≠h := by
    intro h
    rw [Option.isNone_iff_eq_none]
    constructor
    · exact fun hnone f hf => find_none hnone f ((hleft f).mpr hf)
    · intro hall
      cases hfound : q.find h with
      | none => rfl
      | some f =>
        obtain ⟨hf,hhash⟩ := find_some hfound
        exact absurd hhash (hall f ((hleft f).mp hf))
  unfold failsReorg LostByReorg
  by_cases hfinal : c.checkFinalTx e.tx=true
  · simp [hfinal,← hfind]
  · simp [hfinal]

/-- What is in the pool after a tip change. -/
theorem maintain_leaves (fBlocksDisconnected : Bool) {blocks : List (List PoolTx × Nat)}
    (c : ChainTip) (nMemPoolBranchId : Nat) {p : CTxMemPool} (hp : Sound api pegscc view p)
    (hconnect : Connects pegscc p blocks) :
    ∃r,maintain fBlocksDisconnected blocks c nMemPoolBranchId p=some r ∧
      ∀e,e∈r.mapTx ↔ e∈unmined p blocks ∧ ¬Falls pegscc (unmined p blocks)
        (TakenOut pegscc p blocks c fBlocksDisconnected nMemPoolBranchId) e := by
  obtain ⟨q,hq,hsound⟩ := connectBlocks_returns blocks hp
  obtain ⟨r,hr,hlast⟩ := maintain_falls fBlocksDisconnected c nMemPoolBranchId hsound hq
  have hleft := connectBlocks_leaves hp hconnect hq
  refine ⟨r,hr,fun e => ?_⟩
  rw [falls_after hleft hlast e]
  refine and_congr_right fun _ => not_congr (falls_congr fun f _ => ?_)
  rw [Picked,failsReorg_iff hleft]
  rfl

/-- After a tip change every transaction of the pool could be mined next exactly if this holds, of
what no pass tests, for those of the pool before that neither are in the blocks nor are taken out
nor descend from one that is. -/
theorem maintained_pool (api : ScriptApi D) (pegscc : Bool) (view : COutPoint → Option CTxOut)
    (ops : List PoolOp) (p : CTxMemPool)
    (hops : Guarded (poolStep api pegscc view) (Admitted api pegscc view) ops CTxMemPool.empty)
    (hrun : run (poolStep api pegscc view) ops CTxMemPool.empty=some p)
    (fBlocksDisconnected : Bool) (blocks : List (List PoolTx × Nat)) (c : ChainTip)
    (nMemPoolBranchId : Nat) (hconnect : Connects pegscc p blocks) :
    ∃r,maintain fBlocksDisconnected blocks c nMemPoolBranchId p=some r ∧
      ((∀e∈r.mapTx,Minable c nMemPoolBranchId e) ↔
        ∀e∈unmined p blocks,¬Falls pegscc (unmined p blocks)
            (TakenOut pegscc p blocks c fBlocksDisconnected nMemPoolBranchId) e →
          PassesUntested fBlocksDisconnected c e) := by
  have hp := reachable_sound hops hrun
  obtain ⟨r,hr,hleft⟩ := maintain_leaves fBlocksDisconnected c nMemPoolBranchId hp hconnect
  refine ⟨r,hr,?_⟩
  constructor
  · intro hall e he hno
    have hm := hall e ((hleft e).mpr ⟨he,hno⟩)
    exact ⟨hm.unexpired,fun _ => hm.final,hm.coinbases⟩
  · intro hall e her
    obtain ⟨he,hno⟩ := (hleft e).mp her
    have ho := hall e he hno
    have hstays : ¬TakenOut pegscc p blocks c fBlocksDisconnected nMemPoolBranchId e :=
      fun h => hno (.root he h)
    rw [TakenOut,not_or,not_or,not_not] at hstays
    refine ⟨ho.unexpired,?_,hstays.2.2,ho.coinbases⟩
    cases hdisc : fBlocksDisconnected with
    | false => exact ho.final hdisc
    | true =>
      by_contra hfinal
      exact hstays.2.1 ⟨hdisc,.inl (by simpa using hfinal)⟩

/-- The tip is at height 10, without coins. -/
def tipAtTen : ChainTip :=
  ⟨11,1600000000,true,fun _ => none,100,fun _ => 0,2^64-1⟩

/-- A transaction that can be mined up to height 5. -/
def shortLived : PoolTx := {spendTx 1 [⟨8,0⟩] with nExpiryHeight := 5}

/-- The block of height 10 is connected and `removeExpired` has run, but the pool keeps
a transaction that has expired. -/
theorem expired_stays : ∃p r,
    run (poolStep plainApi false oneOutput) [.addUnchecked (poolEntry shortLived)]
      CTxMemPool.empty=some p ∧
    maintain false [([],10)] tipAtTen 0 p=some r ∧ ¬∀e∈r.mapTx,Minable tipAtTen 0 e := by
  refine ⟨_,_,rfl,rfl,?_⟩
  intro hall
  have hm := hall (poolEntry shortLived) (List.mem_singleton_self _)
  have hexpired : isExpiredTx (poolEntry shortLived).tx (tipAtTen.nMemPoolHeight-1)=true := by
    decide +kernel
  rw [hm.unexpired] at hexpired
  cases hexpired

/-- A transaction without an expiry height, which the connected block leaves in the pool. -/
theorem unexpiring_maintained : ∃r,
    maintain true [([],10)] tipAtTen 0
      (CTxMemPool.empty.addUnchecked false (poolEntry (spendTx 1 [⟨8,0⟩])))=some r ∧
    ∀e∈r.mapTx,Minable tipAtTen 0 e := by
  obtain ⟨r,hr,hiff⟩ := maintained_pool plainApi false oneOutput
    [.addUnchecked (poolEntry (spendTx 1 [⟨8,0⟩]))] _
    ⟨⟨rfl,by decide +kernel,fun e he => by cases he⟩,fun _ _ => trivial⟩ rfl true [([],10)]
    tipAtTen 0 (fun _ _ hmined => by cases hmined)
  refine ⟨r,hr,hiff.mpr ?_⟩
  intro e he _
  have hsingle : e=poolEntry (spendTx 1 [⟨8,0⟩]) :=
    List.mem_singleton.mp (List.mem_of_mem_filter he)
  rw [hsingle]
  refine ⟨by decide +kernel,(fun hno => by cases hno),?_⟩
  intro o _ coins hcoins
  cases hcoins

end Zdeex.Mempool
