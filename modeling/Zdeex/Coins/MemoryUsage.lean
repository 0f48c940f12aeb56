import Mathlib.Data.BitVec
import Mathlib.Tactic.Abel
import Zdeex.Coins.Frame
import Zdeex.Coins.Db
import Zdeex.Merkle.IncrementalMerkleTree

namespace Zdeex.Coins

open Zdeex.Framework
open LayerStack (base layer)

section Accounting

variable {σ Tree : Type} (E : TreeEnv Tree) (B : BaseOps σ Tree)

/-- What the coins and the Sapling trees held by a cache take. -/
def CCoinsViewCache.heldUsage (c : CCoinsViewCache Tree) : ℕ :=
  KeyMap.total (fun e => (E.coinsUsage e.coins).toNat) c.cacheCoins+
    KeyMap.total (fun e => (E.treeUsage e.tree).toNat) c.cacheSaplingAnchors

/-- The counter is the sum, in the width of `size_t`; as long as the sum fits, no coins
of the cache can take it below zero. -/
structure CCoinsViewCache.Accounted (c : CCoinsViewCache Tree) : Prop where
  counter : c.cachedCoinsUsage=BitVec.ofNat 64 (c.heldUsage E)
  covers : c.heldUsage E<2^64 → ∀txid e,c.cacheCoins.lookup txid=some e →
    E.coinsUsage e.coins ≤ c.cachedCoinsUsage

/-- The entry that the outermost cache holds for a root. -/
def cachedAnchor : CoinsView σ Tree → Uint256 → Option (CAnchorsSaplingCacheEntry Tree)
  | .base _,_ => none
  | .layer c _,rt => c.cacheSaplingAnchors.lookup rt

/-- What a push must meet: it makes no entry, a new one, or one in the place of a tree
that takes as much memory. -/
def Accountable (v : CoinsView σ Tree) : Op Tree → Prop
  | .pushAnchor tree => (getBestAnchor B .sapling v).1=E.root tree ∨
      ∀e,cachedAnchor v (E.root tree)=some e → E.treeUsage e.tree=E.treeUsage tree
  | _ => True

variable {E}

/-- The sum inside the arithmetic of `size_t`. -/
theorem CCoinsViewCache.heldUsage_cast (c : CCoinsViewCache Tree) :
    BitVec.ofNat 64 (c.heldUsage E)=
      KeyMap.total (fun e => E.coinsUsage e.coins) c.cacheCoins+
        KeyMap.total (fun e => E.treeUsage e.tree) c.cacheSaplingAnchors := by
  have hcast : ∀n : ℕ,BitVec.ofNat 64 n=Nat.castAddMonoidHom (BitVec 64) n := fun n => rfl
  have hself : ∀x : BitVec 64,Nat.castAddMonoidHom (BitVec 64) x.toNat=x :=
    fun x => by simp [← hcast]
  rw [hcast,heldUsage,map_add,KeyMap.map_total,KeyMap.map_total]
  simp only [hself]

theorem CCoinsViewCache.accounted_iff {c : CCoinsViewCache Tree} :
    c.Accounted E ↔ c.cachedCoinsUsage=
      KeyMap.total (fun e => E.coinsUsage e.coins) c.cacheCoins+
        KeyMap.total (fun e => E.treeUsage e.tree) c.cacheSaplingAnchors := by
  rw [← c.heldUsage_cast]
  refine ⟨Accounted.counter,fun h => ⟨h,fun hfits txid e he => ?_⟩⟩
  rw [h,BitVec.le_def,BitVec.toNat_ofNat,Nat.mod_eq_of_lt hfits]
  have hle := KeyMap.le_total (f := fun e : CCoinsCacheEntry => (E.coinsUsage e.coins).toNat) he
  exact hle.trans (Nat.le_add_right _ _)

theorem CCoinsViewCache.accounted_new : (CCoinsViewCache.new : CCoinsViewCache Tree).Accounted E :=
  accounted_iff.mpr rfl

/-- The fields that the accounting is about. -/
def CCoinsViewCache.accounts (c : CCoinsViewCache Tree) :
    CCoinsMap × CAnchorsSaplingMap Tree × BitVec 64 :=
  (c.cacheCoins,c.cacheSaplingAnchors,c.cachedCoinsUsage)

theorem CCoinsViewCache.Accounted.of_accounts {c c' : CCoinsViewCache Tree} (h : c.Accounted E)
    (hc : c'.accounts=c.accounts) : c'.Accounted E := by
  simp only [accounts,Prod.mk.injEq] at hc
  rw [accounted_iff,hc.1,hc.2.1,hc.2.2]
  exact accounted_iff.mp h

theorem all_of_accounts {v v' : CoinsView σ Tree} (h : v.All (CCoinsViewCache.Accounted E))
    (hv : v'.map CCoinsViewCache.accounts=v.map CCoinsViewCache.accounts) :
    v'.All (CCoinsViewCache.Accounted E) := by
  induction v generalizing v' with
  | base s =>
    cases v' with
    | base s' => trivial
    | layer c' v' => cases hv
  | layer c v ih =>
    cases v' with
    | base s' => trivial
    | layer c' v' =>
      obtain ⟨hc,hbelow⟩ := LayerStack.layer.inj hv
      exact ⟨h.1.of_accounts hc,ih h.2 hbelow⟩

/-- One entry of coins is written: the counter must move by what it took and takes. -/
theorem CCoinsViewCache.accounted_putCoins {c : CCoinsViewCache Tree} (h : c.Accounted E)
    (txid : Uint256) (o : Option CCoinsCacheEntry) (u : BitVec 64) :
    ({c with cacheCoins := c.cacheCoins.put txid o,cachedCoinsUsage := u} :
      CCoinsViewCache Tree).Accounted E ↔
      u+(c.cacheCoins.lookup txid).elim 0 (fun e => E.coinsUsage e.coins)=
        c.cachedCoinsUsage+o.elim 0 (fun e => E.coinsUsage e.coins) := by
  have hput := KeyMap.total_put (fun e => E.coinsUsage e.coins) c.cacheCoins txid o
  rw [accounted_iff,accounted_iff.mp h]
  dsimp only
  rw [eq_comm,← add_left_inj ((c.cacheCoins.lookup txid).elim 0 fun e => E.coinsUsage e.coins),
    add_right_comm,hput,eq_comm,add_right_comm]

/-- The same for a Sapling tree. -/
theorem CCoinsViewCache.accounted_putAnchor {c : CCoinsViewCache Tree} (h : c.Accounted E)
    (rt : Uint256) (o : Option (CAnchorsSaplingCacheEntry Tree)) (u : BitVec 64) :
    ({c with cacheSaplingAnchors := c.cacheSaplingAnchors.put rt o,cachedCoinsUsage := u} :
      CCoinsViewCache Tree).Accounted E ↔
      u+(c.cacheSaplingAnchors.lookup rt).elim 0 (fun e => E.treeUsage e.tree)=
        c.cachedCoinsUsage+o.elim 0 (fun e => E.treeUsage e.tree) := by
  have hput := KeyMap.total_put (fun e => E.treeUsage e.tree) c.cacheSaplingAnchors rt o
  rw [accounted_iff,accounted_iff.mp h]
  dsimp only
  rw [eq_comm,
    ← add_left_inj ((c.cacheSaplingAnchors.lookup rt).elim 0 fun e => E.treeUsage e.tree),
    add_assoc,hput,eq_comm,add_assoc]

theorem CCoinsViewCache.Accounted.insertFetched {c : CCoinsViewCache Tree} (h : c.Accounted E)
    {txid : Uint256} (hl : c.cacheCoins.lookup txid=none) (tmp : CCoins) :
    (c.insertFetched E txid tmp).Accounted E := by
  refine (accounted_putCoins h txid (some ⟨tmp,false,tmp.isPruned⟩) _).mpr ?_
  rw [hl]
  exact add_zero _

theorem CCoinsViewCache.Accounted.release {c : CCoinsViewCache Tree} (h : c.Accounted E)
    {m : CCoinsModifier} {txid : Uint256} (coins : CCoins)
    (hm : m.cachedCoinUsage=(c.cacheCoins.lookup txid).elim 0 (fun e => E.coinsUsage e.coins)) :
    (m.release E c txid coins).Accounted E := by
  unfold CCoinsModifier.release
  dsimp only
  split_ifs
  · refine (accounted_putCoins h txid none _).mpr ?_
    rw [← hm]
    exact (sub_add_cancel _ _).trans (add_zero _).symm
  · refine (accounted_putCoins h txid (some {m.entry with coins := coins.cleanup}) _).mpr ?_
    rw [← hm,add_right_comm,sub_add_cancel]
    rfl

theorem all_updateTop {f : CCoinsViewCache Tree → CCoinsViewCache Tree}
    (hf : ∀c,c.Accounted E → (f c).Accounted E) {v : CoinsView σ Tree}
    (h : v.All (CCoinsViewCache.Accounted E)) :
    (updateTop f v).All (CCoinsViewCache.Accounted E) := by
  cases v with
  | base s => exact h
  | layer c v => exact ⟨hf c h.1,h.2⟩

theorem all_getCoins {v : CoinsView σ Tree} (h : v.All (CCoinsViewCache.Accounted E))
    (txid : Uint256) : (getCoins E B v txid).2.All (CCoinsViewCache.Accounted E) := by
  induction v with
  | base s => exact h
  | layer c v ih =>
    have hbelow := ih h.2
    cases hl : c.cacheCoins.lookup txid with
    | some e => simpa only [getCoins,hl] using h
    | none =>
      cases hr : getCoins E B v txid with
      | mk x v' =>
        rw [hr] at hbelow
        cases x with
        | none =>
          simp only [getCoins,hl,hr]
          exact ⟨h.1,hbelow⟩
        | some tmp =>
          simp only [getCoins,hl,hr]
          exact ⟨h.1.insertFetched hl tmp,hbelow⟩

theorem modifyCoins_usage (c : CCoinsViewCache Tree) (v : CoinsView σ Tree) (txid : Uint256) :
    (modifyCoins E B c v txid).1.cachedCoinUsage=
      (c.cacheCoins.lookup txid).elim 0 (fun e => E.coinsUsage e.coins) := by
  cases hl : c.cacheCoins.lookup txid with
  | some e => simp only [modifyCoins,hl,Option.elim_some]
  | none =>
    cases hr : getCoins E B v txid with
    | mk x v' => cases x <;> simp only [modifyCoins,hl,hr,Option.elim_none]

theorem all_modifyCoins (c : CCoinsViewCache Tree) {v : CoinsView σ Tree}
    (h : v.All (CCoinsViewCache.Accounted E)) (txid : Uint256) :
    (modifyCoins E B c v txid).2.All (CCoinsViewCache.Accounted E) := by
  have hbelow := all_getCoins B h txid
  cases hl : c.cacheCoins.lookup txid with
  | some e => simpa only [modifyCoins,hl] using h
  | none =>
    cases hr : getCoins E B v txid with
    | mk x v' =>
      rw [hr] at hbelow
      cases x <;> simpa only [modifyCoins,hl,hr] using hbelow

theorem all_editCoins {v : CoinsView σ Tree} (h : v.All (CCoinsViewCache.Accounted E))
    (edit : CCoins → CCoins) (txid : Uint256) :
    (editCoins E B edit txid v).All (CCoinsViewCache.Accounted E) := by
  cases v with
  | base s => exact h
  | layer c v =>
    exact ⟨h.1.release _ (modifyCoins_usage B c v txid),all_modifyCoins B c h.2 txid⟩

theorem all_getSaplingAnchorAt {v : CoinsView σ Tree} (h : v.All (CCoinsViewCache.Accounted E))
    (rt : Uint256) : (getSaplingAnchorAt E B v rt).2.All (CCoinsViewCache.Accounted E) := by
  induction v with
  | base s => exact h
  | layer c v ih =>
    have hbelow := ih h.2
    cases hl : c.cacheSaplingAnchors.lookup rt with
    | some e => simpa only [getSaplingAnchorAt,hl] using h
    | none =>
      cases hr : getSaplingAnchorAt E B v rt with
      | mk x v' =>
        rw [hr] at hbelow
        cases x with
        | none =>
          simp only [getSaplingAnchorAt,hl,hr]
          exact ⟨h.1,hbelow⟩
        | some tree =>
          simp only [getSaplingAnchorAt,hl,hr]
          have hput := CCoinsViewCache.accounted_putAnchor h.1 rt (some ⟨true,tree,false⟩)
            (c.cachedCoinsUsage+E.treeUsage tree)
          rw [hl] at hput
          exact ⟨hput.mpr (add_zero _),hbelow⟩

/-- An answer has its entry in the outermost cache. -/
theorem cachedAnchor_isSome {c : CCoinsViewCache Tree} {v : CoinsView σ Tree} {rt : Uint256}
    (h : (getSaplingAnchorAt E B (.layer c v) rt).1.isSome) :
    (cachedAnchor (getSaplingAnchorAt E B (.layer c v) rt).2 rt).isSome := by
  cases hl : c.cacheSaplingAnchors.lookup rt with
  | some e => simp only [getSaplingAnchorAt,hl,cachedAnchor,Option.isSome_some]
  | none =>
    cases hr : getSaplingAnchorAt E B v rt with
    | mk x v' =>
      cases x with
      | none => simp [getSaplingAnchorAt,hl,hr] at h
      | some tree =>
        simp [getSaplingAnchorAt,hl,hr,cachedAnchor]

theorem CCoinsViewCache.Accounted.leaveAnchor {c : CCoinsViewCache Tree} (h : c.Accounted E)
    {rt : Uint256} (newrt : Uint256) (hrt : (c.cacheSaplingAnchors.lookup rt).isSome) :
    (c.leaveAnchor E rt newrt).Accounted E := by
  obtain ⟨e,he⟩ := Option.isSome_iff_exists.mp hrt
  have hput := (accounted_putAnchor h rt (some {e with entered := false,dirty := true}) _).mpr
    (by rw [he]; rfl)
  refine hput.of_accounts ?_
  simp only [CCoinsViewCache.leaveAnchor,he]
  rfl

/-- A push keeps the counter right exactly when the tree it writes over takes as much. -/
theorem CCoinsViewCache.accounted_enterAnchor {c : CCoinsViewCache Tree} (h : c.Accounted E)
    (newrt : Uint256) (tree : Tree) :
    (c.enterAnchor E newrt tree).Accounted E ↔
      ∀e,c.cacheSaplingAnchors.lookup newrt=some e → E.treeUsage e.tree=E.treeUsage tree := by
  cases hl : c.cacheSaplingAnchors.lookup newrt with
  | none =>
    refine iff_of_true ?_ (fun e he => by cases he)
    have hput := (accounted_putAnchor h newrt (some ⟨true,tree,true⟩) _).mpr
      (by rw [hl]; exact add_zero _)
    refine hput.of_accounts ?_
    simp only [CCoinsViewCache.enterAnchor,hl]
    rfl
  | some e =>
    have hput := accounted_putAnchor h newrt (some ⟨true,tree,true⟩) c.cachedCoinsUsage
    rw [hl] at hput
    have henter : (c.enterAnchor E newrt tree).Accounted E ↔
        c.cachedCoinsUsage+E.treeUsage e.tree=c.cachedCoinsUsage+E.treeUsage tree := by
      refine Iff.trans ⟨fun hc => hc.of_accounts ?_,fun hc => hc.of_accounts ?_⟩ hput
      all_goals
        simp only [CCoinsViewCache.enterAnchor,hl]
        rfl
    rw [henter,add_right_inj]
    exact ⟨fun hu e' he' => Option.some.inj he' ▸ hu,fun hu => hu e rfl⟩

theorem mergeCoinsUsage_spec (usage : CCoins → BitVec 64) (k : Uint256) (child : CCoinsCacheEntry)
    (old o : Option CCoinsCacheEntry) (u : BitVec 64) (h : mergeCoins k child old=some o) :
    mergeCoinsUsage usage child old u+old.elim 0 (fun e => usage e.coins)=
      u+o.elim 0 (fun e => usage e.coins) := by
  cases old with
  | none =>
    revert h
    unfold mergeCoins mergeCoinsUsage
    dsimp only
    cases child.dirty <;> cases child.coins.isPruned <;> cases child.fresh
    all_goals
      intro h
      cases h
      try rfl
    exact add_zero _
  | some us =>
    revert h
    unfold mergeCoins mergeCoinsUsage
    dsimp only
    split_ifs <;> intro h
    all_goals obtain rfl := Option.some.inj h
    · exact (sub_add_cancel _ _).trans (add_zero _).symm
    · exact (add_right_comm _ _ _).trans (congrArg (·+_) (sub_add_cancel _ _))
    · rfl

theorem mergeAnchorUsage_spec (usage : Tree → BitVec 64) (k : Uint256)
    (child : CAnchorsSaplingCacheEntry Tree) (old o : Option (CAnchorsSaplingCacheEntry Tree))
    (u : BitVec 64) (h : mergeAnchor k child old=some o) :
    mergeAnchorUsage usage child old u+old.elim 0 (fun e => usage e.tree)=
      u+o.elim 0 (fun e => usage e.tree) := by
  cases old with
  | none =>
    revert h
    unfold mergeAnchor mergeAnchorUsage
    dsimp only
    split_ifs <;> intro h
    all_goals
      obtain rfl := Option.some.inj h
      simp only [Option.elim,add_zero]
  | some us =>
    revert h
    unfold mergeAnchor mergeAnchorUsage
    dsimp only
    split_ifs <;> intro h
    all_goals
      obtain rfl := Option.some.inj h
      rfl

/-- Whatever the child holds, the parent accounts for what it takes over. -/
theorem CCoinsViewCache.Accounted.batchWrite {p c p' : CCoinsViewCache Tree} (h : p.Accounted E)
    (hw : p.batchWrite E c=some p') : p'.Accounted E := by
  unfold CCoinsViewCache.batchWrite at hw
  split at hw
  · cases hw
  · rename_i coins u₁ h₁
    split at hw
    · cases hw
    · rename_i anchors u₂ h₂
      split at hw
      · cases hw
      · obtain rfl := Option.some.inj hw
        have hcoins := KeyMap.mergeLoop_total (mergeCoinsUsage_spec E.coinsUsage) h₁
        have hanchors := KeyMap.mergeLoop_total (mergeAnchorUsage_spec E.treeUsage) h₂
        rw [accounted_iff] at h ⊢
        have hu₁ : u₁=KeyMap.total (fun e => E.coinsUsage e.coins) coins+
            KeyMap.total (fun e => E.treeUsage e.tree) p.cacheSaplingAnchors :=
          add_right_cancel (hcoins.trans (by rw [h]; abel))
        exact add_right_cancel (hanchors.trans (by rw [hu₁]; abel))

theorem all_flush {v v' : CoinsView σ Tree} (h : v.All (CCoinsViewCache.Accounted E))
    (hf : flush E B v=some v') : v'.All (CCoinsViewCache.Accounted E) := by
  cases v with
  | base s =>
    obtain rfl := Option.some.inj hf
    exact h
  | layer c v =>
    obtain ⟨w,hw,rfl⟩ := Option.map_eq_some_iff.mp hf
    refine ⟨CCoinsViewCache.accounted_iff.mpr rfl,?_⟩
    cases v with
    | base s =>
      obtain rfl := Option.some.inj hw
      trivial
    | layer p v =>
      obtain ⟨p',hp',rfl⟩ := Option.map_eq_some_iff.mp hw
      exact ⟨h.2.1.batchWrite hp',h.2.2⟩

theorem all_getBestAnchor {v : CoinsView σ Tree} (h : v.All (CCoinsViewCache.Accounted E))
    (type : ShieldedType) : (getBestAnchor B type v).2.All (CCoinsViewCache.Accounted E) := by
  cases type with
  | sprout => exact all_of_accounts h (map_getBestAnchor_sprout B (fun _ _ => rfl) v)
  | sapling => exact all_of_accounts h (map_getBestAnchor_sapling B (fun _ _ => rfl) v)

theorem all_popAnchor {v v' : CoinsView σ Tree} (h : v.All (CCoinsViewCache.Accounted E))
    {newrt : Uint256} {type : ShieldedType} (hp : popAnchor E B newrt type v=some v') :
    v'.All (CCoinsViewCache.Accounted E) := by
  have hbest := all_getBestAnchor B h type
  unfold popAnchor at hp
  dsimp only at hp
  generalize (getBestAnchor B type v).1=current at hp
  generalize (getBestAnchor B type v).2=w at hp hbest
  split_ifs at hp
  · obtain rfl := Option.some.inj hp
    exact hbest
  · cases type with
    | sprout =>
      obtain rfl := Option.some.inj hp
      refine all_updateTop (fun c hc => ?_) hbest
      exact hc.of_accounts rfl
    | sapling =>
      have hread := all_getSaplingAnchorAt B hbest current
      cases w with
      | base s =>
        dsimp only at hp
        split at hp
        · cases hp
        · obtain rfl := Option.some.inj hp
          trivial
      | layer c w =>
        have hentry : (getSaplingAnchorAt E B (layer c w) current).1.isSome → _ :=
          cachedAnchor_isSome B
        dsimp only at hp
        generalize getSaplingAnchorAt E B (layer c w) current=q at hp hread hentry
        obtain ⟨answer,q⟩ := q
        cases answer with
        | none => cases hp
        | some tree =>
          obtain rfl := Option.some.inj hp
          cases q with
          | base s => trivial
          | layer c' w' => exact ⟨hread.1.leaveAnchor newrt (hentry rfl),hread.2⟩

theorem cachedAnchor_getBestAnchor (v : CoinsView σ Tree) :
    cachedAnchor (getBestAnchor B .sapling v).2=cachedAnchor v := by
  cases v with
  | base s => rfl
  | layer c v =>
    unfold getBestAnchor
    dsimp only
    split_ifs <;> rfl

theorem accountable_pushAnchor_iff {v : CoinsView σ Tree}
    (h : v.All (CCoinsViewCache.Accounted E)) (tree : Tree) :
    Accountable E B v (.pushAnchor tree) ↔
      (pushAnchor E B tree v).All (CCoinsViewCache.Accounted E) := by
  have hbest := all_getBestAnchor B h .sapling
  have hcached := cachedAnchor_getBestAnchor B v
  unfold Accountable pushAnchor
  dsimp only
  rw [← hcached]
  generalize (getBestAnchor B .sapling v).2=w at hbest
  split_ifs with heq
  · exact iff_of_true (.inl heq) hbest
  · rw [or_iff_right heq]
    cases w with
    | base s => exact iff_of_true (fun e he => by cases he) trivial
    | layer c w =>
      exact (CCoinsViewCache.accounted_enterAnchor hbest.1 _ tree).symm.trans
        (and_iff_left hbest.2).symm

/-- Each operation keeps all counters right exactly when it is accountable. -/
theorem accountable_iff {v : CoinsView σ Tree} (h : v.All (CCoinsViewCache.Accounted E))
    (op : Op Tree) : Accountable E B v op ↔
      ∀v',step E B v op=some v' → v'.All (CCoinsViewCache.Accounted E) := by
  cases op with
  | pushAnchor tree =>
    rw [accountable_pushAnchor_iff B h tree]
    exact ⟨fun hp v' hv' => Option.some.inj hv' ▸ hp,fun hp => hp _ rfl⟩
  | getCoins txid =>
    refine iff_of_true trivial fun v' hv' => ?_
    exact Option.some.inj hv' ▸ all_getCoins B h txid
  | accessCoins txid =>
    refine iff_of_true trivial fun v' hv' => ?_
    exact Option.some.inj hv' ▸ all_getCoins B h txid
  | haveCoins txid =>
    refine iff_of_true trivial fun v' hv' => ?_
    exact Option.some.inj hv' ▸ all_getCoins B h txid
  | modifyCoins txid edit =>
    refine iff_of_true trivial fun v' hv' => ?_
    exact Option.some.inj hv' ▸ all_editCoins B h edit txid
  | getNullifier nf =>
    refine iff_of_true trivial fun v' hv' => ?_
    exact Option.some.inj hv' ▸ all_of_accounts h (map_getNullifier B (fun _ _ => rfl) v nf)
  | setNullifiers nfs spent =>
    refine iff_of_true trivial fun v' hv' => ?_
    obtain rfl := Option.some.inj hv'
    refine all_updateTop (fun c hc => ?_) h
    exact hc.of_accounts rfl
  | getSaplingAnchorAt rt =>
    refine iff_of_true trivial fun v' hv' => ?_
    exact Option.some.inj hv' ▸ all_getSaplingAnchorAt B h rt
  | popAnchor rt type => exact iff_of_true trivial fun v' hv' => all_popAnchor B h hv'
  | getBestBlock =>
    refine iff_of_true trivial fun v' hv' => ?_
    exact Option.some.inj hv' ▸ all_of_accounts h (map_getBestBlock B (fun _ _ => rfl) v)
  | setBestBlock hash =>
    refine iff_of_true trivial fun v' hv' => ?_
    obtain rfl := Option.some.inj hv'
    refine all_updateTop (fun c hc => ?_) h
    exact hc.of_accounts rfl
  | getBestAnchor type =>
    refine iff_of_true trivial fun v' hv' => ?_
    exact Option.some.inj hv' ▸ all_getBestAnchor B h type
  | flush => exact iff_of_true trivial fun v' hv' => all_flush B h hv'
  | pushCache =>
    refine iff_of_true trivial fun v' hv' => ?_
    exact Option.some.inj hv' ▸ ⟨CCoinsViewCache.accounted_new,h⟩
  | dropCache =>
    refine iff_of_true trivial fun v' hv' => ?_
    cases v with
    | base s => exact Option.some.inj hv' ▸ h
    | layer c v => exact Option.some.inj hv' ▸ h.2

theorem flush_counter {c c' : CCoinsViewCache Tree} {v v' : CoinsView σ Tree}
    (h : flush E B (layer c v)=some (layer c' v')) : c'.cachedCoinsUsage=0 := by
  obtain ⟨w,-,hw⟩ := Option.map_eq_some_iff.mp h
  obtain ⟨rfl,-⟩ := LayerStack.layer.inj hw
  rfl

/-- In every run over any base view, all caches account for what they hold in every state
passed, and have a zero counter after a flush, exactly when no push writes a tree in the
place of one that takes more or less memory. -/
theorem memory_accounting_iff (s : σ) (os : List (Op Tree)) :
    (∀n v,run (step E B) (os.take n) (base s)=some v →
      v.All (CCoinsViewCache.Accounted E) ∧
        ∀c v',flush E B v=some (layer c v') → c.cachedCoinsUsage=0) ↔
      Guarded (step E B) (Accountable E B) os (base s) := by
  have hflush : ∀v : CoinsView σ Tree,∀c v',flush E B v=some (layer c v') →
      c.cachedCoinsUsage=0 := by
    intro v c v' h
    cases v with
    | base s => cases h
    | layer c₀ v => exact flush_counter B h
  have hevery := run_every_iff (fun v op h => accountable_iff B h op) os
    (s := base s) (I := fun v : CoinsView σ Tree => v.All (CCoinsViewCache.Accounted E)) trivial
  rw [← hevery]
  exact ⟨fun h n v hv => (h n v hv).1,fun h n v hv => ⟨h n v hv,hflush v⟩⟩

end Accounting

/-- `IncrementalMerkleTree::DynamicMemoryUsage`. -/
def dynamicMemoryUsage {H : Type} (t : Merkle.IncrementalMerkleTree H) : BitVec 64 :=
  BitVec.ofNat 64 (32+32+t.parents.length*32)

/-- The counter of the outermost cache and what it holds. -/
def topCounters {σ Tree : Type} (E : TreeEnv Tree) : CoinsView σ Tree → Option (BitVec 64 × ℕ)
  | .base _ => none
  | .layer c _ => some (c.cachedCoinsUsage,c.heldUsage E)

open Merkle in
/-- Sapling trees at their full depth. -/
def saplingEnv : TreeEnv (IncrementalMerkleTree Uint256) where
  root := IncrementalMerkleTree.root addHash 32
  newTree := IncrementalMerkleTree.new
  emptyRoot := addHash.empty 32
  emptySproutRoot := 0
  coinsUsage coins := BitVec.ofNat 64 (32*coins.vout.length)
  treeUsage := dynamicMemoryUsage

open Merkle in
def treeOf (leaves : List Uint256) : IncrementalMerkleTree Uint256 :=
  (IncrementalMerkleTree.new.appendAll addHash 32 leaves).2

/-- The third tree has the root of the first: its last two leaves are the empty leaf. -/
def paddedPushes : List (Op (Merkle.IncrementalMerkleTree Uint256)) :=
  [.pushCache,.pushAnchor (treeOf [5]),.pushAnchor (treeOf [6]),.pushAnchor (treeOf [5,1,1])]

/-- The longer tree takes the place of the shorter one and is not counted. -/
theorem overwritten_tree_uncounted :
    ∃v,run (step saplingEnv (CCoinsViewDB.ops saplingEnv)) paddedPushes
        (base CCoinsViewDB.new)=some v ∧
      topCounters saplingEnv v=some (128,160) ∧ ¬v.All (CCoinsViewCache.Accounted saplingEnv) := by
  have hrun : (run (step saplingEnv (CCoinsViewDB.ops saplingEnv)) paddedPushes
      (base CCoinsViewDB.new)).map (topCounters saplingEnv)=some (some (128,160)) := by
    decide +kernel
  obtain ⟨v,hv,hcounters⟩ := Option.map_eq_some_iff.mp hrun
  refine ⟨v,hv,hcounters,fun hall => ?_⟩
  cases v with
  | base s => cases hcounters
  | layer c v =>
    obtain ⟨hcounter,hheld⟩ := Prod.mk.inj (Option.some.inj hcounters)
    have hexact := hall.1.counter
    rw [hcounter,hheld] at hexact
    exact absurd hexact (by decide)

end Zdeex.Coins
