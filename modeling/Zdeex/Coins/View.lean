import Mathlib.Tactic.Common
import Zdeex.Framework.KeyMap
import Zdeex.Framework.LayerStack
import Zdeex.Framework.Run
import Zdeex.Coins.CCoins

namespace Zdeex.Coins

open Zdeex.Framework

/-- The bits of `flags`: DIRTY entries may differ from the parent view, FRESH
entries are missing or pruned in it. -/
structure CCoinsCacheEntry where
  coins : CCoins
  dirty : Bool
  fresh : Bool
  deriving DecidableEq

/-- No code path stores a Sprout tree, so only the flags are kept. -/
structure CAnchorsSproutCacheEntry where
  entered : Bool
  dirty : Bool
  deriving DecidableEq

structure CAnchorsSaplingCacheEntry (Tree : Type) where
  entered : Bool
  tree : Tree
  dirty : Bool
  deriving DecidableEq

structure CNullifiersCacheEntry where
  entered : Bool
  dirty : Bool
  deriving DecidableEq

inductive ShieldedType where
  | sprout
  | sapling
  deriving DecidableEq

abbrev CCoinsMap := KeyMap Uint256 CCoinsCacheEntry
abbrev CAnchorsSproutMap := KeyMap Uint256 CAnchorsSproutCacheEntry
abbrev CAnchorsSaplingMap (Tree : Type) := KeyMap Uint256 (CAnchorsSaplingCacheEntry Tree)
abbrev CNullifiersMap := KeyMap Uint256 CNullifiersCacheEntry

structure CCoinsViewCache (Tree : Type) where
  hashBlock : Uint256
  cacheCoins : CCoinsMap
  hashSproutAnchor : Uint256
  hashSaplingAnchor : Uint256
  cacheSproutAnchors : CAnchorsSproutMap
  cacheSaplingAnchors : CAnchorsSaplingMap Tree
  cacheSaplingNullifiers : CNullifiersMap
  cachedCoinsUsage : BitVec 64

/-- A new cache: every hash is null, meaning "ask the base". -/
def CCoinsViewCache.new {Tree : Type} : CCoinsViewCache Tree :=
  ⟨0,∅,0,0,∅,∅,∅,0⟩

/-- What the caches take from the tree class and from the allocator. -/
structure TreeEnv (Tree : Type) where
  root : Tree → Uint256
  newTree : Tree
  emptyRoot : Uint256
  emptySproutRoot : Uint256
  coinsUsage : CCoins → BitVec 64
  treeUsage : Tree → BitVec 64

/-- The virtual methods of a view that is not a cache. `batchWrite` receives the
fields of the child cache as its arguments. -/
structure BaseOps (σ Tree : Type) where
  getCoins : σ → Uint256 → Option CCoins
  getNullifier : σ → Uint256 → Bool
  getSaplingAnchorAt : σ → Uint256 → Option Tree
  getBestBlock : σ → Uint256
  getBestAnchor : σ → ShieldedType → Uint256
  batchWrite : σ → CCoinsViewCache Tree → σ

/-- Caches of any depth over a base view; operations act on the outermost one. -/
abbrev CoinsView (σ Tree : Type) := LayerStack (CCoinsViewCache Tree) σ

def updateTop {σ Tree : Type} (f : CCoinsViewCache Tree → CCoinsViewCache Tree) :
    CoinsView σ Tree → CoinsView σ Tree
  | .base s => .base s
  | .layer c v => .layer (f c) v

section Methods

variable {σ Tree : Type} (E : TreeEnv Tree) (B : BaseOps σ Tree)

/-- The tail of `FetchCoins`: an entry that is pruned in the parent is FRESH. -/
def CCoinsViewCache.insertFetched (c : CCoinsViewCache Tree) (txid : Uint256) (tmp : CCoins) :
    CCoinsViewCache Tree :=
  {c with
    cacheCoins := c.cacheCoins.insert txid ⟨tmp,false,tmp.isPruned⟩
    cachedCoinsUsage := c.cachedCoinsUsage+E.coinsUsage tmp}

def getCoins : CoinsView σ Tree → Uint256 → Option CCoins × CoinsView σ Tree
  | .base s,txid => (B.getCoins s txid,.base s)
  | .layer c v,txid =>
      match c.cacheCoins.lookup txid with
      | some e => (some e.coins,.layer c v)
      | none =>
          match getCoins v txid with
          | (none,v') => (none,.layer c v')
          | (some tmp,v') => (some tmp,.layer (c.insertFetched E txid tmp) v')

/-- A pointer into the cache, or null. -/
def accessCoins (v : CoinsView σ Tree) (txid : Uint256) : Option CCoins × CoinsView σ Tree :=
  getCoins E B v txid

def haveCoins (v : CoinsView σ Tree) (txid : Uint256) : Bool × CoinsView σ Tree :=
  let r := getCoins E B v txid
  (match r.1 with
    | none => false
    | some coins => !coins.vout.isEmpty,r.2)

structure CCoinsModifier where
  entry : CCoinsCacheEntry
  cachedCoinUsage : BitVec 64

/-- `ModifyCoins` on the cache `c` over `v`; the view below may fill its caches. -/
def modifyCoins (c : CCoinsViewCache Tree) (v : CoinsView σ Tree) (txid : Uint256) :
    CCoinsModifier × CoinsView σ Tree :=
  match c.cacheCoins.lookup txid with
  | some e => (⟨{e with dirty := true},E.coinsUsage e.coins⟩,v)
  | none =>
      match getCoins E B v txid with
      | (none,v') => (⟨⟨CCoins.clear,true,true⟩,0⟩,v')
      | (some coins,v') => (⟨⟨coins,true,coins.isPruned⟩,0⟩,v')

/-- The destructor of the modifier, after the entry was edited to `coins`. -/
def CCoinsModifier.release (m : CCoinsModifier) (c : CCoinsViewCache Tree) (txid : Uint256)
    (coins : CCoins) : CCoinsViewCache Tree :=
  let coins := coins.cleanup
  let usage := c.cachedCoinsUsage-m.cachedCoinUsage
  if m.entry.fresh && coins.isPruned then
    {c with cacheCoins := c.cacheCoins.erase txid,cachedCoinsUsage := usage}
  else
    {c with
      cacheCoins := c.cacheCoins.insert txid {m.entry with coins := coins}
      cachedCoinsUsage := usage+E.coinsUsage coins}

/-- `ModifyCoins`, an edit through the modifier, and its destruction. -/
def editCoins (f : CCoins → CCoins) (txid : Uint256) : CoinsView σ Tree → CoinsView σ Tree
  | .base s => .base s
  | .layer c v =>
      let r := modifyCoins E B c v txid
      .layer (r.1.release E c txid (f r.1.entry.coins)) r.2

def getNullifier : CoinsView σ Tree → Uint256 → Bool × CoinsView σ Tree
  | .base s,nf => (B.getNullifier s nf,.base s)
  | .layer c v,nf =>
      match c.cacheSaplingNullifiers.lookup nf with
      | some e => (e.entered,.layer c v)
      | none =>
          let r := getNullifier v nf
          (r.1,.layer {c with
            cacheSaplingNullifiers := c.cacheSaplingNullifiers.insert nf ⟨r.1,false⟩} r.2)

/-- The loop of `SetNullifiers` over the spend descriptions of a transaction. -/
def setNullifiersLoop (spent : Bool) : List Uint256 → CNullifiersMap → CNullifiersMap
  | [],m => m
  | nf::nfs,m => setNullifiersLoop spent nfs (m.insert nf ⟨spent,true⟩)

def setNullifiers (nullifiers : List Uint256) (spent : Bool) :
    CoinsView σ Tree → CoinsView σ Tree :=
  updateTop fun c => {c with
    cacheSaplingNullifiers := setNullifiersLoop spent nullifiers c.cacheSaplingNullifiers}

def getSaplingAnchorAt : CoinsView σ Tree → Uint256 → Option Tree × CoinsView σ Tree
  | .base s,rt => (B.getSaplingAnchorAt s rt,.base s)
  | .layer c v,rt =>
      match c.cacheSaplingAnchors.lookup rt with
      | some e => (if e.entered then some e.tree else none,.layer c v)
      | none =>
          match getSaplingAnchorAt v rt with
          | (none,v') => (none,.layer c v')
          | (some tree,v') =>
              (some tree,.layer {c with
                cacheSaplingAnchors := c.cacheSaplingAnchors.insert rt ⟨true,tree,false⟩
                cachedCoinsUsage := c.cachedCoinsUsage+E.treeUsage tree} v')

def getBestBlock : CoinsView σ Tree → Uint256 × CoinsView σ Tree
  | .base s => (B.getBestBlock s,.base s)
  | .layer c v =>
      if c.hashBlock.isNull then
        let r := getBestBlock v
        (r.1,.layer {c with hashBlock := r.1} r.2)
      else (c.hashBlock,.layer c v)

def setBestBlock (hashBlock : Uint256) : CoinsView σ Tree → CoinsView σ Tree :=
  updateTop fun c => {c with hashBlock := hashBlock}

def getBestAnchor (type : ShieldedType) : CoinsView σ Tree → Uint256 × CoinsView σ Tree
  | .base s => (B.getBestAnchor s type,.base s)
  | .layer c v =>
      match type with
      | .sprout =>
          if c.hashSproutAnchor.isNull then
            let r := getBestAnchor .sprout v
            (r.1,.layer {c with hashSproutAnchor := r.1} r.2)
          else (c.hashSproutAnchor,.layer c v)
      | .sapling =>
          if c.hashSaplingAnchor.isNull then
            let r := getBestAnchor .sapling v
            (r.1,.layer {c with hashSaplingAnchor := r.1} r.2)
          else (c.hashSaplingAnchor,.layer c v)

/-- The insertion of `AbstractPushAnchor`; an entry that exists is overwritten
without accounting for the memory of the new tree. -/
def CCoinsViewCache.enterAnchor (c : CCoinsViewCache Tree) (newrt : Uint256) (tree : Tree) :
    CCoinsViewCache Tree :=
  {c with
    cacheSaplingAnchors := c.cacheSaplingAnchors.insert newrt ⟨true,tree,true⟩
    cachedCoinsUsage := match c.cacheSaplingAnchors.lookup newrt with
      | none => c.cachedCoinsUsage+E.treeUsage tree
      | some _ => c.cachedCoinsUsage
    hashSaplingAnchor := newrt}

def pushAnchor (tree : Tree) (v : CoinsView σ Tree) : CoinsView σ Tree :=
  let newrt := E.root tree
  let r := getBestAnchor B .sapling v
  if r.1=newrt then r.2 else updateTop (fun c => c.enterAnchor E newrt tree) r.2

/-- Unenters the current Sapling anchor and makes `newrt` the best one. -/
def CCoinsViewCache.leaveAnchor (c : CCoinsViewCache Tree) (currentRoot newrt : Uint256) :
    CCoinsViewCache Tree :=
  let entry := (c.cacheSaplingAnchors.lookup currentRoot).getD ⟨false,E.newTree,false⟩
  {c with
    cacheSaplingAnchors :=
      c.cacheSaplingAnchors.insert currentRoot {entry with entered := false,dirty := true}
    hashSaplingAnchor := newrt}

/-- `PopAnchor`; for Sapling the current best anchor must be found first. -/
def popAnchor (newrt : Uint256) (type : ShieldedType) (v : CoinsView σ Tree) :
    Option (CoinsView σ Tree) :=
  let r := getBestAnchor B type v
  if r.1=newrt then some r.2
  else
    match type with
    | .sprout =>
        some (updateTop (fun c => {c with
          cacheSproutAnchors := c.cacheSproutAnchors.insert r.1 ⟨false,true⟩
          hashSproutAnchor := newrt}) r.2)
    | .sapling =>
        let q := getSaplingAnchorAt E B r.2 r.1
        match q.1 with
        | none => none
        | some _ => some (updateTop (fun c => c.leaveAnchor E r.1 newrt) q.2)

end Methods

/-- Body of the coins loop of `BatchWrite`; the inner `none` erases the entry and
the outer one is the assertion that a new entry is FRESH. -/
def mergeCoins (_ : Uint256) (child : CCoinsCacheEntry) :
    Option CCoinsCacheEntry → Option (Option CCoinsCacheEntry)
  | none =>
      if child.dirty then
        if child.coins.isPruned then some none
        else if child.fresh then some (some ⟨child.coins,true,true⟩)
        else none
      else some none
  | some us =>
      if child.dirty then
        if us.fresh && child.coins.isPruned then some none
        else some (some {us with coins := child.coins,dirty := true})
      else some (some us)

def mergeCoinsUsage (usage : CCoins → BitVec 64) (child : CCoinsCacheEntry) :
    Option CCoinsCacheEntry → BitVec 64 → BitVec 64
  | none,u => if child.dirty && !child.coins.isPruned then u+usage child.coins else u
  | some us,u =>
      if child.dirty then
        if us.fresh && child.coins.isPruned then u-usage us.coins
        else u-usage us.coins+usage child.coins
      else u

/-- Body of `BatchWriteAnchors`; an existing tree is never copied over. -/
def mergeAnchor {Tree : Type} (_ : Uint256) (child : CAnchorsSaplingCacheEntry Tree) :
    Option (CAnchorsSaplingCacheEntry Tree) →
      Option (Option (CAnchorsSaplingCacheEntry Tree))
  | none => if child.dirty then some (some ⟨child.entered,child.tree,true⟩) else some none
  | some us =>
      if child.dirty && us.entered != child.entered then
        some (some {us with entered := child.entered,dirty := true})
      else some (some us)

def mergeAnchorUsage {Tree : Type} (usage : Tree → BitVec 64)
    (child : CAnchorsSaplingCacheEntry Tree) :
    Option (CAnchorsSaplingCacheEntry Tree) → BitVec 64 → BitVec 64
  | none,u => if child.dirty then u+usage child.tree else u
  | some _,u => u

/-- Body of `BatchWriteNullifiers`. -/
def mergeNullifier (_ : Uint256) (child : CNullifiersCacheEntry) :
    Option CNullifiersCacheEntry → Option (Option CNullifiersCacheEntry)
  | none => if child.dirty then some (some ⟨child.entered,true⟩) else some none
  | some us =>
      if child.dirty && us.entered != child.entered then some (some ⟨child.entered,true⟩)
      else some (some us)

section Stack

variable {σ Tree : Type} (E : TreeEnv Tree) (B : BaseOps σ Tree)

/-- `CCoinsViewCache::BatchWrite` of the child `c` into the cache `p`; `none` is a
failed assertion. The three hashes are copied whatever they are. -/
def CCoinsViewCache.batchWrite (p c : CCoinsViewCache Tree) : Option (CCoinsViewCache Tree) :=
  match KeyMap.mergeLoop mergeCoins (mergeCoinsUsage E.coinsUsage) c.cacheCoins.entries
      (p.cacheCoins,p.cachedCoinsUsage) with
  | none => none
  | some (coins,usage) =>
      match KeyMap.mergeLoop mergeAnchor (mergeAnchorUsage E.treeUsage)
          c.cacheSaplingAnchors.entries (p.cacheSaplingAnchors,usage) with
      | none => none
      | some (anchors,usage) =>
          match KeyMap.mergeLoop mergeNullifier (fun _ _ u => u)
              c.cacheSaplingNullifiers.entries (p.cacheSaplingNullifiers,()) with
          | none => none
          | some (nullifiers,_) => some {p with
              cacheCoins := coins
              cacheSaplingAnchors := anchors
              cacheSaplingNullifiers := nullifiers
              cachedCoinsUsage := usage
              hashSproutAnchor := c.hashSproutAnchor
              hashSaplingAnchor := c.hashSaplingAnchor
              hashBlock := c.hashBlock}

def batchWrite (c : CCoinsViewCache Tree) : CoinsView σ Tree → Option (CoinsView σ Tree)
  | .base s => some (.base (B.batchWrite s c))
  | .layer p v => (p.batchWrite E c).map fun p' => .layer p' v

/-- The end of `Flush`: the maps are emptied, the hashes stay. -/
def CCoinsViewCache.clearMaps (c : CCoinsViewCache Tree) : CCoinsViewCache Tree :=
  {c with
    cacheCoins := ∅
    cacheSaplingAnchors := ∅
    cacheSaplingNullifiers := ∅
    cachedCoinsUsage := 0}

def flush : CoinsView σ Tree → Option (CoinsView σ Tree)
  | .base s => some (.base s)
  | .layer c v => (batchWrite E B c v).map fun v' => .layer c.clearMaps v'

/-- Operations on the outermost cache, and the two that change the stack. -/
inductive Op (Tree : Type) where
  | getCoins (txid : Uint256)
  | accessCoins (txid : Uint256)
  | haveCoins (txid : Uint256)
  | modifyCoins (txid : Uint256) (edit : CCoins → CCoins)
  | getNullifier (nf : Uint256)
  | setNullifiers (nullifiers : List Uint256) (spent : Bool)
  | getSaplingAnchorAt (rt : Uint256)
  | pushAnchor (tree : Tree)
  | popAnchor (rt : Uint256) (type : ShieldedType)
  | getBestBlock
  | setBestBlock (hashBlock : Uint256)
  | getBestAnchor (type : ShieldedType)
  | flush
  | pushCache
  | dropCache

def step (v : CoinsView σ Tree) : Op Tree → Option (CoinsView σ Tree)
  | .getCoins txid => some (getCoins E B v txid).2
  | .accessCoins txid => some (accessCoins E B v txid).2
  | .haveCoins txid => some (haveCoins E B v txid).2
  | .modifyCoins txid edit => some (editCoins E B edit txid v)
  | .getNullifier nf => some (getNullifier B v nf).2
  | .setNullifiers nullifiers spent => some (setNullifiers nullifiers spent v)
  | .getSaplingAnchorAt rt => some (getSaplingAnchorAt E B v rt).2
  | .pushAnchor tree => some (pushAnchor E B tree v)
  | .popAnchor rt type => popAnchor E B rt type v
  | .getBestBlock => some (getBestBlock B v).2
  | .setBestBlock hashBlock => some (setBestBlock hashBlock v)
  | .getBestAnchor type => some (getBestAnchor B type v).2
  | .flush => flush E B v
  | .pushCache => some (.layer CCoinsViewCache.new v)
  | .dropCache =>
      match v with
      | .base s => some (.base s)
      | .layer _ v => some v

end Stack

theorem mergeAnchor_isSome {Tree : Type} (k : Uint256) (e : CAnchorsSaplingCacheEntry Tree)
    (o : Option (CAnchorsSaplingCacheEntry Tree)) : (mergeAnchor k e o).isSome := by
  cases o <;> (unfold mergeAnchor; dsimp only; split_ifs <;> rfl)

theorem mergeNullifier_isSome (k : Uint256) (e : CNullifiersCacheEntry)
    (o : Option CNullifiersCacheEntry) : (mergeNullifier k e o).isSome := by
  cases o <;> (unfold mergeNullifier; dsimp only; split_ifs <;> rfl)

/-- No coin entry trips the assertion: then `BatchWrite` returns, with the coins
merged key by key. -/
theorem CCoinsViewCache.batchWrite_spec {Tree : Type} (E : TreeEnv Tree)
    (p c : CCoinsViewCache Tree)
    (hc : ∀k e,c.cacheCoins.lookup k=some e → (mergeCoins k e (p.cacheCoins.lookup k)).isSome) :
    ∃p',p.batchWrite E c=some p' ∧
      ∀q,p'.cacheCoins.lookup q=
        KeyMap.mergedAt mergeCoins q (p.cacheCoins.lookup q) (c.cacheCoins.lookup q) := by
  obtain ⟨coins,u₁,h₁,hcoins⟩ := KeyMap.mergeLoop_spec mergeCoins
    (mergeCoinsUsage E.coinsUsage) c.cacheCoins p.cacheCoins p.cachedCoinsUsage hc
  obtain ⟨anchors,u₂,h₂,-⟩ := KeyMap.mergeLoop_spec mergeAnchor
    (mergeAnchorUsage E.treeUsage) c.cacheSaplingAnchors p.cacheSaplingAnchors u₁
    (fun k e _ => mergeAnchor_isSome k e _)
  obtain ⟨nullifiers,u₃,h₃,-⟩ := KeyMap.mergeLoop_spec mergeNullifier
    (fun _ _ u => u) c.cacheSaplingNullifiers p.cacheSaplingNullifiers ()
    (fun k e _ => mergeNullifier_isSome k e _)
  simp only [CCoinsViewCache.batchWrite,h₁,h₂,h₃]
  exact ⟨_,rfl,hcoins⟩

/-- Whenever `BatchWrite` returns, the shielded maps are merged key by key and
the three hashes are the child's. -/
theorem CCoinsViewCache.batchWrite_inv {Tree : Type} {E : TreeEnv Tree}
    {p c p' : CCoinsViewCache Tree} (h : p.batchWrite E c=some p') :
    (∀q,p'.cacheSaplingAnchors.lookup q=KeyMap.mergedAt mergeAnchor q
      (p.cacheSaplingAnchors.lookup q) (c.cacheSaplingAnchors.lookup q)) ∧
    (∀q,p'.cacheSaplingNullifiers.lookup q=KeyMap.mergedAt mergeNullifier q
      (p.cacheSaplingNullifiers.lookup q) (c.cacheSaplingNullifiers.lookup q)) ∧
    p'.hashBlock=c.hashBlock ∧ p'.hashSaplingAnchor=c.hashSaplingAnchor := by
  unfold CCoinsViewCache.batchWrite at h
  split at h
  · cases h
  · rename_i coins usage _
    obtain ⟨anchors,u₂,h₂,hanchors⟩ := KeyMap.mergeLoop_spec mergeAnchor
      (mergeAnchorUsage E.treeUsage) c.cacheSaplingAnchors p.cacheSaplingAnchors usage
      (fun k e _ => mergeAnchor_isSome k e _)
    obtain ⟨nullifiers,u₃,h₃,hnullifiers⟩ := KeyMap.mergeLoop_spec mergeNullifier
      (fun _ _ u => u) c.cacheSaplingNullifiers p.cacheSaplingNullifiers ()
      (fun k e _ => mergeNullifier_isSome k e _)
    simp only [h₂,h₃] at h
    obtain rfl := Option.some.inj h
    exact ⟨hanchors,hnullifiers,rfl,rfl⟩

end Zdeex.Coins
