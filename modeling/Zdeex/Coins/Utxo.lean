import Mathlib.Logic.Function.Basic
import Zdeex.Framework.LazyLayers
import Zdeex.Coins.View

namespace Zdeex.Coins

open Zdeex.Framework
open LayerStack (base layer Layers)

/-- Batched coins are read back; a missing answer for a pruned entry is allowed. -/
def WritesCoins {σ Tree : Type} (B : BaseOps σ Tree) : Prop :=
  ∀s c k,seen (B.getCoins (B.batchWrite s c) k)=
    match c.cacheCoins.lookup k with
    | none => seen (B.getCoins s k)
    | some e => if e.dirty then seen (some e.coins) else seen (B.getCoins s k)

/-- The coin caches of a stack, without the shielded ones. -/
abbrev coinLayers {σ Tree : Type} (v : CoinsView σ Tree) : LayerStack CCoinsMap σ :=
  v.map CCoinsViewCache.cacheCoins

/-- `FetchCoins` as a read-through map: entries that are pruned below are FRESH. -/
def coinCaching {σ Tree : Type} (B : BaseOps σ Tree) :
    Caching Uint256 CCoinsCacheEntry (Option CCoins) σ where
  read := B.getCoins
  shown e := some e.coins
  fetched v := v.map fun tmp => ⟨tmp,false,tmp.isPruned⟩
  shown_fetched v e h := by
    obtain ⟨tmp,rfl,rfl⟩ := Option.map_eq_some_iff.mp h
    rfl

/-- A plain map from transaction ids to coins. -/
abbrev PlainMap := Uint256 → Option CCoins

/-- What the flags of an entry promise about the view `w` below its cache. -/
structure EntryOk {σ Tree : Type} (B : BaseOps σ Tree) (w : LayerStack CCoinsMap σ) (k : Uint256)
    (e : CCoinsCacheEntry) : Prop where
  fresh : e.fresh=true → seen ((coinCaching B).valueAt w k)=none
  held : e.fresh=false → Caching.Held w k
  clean : e.dirty=false → (coinCaching B).valueAt w k=some e.coins

/-- A stack of caches and one plain map for each of its layers. -/
def RefinesCoins {σ Tree : Type} (B : BaseOps σ Tree) (v : CoinsView σ Tree)
    (ms : List PlainMap) : Prop :=
  (coinCaching B).Tracks (EntryOk B) (fun _ shown held => seen shown=seen held) (coinLayers v) ms

section Reads

variable {σ Tree : Type} (E : TreeEnv Tree) (B : BaseOps σ Tree)

theorem getCoins_eq_fetch (v : CoinsView σ Tree) (k : Uint256) :
    (getCoins E B v k).1=((coinCaching B).fetch (coinLayers v) k).1 ∧
    coinLayers (getCoins E B v k).2=((coinCaching B).fetch (coinLayers v) k).2 := by
  induction v with
  | base s => exact ⟨rfl,rfl⟩
  | layer c v ih =>
    cases hl : c.cacheCoins.lookup k with
    | some e =>
      simp only [getCoins,hl,LayerStack.map,Caching.fetch,and_true]
      rfl
    | none =>
      cases hr : getCoins E B v k with
      | mk r v' =>
        rw [hr] at ih
        simp only [getCoins,hl,hr,LayerStack.map,Caching.fetch,← ih.1,← ih.2]
        cases r <;> exact ⟨rfl,rfl⟩

/-- A read returns what the layers show and only fills caches. -/
theorem getCoins_spec (v : CoinsView σ Tree) (k : Uint256) :
    (getCoins E B v k).1=(coinCaching B).valueAt (coinLayers v) k ∧
    (coinCaching B).Fills (coinLayers v) (coinLayers (getCoins E B v k).2) ∧
    (((coinCaching B).valueAt (coinLayers v) k).isSome →
      Caching.Held (coinLayers (getCoins E B v k).2) k) := by
  obtain ⟨hval,hlayers⟩ := getCoins_eq_fetch E B v k
  obtain ⟨hfetch,hfill,hheld⟩ := (coinCaching B).fetch_spec (coinLayers v) k
  rw [hlayers]
  exact ⟨hval.trans hfetch,hfill,fun h => hheld (by simpa [coinCaching] using h)⟩

theorem entryOk_stable : (coinCaching B).Stable (EntryOk B)
    (fun _ shown held => seen shown=seen held : Uint256 → _ → Option CCoins → Prop) where
  fill {w w' k e} hf he :=
    ⟨fun h => by rw [hf.valueAt_eq]; exact he.fresh h,fun h => hf.held k (he.held h),
      fun h => by rw [hf.valueAt_eq]; exact he.clean h⟩
  fetched {w k e a} hf hheld _ := by
    obtain ⟨tmp,hv,rfl⟩ := Option.map_eq_some_iff.mp hf
    exact ⟨fun h => by rw [hv]; exact seen_of_pruned h,fun _ => hheld,fun _ => hv⟩

/-- The modifier hands out what the view shows, DIRTY and with sound flags. -/
theorem modifyCoins_spec (c : CCoinsViewCache Tree) (v : CoinsView σ Tree) (k : Uint256)
    (hc : ∀e,c.cacheCoins.lookup k=some e → EntryOk B (coinLayers v) k e) :
    let r := modifyCoins E B c v k
    (coinCaching B).Fills (coinLayers v) (coinLayers r.2) ∧
    seen (some r.1.entry.coins)=seen ((coinCaching B).valueAt (coinLayers (layer c v)) k) ∧
    r.1.entry.dirty=true ∧ EntryOk B (coinLayers r.2) k r.1.entry := by
  intro r
  cases hl : c.cacheCoins.lookup k with
  | some e =>
    have hr : r=(⟨{e with dirty := true},E.coinsUsage e.coins⟩,v) := by
      simp [r,modifyCoins,hl]
    have he := hc e hl
    rw [hr]
    refine ⟨Caching.Fills.refl _ _,?_,rfl,?_⟩
    · exact congrArg seen ((coinCaching B).valueAt_some hl).symm
    · exact ⟨he.fresh,he.held,fun h => by simp at h⟩
  | none =>
    obtain ⟨hval,hfill,hheld⟩ := getCoins_spec E B v k
    have hat : (coinCaching B).valueAt (coinLayers (layer c v)) k=
        (coinCaching B).valueAt (coinLayers v) k := (coinCaching B).valueAt_none hl
    rw [hat,← hval]
    cases hg : getCoins E B v k with
    | mk x v' =>
      rw [hg] at hval hfill hheld
      have hsame : (coinCaching B).valueAt (coinLayers v') k=x :=
        (hfill.valueAt_eq k).trans hval.symm
      cases x with
      | none =>
        have hr : r=(⟨⟨CCoins.clear,true,true⟩,0⟩,v') := by simp [r,modifyCoins,hl,hg]
        rw [hr]
        refine ⟨hfill,seen_of_pruned rfl,rfl,?_⟩
        exact ⟨fun _ => by rw [hsame]; rfl,fun h => by simp at h,fun h => by simp at h⟩
      | some coins =>
        have hr : r=(⟨⟨coins,true,coins.isPruned⟩,0⟩,v') := by simp [r,modifyCoins,hl,hg]
        rw [hr]
        refine ⟨hfill,rfl,rfl,?_⟩
        refine ⟨fun h => ?_,fun _ => hheld (by rw [← hval]; rfl),fun h => by simp at h⟩
        rw [hsame]
        exact seen_of_pruned h

theorem release_lookup (m : CCoinsModifier) (c : CCoinsViewCache Tree) (k q : Uint256)
    (coins : CCoins) :
    (m.release E c k coins).cacheCoins.lookup q=
      if q=k then
        if m.entry.fresh && coins.isPruned then none
        else some {m.entry with coins := coins.cleanup}
      else c.cacheCoins.lookup q := by
  unfold CCoinsModifier.release
  by_cases hq : q=k
  · subst q
    cases h : m.entry.fresh && coins.isPruned <;> simp [h]
  · cases h : m.entry.fresh && coins.isPruned <;>
      simp [h,hq,AList.lookup_insert_ne hq,AList.lookup_erase_ne hq]

end Reads

section Steps

variable {σ Tree : Type} {E : TreeEnv Tree} {B : BaseOps σ Tree}

theorem RefinesCoins.of_eq {v v' : CoinsView σ Tree} {ms : List PlainMap}
    (h : RefinesCoins B v ms) (he : coinLayers v'=coinLayers v) : RefinesCoins B v' ms := by
  unfold RefinesCoins
  rw [he]
  exact h

theorem RefinesCoins.read {v : CoinsView σ Tree} {ms : List PlainMap} (h : RefinesCoins B v ms)
    (k : Uint256) : RefinesCoins B (getCoins E B v k).2 ms :=
  h.of_fills (entryOk_stable B) (getCoins_spec E B v k).2.1

/-- Editing through the modifier is editing the plain map at a value that shows
the same unspent outputs. -/
theorem RefinesCoins.edit {c : CCoinsViewCache Tree} {v : CoinsView σ Tree} {m : PlainMap}
    {ms : List PlainMap} (h : RefinesCoins B (layer c v) (m::ms)) (k : Uint256)
    (f : CCoins → CCoins) :
    ∃x,seen (some x)=seen (m k) ∧
      RefinesCoins B (editCoins E B f k (layer c v)) (Function.update m k (some (f x))::ms) := by
  obtain ⟨hfill,hseen,hdirty,hentry⟩ := modifyCoins_spec E B c v k (h.1.1 k)
  change ∃x,_ ∧ RefinesCoins B
    (layer ((modifyCoins E B c v k).1.release E c k (f (modifyCoins E B c v k).1.entry.coins))
      (modifyCoins E B c v k).2) _
  generalize modifyCoins E B c v k=r at *
  refine ⟨r.1.entry.coins,hseen.trans (h.shows k),
    Caching.Tracks.top (entryOk_stable B) h hfill fun q => ?_⟩
  have hlook := release_lookup E r.1 c k q (f r.1.entry.coins)
  by_cases hqk : q=k
  · subst q
    rw [if_pos rfl] at hlook
    rw [hlook,Function.update_self]
    right
    split_ifs with hp
    · simp only [Bool.and_eq_true] at hp
      refine ⟨fun e he => by simp at he,?_⟩
      exact (hentry.fresh hp.1).trans (seen_of_pruned hp.2).symm
    · refine ⟨fun e he => ?_,seen_cleanup _⟩
      obtain rfl := Option.some.inj he
      exact ⟨hentry.fresh,hentry.held,fun hd => by simp [hdirty] at hd⟩
  · rw [if_neg hqk] at hlook
    exact .inl ⟨hlook,Function.update_of_ne hqk _ _⟩

/-- One key of `BatchWrite`. An entry that is new to the parent cache is FRESH,
so the assertion holds. -/
theorem mergeCoins_merges :
    (coinCaching B).Merges (EntryOk B) (fun _ shown held => seen shown=seen held)
      mergeCoins := by
  intro p w k e b he hp _
  cases hpk : p.lookup k with
  | none =>
    have hbelow : (coinCaching B).valueAt (layer p w) k=(coinCaching B).valueAt w k :=
      (coinCaching B).valueAt_none hpk
    have hfresh : e.fresh=true := by
      by_contra hf
      have hheld : (p.lookup k).isSome := he.held (by simpa using hf)
      simp [hpk] at hheld
    have hnone : seen ((coinCaching B).valueAt w k)=none := hbelow ▸ he.fresh hfresh
    cases hd : e.dirty with
    | false =>
      refine ⟨none,by simp [mergeCoins,hd],fun e' h => by simp at h,fun a ha => ?_⟩
      exact (congrArg seen (hbelow.symm.trans (he.clean hd))).trans ha
    | true =>
      cases hpr : e.coins.isPruned with
      | true =>
        refine ⟨none,by simp [mergeCoins,hd,hpr],fun e' h => by simp at h,fun a ha => ?_⟩
        exact (hnone.trans (seen_of_pruned hpr).symm).trans ha
      | false =>
        refine ⟨some ⟨e.coins,true,true⟩,by simp [mergeCoins,hd,hpr,hfresh],fun e' h => ?_,
          fun a ha => ha⟩
        obtain rfl := Option.some.inj h
        exact ⟨fun _ => hnone,fun h => by simp at h,fun h => by simp at h⟩
  | some us =>
    have hus := hp us hpk
    have hup : (coinCaching B).valueAt (layer p w) k=some us.coins :=
      (coinCaching B).valueAt_some hpk
    cases hd : e.dirty with
    | false =>
      refine ⟨some us,by simp [mergeCoins,hd],fun e' h => ?_,fun a ha => ?_⟩
      · obtain rfl := Option.some.inj h
        exact hus
      · exact (congrArg seen (hup.symm.trans (he.clean hd))).trans ha
    | true =>
      cases hpr : us.fresh && e.coins.isPruned with
      | true =>
        refine ⟨none,by simp [mergeCoins,hd,hpr],fun e' h => by simp at h,fun a ha => ?_⟩
        simp only [Bool.and_eq_true] at hpr
        exact ((hus.fresh hpr.1).trans (seen_of_pruned hpr.2).symm).trans ha
      | false =>
        refine ⟨some {us with coins := e.coins,dirty := true},by simp [mergeCoins,hd,hpr],
          fun e' h => ?_,fun a ha => ha⟩
        obtain rfl := Option.some.inj h
        exact ⟨hus.fresh,hus.held,fun h => by simp at h⟩

/-- The parent shows after the batch what the child showed before it. -/
theorem batchWrite_refines (hB : WritesCoins B) {c : CCoinsViewCache Tree}
    {v : CoinsView σ Tree} {m a : PlainMap} {ms : List PlainMap}
    (h : RefinesCoins B (layer c v) (m::a::ms)) :
    ∃v',batchWrite E B c v=some v' ∧ RefinesCoins B v' (m::ms) := by
  cases v with
  | base s =>
    refine ⟨_,rfl,Caching.Tracks.write h fun k b hok _ hb => ?_⟩
    refine (hB s c k).trans ?_
    rw [← hb]
    cases hl : c.cacheCoins.lookup k with
    | none => rfl
    | some e =>
      dsimp only [Caching.shadow]
      split_ifs with hd
      · rfl
      · exact congrArg seen ((hok e hl).clean (by simpa using hd))
  | layer p v =>
    obtain ⟨p',hp',hcoins⟩ := CCoinsViewCache.batchWrite_spec E p c
      (fun k e he => mergeCoins_merges.isSome h k e he)
    exact ⟨layer p' v,by simp [batchWrite,hp'],Caching.Tracks.merge mergeCoins_merges h hcoins⟩

theorem RefinesCoins.flush (hB : WritesCoins B) {v : CoinsView σ Tree} {ms : List PlainMap}
    (h : RefinesCoins B v ms) :
    ∃v',flush E B v=some v' ∧ RefinesCoins B v' (flushSnapshot ms) := by
  cases v with
  | base s =>
    match ms,h.2 with
    | [m],_ => exact ⟨_,rfl,h⟩
  | layer c v =>
    obtain ⟨m,a,rest,rfl,-,-,-⟩ := h.2.layer_inv
    obtain ⟨v',hv',href⟩ := batchWrite_refines (E := E) hB h
    exact ⟨layer c.clearMaps v',by simp [Coins.flush,hv'],Caching.Tracks.empty href⟩

theorem RefinesCoins.pushCache {v : CoinsView σ Tree} {ms : List PlainMap}
    (h : RefinesCoins B v ms) :
    RefinesCoins B (layer CCoinsViewCache.new v) (pushSnapshot ms) := by
  obtain ⟨a,as,rfl,-⟩ := h.2.cons_inv
  exact Caching.Tracks.empty h

theorem RefinesCoins.dropCache {c : CCoinsViewCache Tree} {v : CoinsView σ Tree}
    {ms : List PlainMap} (h : RefinesCoins B (layer c v) ms) :
    RefinesCoins B v (dropSnapshot ms) :=
  Caching.Tracks.drop h

end Steps

end Zdeex.Coins
