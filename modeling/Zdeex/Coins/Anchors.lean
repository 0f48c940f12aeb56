import Zdeex.Framework.LazyLayers
import Zdeex.Coins.BestHash
import Zdeex.Coins.Frame

namespace Zdeex.Coins

open Zdeex.Framework
open LayerStack (base layer Layers)

abbrev anchorLayers {σ Tree : Type} (v : CoinsView σ Tree) :
    LayerStack (CAnchorsSaplingMap Tree) σ :=
  v.map CCoinsViewCache.cacheSaplingAnchors

/-- `GetSaplingAnchorAt` as a read-through map: only trees that exist are kept. -/
def anchorCaching {σ Tree : Type} (B : BaseOps σ Tree) :
    Caching Uint256 (CAnchorsSaplingCacheEntry Tree) (Option Tree) σ where
  read := B.getSaplingAnchorAt
  shown e := if e.entered then some e.tree else none
  fetched v := v.map fun tree => ⟨true,tree,false⟩
  shown_fetched v e h := by
    obtain ⟨tree,rfl,rfl⟩ := Option.map_eq_some_iff.mp h
    rfl

/-- The answer for a root: a tree with that root, if the root is entered. -/
structure Anchored {Tree : Type} (E : TreeEnv Tree) (rt : Uint256) (answer : Option Tree)
    (entered : Bool) : Prop where
  isSome : answer.isSome=entered
  root : ∀tree,answer=some tree → E.root tree=rt

/-- Unentered entries keep their tree too, since a later merge may enter it
again. -/
structure AnchorOk {σ Tree : Type} (E : TreeEnv Tree) (B : BaseOps σ Tree)
    (w : LayerStack (CAnchorsSaplingMap Tree) σ) (rt : Uint256)
    (e : CAnchorsSaplingCacheEntry Tree) : Prop where
  root : E.root e.tree=rt
  clean : e.dirty=false → ((anchorCaching B).valueAt w rt).isSome=e.entered

/-- A stack and one set of entered anchors for each of its layers. -/
def RefinesAnchors {σ Tree : Type} (E : TreeEnv Tree) (B : BaseOps σ Tree)
    (v : CoinsView σ Tree) (sets : List (Uint256 → Bool)) : Prop :=
  (anchorCaching B).Tracks (AnchorOk E B) (Anchored E) (anchorLayers v) sets

section Steps

variable {σ Tree : Type} (E : TreeEnv Tree) (B : BaseOps σ Tree)

theorem getSaplingAnchorAt_eq_fetch (v : CoinsView σ Tree) (rt : Uint256) :
    (getSaplingAnchorAt E B v rt).1=((anchorCaching B).fetch (anchorLayers v) rt).1 ∧
    anchorLayers (getSaplingAnchorAt E B v rt).2=
      ((anchorCaching B).fetch (anchorLayers v) rt).2 := by
  induction v with
  | base s => exact ⟨rfl,rfl⟩
  | layer c v ih =>
    cases hl : c.cacheSaplingAnchors.lookup rt with
    | some e =>
      simp only [getSaplingAnchorAt,hl,LayerStack.map,Caching.fetch,and_true]
      rfl
    | none =>
      cases hr : getSaplingAnchorAt E B v rt with
      | mk x v' =>
        rw [hr] at ih
        simp only [getSaplingAnchorAt,hl,hr,LayerStack.map,Caching.fetch,← ih.1,← ih.2]
        cases x <;> exact ⟨rfl,rfl⟩

theorem anchorOk_stable : (anchorCaching B).Stable (AnchorOk E B) (Anchored E) where
  fill {w w' rt e} hf he := ⟨he.root,fun hd => by rw [hf.valueAt_eq]; exact he.clean hd⟩
  fetched {w rt e a} hf _ ha := by
    obtain ⟨tree,hv,rfl⟩ := Option.map_eq_some_iff.mp hf
    exact ⟨ha.root tree hv,fun _ => by rw [hv]; rfl⟩

variable {E B}

theorem anchored_shown {rt : Uint256} {e : CAnchorsSaplingCacheEntry Tree}
    (hroot : E.root e.tree=rt) : Anchored E rt ((anchorCaching B).shown e) e.entered := by
  have hshown : (anchorCaching B).shown e=if e.entered then some e.tree else none := rfl
  rw [hshown]
  cases e.entered with
  | false => exact ⟨rfl,fun tree h => by simp at h⟩
  | true =>
    refine ⟨rfl,fun tree h => ?_⟩
    obtain rfl := Option.some.inj h
    exact hroot

theorem RefinesAnchors.shows {v : CoinsView σ Tree} {m : Uint256 → Bool}
    {ms : List (Uint256 → Bool)} (h : RefinesAnchors E B v (m::ms)) (rt : Uint256) :
    Anchored E rt (getSaplingAnchorAt E B v rt).1 (m rt) := by
  rw [(getSaplingAnchorAt_eq_fetch E B v rt).1,((anchorCaching B).fetch_spec _ rt).1]
  exact Caching.Tracks.shows h rt

theorem RefinesAnchors.read {v : CoinsView σ Tree} {ms : List (Uint256 → Bool)}
    (h : RefinesAnchors E B v ms) (rt : Uint256) :
    RefinesAnchors E B (getSaplingAnchorAt E B v rt).2 ms := by
  unfold RefinesAnchors
  rw [(getSaplingAnchorAt_eq_fetch E B v rt).2]
  exact h.of_fills (anchorOk_stable E B) ((anchorCaching B).fetch_spec _ rt).2.1

theorem RefinesAnchors.enter {v : CoinsView σ Tree} {ms : List (Uint256 → Bool)}
    (h : RefinesAnchors E B v ms) (tree : Tree) :
    RefinesAnchors E B (updateTop (fun c => c.enterAnchor E (E.root tree) tree) v)
      (onTop (fun m => Function.update m (E.root tree) true) ms) := by
  cases v with
  | base s =>
    match ms,h.2 with
    | [m],_ => exact h
  | layer c v =>
    obtain ⟨m,a,rest,rfl,-,-,-⟩ := h.2.layer_inv
    refine Caching.Tracks.top (anchorOk_stable E B) h (Caching.Fills.refl _ _) fun rt => ?_
    dsimp only [CCoinsViewCache.enterAnchor]
    by_cases hrt : rt=E.root tree
    · subst rt
      rw [AList.lookup_insert,Function.update_self]
      refine .inr ⟨fun e he => ?_,anchored_shown rfl⟩
      obtain rfl := Option.some.inj he
      exact ⟨rfl,fun hd => by simp at hd⟩
    · rw [AList.lookup_insert_ne hrt,Function.update_of_ne hrt]
      exact .inl ⟨rfl,rfl⟩

/-- The entry that `AbstractPopAnchor` unenters is in the cache after the
preceding read, with a tree of the right root. -/
theorem RefinesAnchors.leave {v : CoinsView σ Tree} {m : Uint256 → Bool}
    {ms : List (Uint256 → Bool)} (h : RefinesAnchors E B v (m::ms)) (current newrt : Uint256)
    (hcurrent : m current=true) :
    RefinesAnchors E B
      (updateTop (fun c => c.leaveAnchor E current newrt) (getSaplingAnchorAt E B v current).2)
      (onTop (fun m => Function.update m current false) (m::ms)) := by
  have hread := h.read current
  have hval : ((anchorCaching B).valueAt (anchorLayers v) current).isSome=true :=
    (Caching.Tracks.shows h current).isSome.trans hcurrent
  have hheld : Caching.Held (anchorLayers (getSaplingAnchorAt E B v current).2) current := by
    rw [(getSaplingAnchorAt_eq_fetch E B v current).2]
    refine ((anchorCaching B).fetch_spec _ current).2.2 ?_
    simpa [anchorCaching] using hval
  generalize (getSaplingAnchorAt E B v current).2=v' at hread hheld
  cases v' with
  | base s =>
    cases ms with
    | nil => exact hread
    | cons m' ms => exact hread.2.elim
  | layer c v' =>
    obtain ⟨m',a,rest,heq,-,-,-⟩ := hread.2.layer_inv
    obtain ⟨rfl,rfl⟩ := List.cons.inj heq
    obtain ⟨e,he⟩ := Option.isSome_iff_exists.mp hheld
    have hok := hread.1.1 current e he
    refine Caching.Tracks.top (anchorOk_stable E B) hread (Caching.Fills.refl _ _) fun rt => ?_
    dsimp only [CCoinsViewCache.leaveAnchor]
    by_cases hrt : rt=current
    · subst rt
      rw [AList.lookup_insert,Function.update_self]
      have he' : (c.cacheSaplingAnchors.lookup current).getD ⟨false,E.newTree,false⟩=e := by
        change c.cacheSaplingAnchors.lookup current=some e at he
        rw [he]
        rfl
      rw [he']
      refine .inr ⟨fun e' he' => ?_,⟨rfl,fun tree ht => by simp [Caching.shadow,anchorCaching] at ht⟩⟩
      obtain rfl := Option.some.inj he'
      exact ⟨hok.root,fun hd => by simp at hd⟩
    · rw [AList.lookup_insert_ne hrt,Function.update_of_ne hrt]
      exact .inl ⟨rfl,rfl⟩

/-- One key of `BatchWriteAnchors`: the parent may keep another tree than the
child's, of the same root. -/
theorem mergeAnchor_merges :
    (anchorCaching B).Merges (AnchorOk E B) (Anchored E) mergeAnchor := by
  intro p w rt e b he hp hb
  cases hpk : p.lookup rt with
  | none =>
    have hbelow : (anchorCaching B).valueAt (layer p w) rt=(anchorCaching B).valueAt w rt :=
      (anchorCaching B).valueAt_none hpk
    cases hd : e.dirty with
    | false =>
      refine ⟨none,by simp [mergeAnchor,hd],fun e' h => by simp at h,fun a ha => ?_⟩
      have hentered : e.entered=a := (anchored_shown (B := B) he.root).isSome.symm.trans ha.isSome
      refine ⟨?_,hb.root⟩
      rw [← hentered,← he.clean hd,hbelow]
      rfl
    | true =>
      refine ⟨some ⟨e.entered,e.tree,true⟩,by simp [mergeAnchor,hd],fun e' h => ?_,
        fun a ha => ha⟩
      obtain rfl := Option.some.inj h
      exact ⟨he.root,fun h' => by simp at h'⟩
  | some us =>
    have hus := hp us hpk
    have hup : (anchorCaching B).valueAt (layer p w) rt=(anchorCaching B).shown us :=
      (anchorCaching B).valueAt_some hpk
    cases hd : e.dirty && us.entered != e.entered with
    | false =>
      refine ⟨some us,by simp [mergeAnchor,hd],fun e' h => ?_,fun a ha => ?_⟩
      · obtain rfl := Option.some.inj h
        exact hus
      · have hsame : us.entered=e.entered := by
          cases hdirty : e.dirty with
          | false =>
            rw [← he.clean hdirty,hup]
            exact (anchored_shown (B := B) hus.root).isSome.symm
          | true => simpa [hdirty] using hd
        have hentered : e.entered=a := (anchored_shown (B := B) he.root).isSome.symm.trans ha.isSome
        rw [← hentered,← hsame]
        exact anchored_shown hus.root
    | true =>
      refine ⟨some {us with entered := e.entered,dirty := true},by simp [mergeAnchor,hd],
        fun e' h => ?_,fun a ha => ?_⟩
      · obtain rfl := Option.some.inj h
        exact ⟨hus.root,fun h' => by simp at h'⟩
      · have hentered : e.entered=a := (anchored_shown (B := B) he.root).isSome.symm.trans ha.isSome
        rw [← hentered]
        exact anchored_shown (e := {us with entered := e.entered,dirty := true}) hus.root

end Steps

section Best

variable {σ Tree : Type} (B : BaseOps σ Tree)

/-- The best Sapling anchor that hashes over a base stand for. -/
def bestAt : LayerStack Uint256 σ → Uint256
  | base s => B.getBestAnchor s .sapling
  | layer h w => ownOr h (bestAt w)

/-- A stack and the best Sapling anchor of each of its layers. -/
def RefinesBest (v : CoinsView σ Tree) (bests : List Uint256) : Prop :=
  Layers (fun w b => bestAt B w=b) (v.map CCoinsViewCache.hashSaplingAnchor) bests

theorem getBestAnchor_eq_bestAt (v : CoinsView σ Tree) :
    (getBestAnchor B .sapling v).1=bestAt B (v.map CCoinsViewCache.hashSaplingAnchor) := by
  induction v with
  | base s => rfl
  | layer c v ih => rw [getBestAnchor_layer,ih,LayerStack.map,bestAt]

theorem ownOr_self (h : Uint256) : ownOr h h=h := by
  unfold ownOr
  split_ifs <;> rfl

theorem ownOr_of_ne {h : Uint256} (hne : h≠0) (b : Uint256) : ownOr h b=h := by
  unfold ownOr
  rw [if_neg (by simpa using hne)]

variable {B}

theorem RefinesBest.shows {v : CoinsView σ Tree} {b : Uint256} {bs : List Uint256}
    (h : RefinesBest B v (b::bs)) : (getBestAnchor B .sapling v).1=b := by
  obtain ⟨b',bs',heq,hb⟩ := Layers.cons_inv h
  obtain rfl := (List.cons.inj heq).1
  rw [getBestAnchor_eq_bestAt]
  exact hb

/-- Asking for the best anchor fills in hashes and changes no answer. -/
theorem RefinesBest.read {v : CoinsView σ Tree} {bs : List Uint256} (h : RefinesBest B v bs) :
    RefinesBest B (getBestAnchor B .sapling v).2 bs := by
  induction v generalizing bs with
  | base s => exact h
  | layer c v ih =>
    obtain ⟨b,b',rest,rfl,hb,-,hrest⟩ := Layers.layer_inv h
    cases hnull : c.hashSaplingAnchor.isNull with
    | false =>
      have hsame : getBestAnchor B .sapling (layer c v)=(c.hashSaplingAnchor,layer c v) := by
        simp [getBestAnchor,hnull]
      rw [hsame]
      exact h
    | true =>
      have hnew : (getBestAnchor B .sapling (layer c v)).2=
          layer {c with hashSaplingAnchor := (getBestAnchor B .sapling v).1}
            (getBestAnchor B .sapling v).2 := by
        simp [getBestAnchor,hnull]
      have hread : RefinesBest B (getBestAnchor B .sapling v).2 (b'::rest) := ih hrest
      have hbelow : bestAt B ((getBestAnchor B .sapling v).2.map CCoinsViewCache.hashSaplingAnchor)=
          (getBestAnchor B .sapling v).1 := by
        rw [← getBestAnchor_eq_bestAt,hread.shows,RefinesBest.shows hrest]
      have hvalue : (getBestAnchor B .sapling v).1=b := by
        rw [getBestAnchor_eq_bestAt,← hb]
        exact (if_pos hnull).symm
      rw [hnew]
      refine ⟨?_,hread⟩
      change ownOr (getBestAnchor B .sapling v).1 (bestAt B _)=b
      rw [hbelow,ownOr_self,hvalue]

theorem RefinesBest.set {v : CoinsView σ Tree} {bs : List Uint256} (h : RefinesBest B v bs)
    {rt : Uint256} (hrt : rt≠0) {f : CCoinsViewCache Tree → CCoinsViewCache Tree}
    (hf : ∀c,(f c).hashSaplingAnchor=rt) :
    RefinesBest B (updateTop f v) (onTop (fun _ => rt) bs) := by
  cases v with
  | base s =>
    match bs,h with
    | [b],h => exact h
  | layer c v =>
    obtain ⟨b,b',rest,rfl,-,-,hrest⟩ := Layers.layer_inv h
    refine ⟨?_,hrest⟩
    change ownOr (f c).hashSaplingAnchor _=rt
    rw [hf,ownOr_of_ne hrt]

end Best

end Zdeex.Coins
