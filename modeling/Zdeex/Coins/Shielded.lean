import Zdeex.Coins.PlainMap
import Zdeex.Coins.Nullifiers
import Zdeex.Coins.Anchors

namespace Zdeex.Coins

open Zdeex.Framework
open LayerStack (base layer Layers)

/-- Plain sets: spent nullifiers, entered Sapling anchors, the best anchor. -/
structure ShieldedSets where
  nullifiers : Uint256 → Bool
  anchors : Uint256 → Bool
  best : Uint256

namespace ShieldedSets

def mark (nfs : List Uint256) (spent : Bool) (a : ShieldedSets) : ShieldedSets :=
  {a with nullifiers := fun nf => if nf∈nfs then spent else a.nullifiers nf}

/-- One anchor is entered or unentered and `best` becomes the best one. -/
def move (rt : Uint256) (entered : Bool) (best : Uint256) (a : ShieldedSets) : ShieldedSets :=
  {a with anchors := Function.update a.anchors rt entered,best := best}

def enter (rt : Uint256) (a : ShieldedSets) : ShieldedSets :=
  if a.best=rt then a else a.move rt true rt

/-- The best anchor is popped and `rt` becomes the best one. -/
def leave (rt : Uint256) (a : ShieldedSets) : ShieldedSets :=
  if a.best=rt then a else a.move a.best false rt

end ShieldedSets

/-- A pop goes to an anchor that is entered, or to the empty root. -/
def EnteredOrEmpty {Tree : Type} (E : TreeEnv Tree) (a : ShieldedSets) (rt : Uint256) : Prop :=
  a.anchors rt=true ∨ rt=E.emptyRoot

/-- Moreover the anchor that is popped is not the empty root. -/
def KeepsEmpty {Tree : Type} (E : TreeEnv Tree) (a : ShieldedSets) (rt : Uint256) : Prop :=
  EnteredOrEmpty E a rt ∧ (a.best=E.emptyRoot → rt=E.emptyRoot)

/-- Operations on the sets; `pops` says which pops are allowed. -/
def ShieldedStep {Tree : Type} (E : TreeEnv Tree) (pops : ShieldedSets → Uint256 → Prop)
    (as : List ShieldedSets) (op : Op Tree) (as' : List ShieldedSets) : Prop :=
  match op with
  | .setNullifiers nfs spent => as'=onTop (ShieldedSets.mark nfs spent) as
  | .pushAnchor tree => as'=onTop (ShieldedSets.enter (E.root tree)) as
  | .popAnchor rt .sapling =>
      (∀a∈as.head?,pops a rt) ∧ as'=onTop (ShieldedSets.leave rt) as
  | .flush => as'=flushSnapshot as
  | .pushCache => as'=pushSnapshot as
  | .dropCache => as'=dropSnapshot as
  | _ => as'=as

/-- What the trees give: a new tree has the empty root, and no root is null. -/
structure TreeLaws {Tree : Type} (E : TreeEnv Tree) : Prop where
  newTree : E.root E.newTree=E.emptyRoot
  rootNotNull : ∀tree,E.root tree≠0

/-- What the caches take from the view at the bottom: dirty entries are stored,
the empty root always has its tree, and null hashes are not stored. -/
structure WritesShielded {σ Tree : Type} (E : TreeEnv Tree) (B : BaseOps σ Tree) : Prop where
  nullifier : ∀s c nf,B.getNullifier (B.batchWrite s c) nf=
    match c.cacheSaplingNullifiers.lookup nf with
    | none => B.getNullifier s nf
    | some e => if e.dirty then e.entered else B.getNullifier s nf
  anchor : ∀s c rt,rt≠E.emptyRoot → B.getSaplingAnchorAt (B.batchWrite s c) rt=
    match c.cacheSaplingAnchors.lookup rt with
    | none => B.getSaplingAnchorAt s rt
    | some e =>
        if e.dirty then if e.entered then some e.tree else none else B.getSaplingAnchorAt s rt
  emptyAnchor : ∀s,B.getSaplingAnchorAt s E.emptyRoot=some E.newTree
  best : ∀s c,B.getBestAnchor (B.batchWrite s c) .sapling=
    ownOr c.hashSaplingAnchor (B.getBestAnchor s .sapling)

/-- A cache is flushed into a cache above the base only if that does not lose the
parent's best anchor. -/
def KeepsBest {σ Tree : Type} (B : BaseOps σ Tree) (v : CoinsView σ Tree) (op : Op Tree) : Prop :=
  match op,v with
  | .flush,layer c (layer p w) =>
      c.hashSaplingAnchor≠0 ∨ p.hashSaplingAnchor=0 ∨
        p.hashSaplingAnchor=(getBestAnchor B .sapling w).1
  | _,_ => True

/-- The best anchor and the empty root are entered. -/
def ShieldedSets.Good {Tree : Type} (E : TreeEnv Tree) (a : ShieldedSets) : Prop :=
  a.anchors a.best=true ∧ a.anchors E.emptyRoot=true

structure RefinesShielded {σ Tree : Type} (E : TreeEnv Tree) (B : BaseOps σ Tree)
    (v : CoinsView σ Tree) (as : List ShieldedSets) : Prop where
  nullifiers : RefinesNullifiers B v (as.map ShieldedSets.nullifiers)
  anchors : RefinesAnchors E B v (as.map ShieldedSets.anchors)
  best : RefinesBest B v (as.map ShieldedSets.best)
  good : ∀a∈as,a.Good E

section Steps

variable {σ Tree : Type} {E : TreeEnv Tree} {B : BaseOps σ Tree}

theorem RefinesNullifiers.of_eq {v v' : CoinsView σ Tree} {sets : List (Uint256 → Bool)}
    (h : RefinesNullifiers B v sets) (he : nullifierLayers v'=nullifierLayers v) :
    RefinesNullifiers B v' sets := by
  unfold RefinesNullifiers
  rw [he]
  exact h

theorem RefinesAnchors.of_eq {v v' : CoinsView σ Tree} {sets : List (Uint256 → Bool)}
    (h : RefinesAnchors E B v sets) (he : anchorLayers v'=anchorLayers v) :
    RefinesAnchors E B v' sets := by
  unfold RefinesAnchors
  rw [he]
  exact h

theorem RefinesBest.of_eq {v v' : CoinsView σ Tree} {bests : List Uint256}
    (h : RefinesBest B v bests)
    (he : v'.map CCoinsViewCache.hashSaplingAnchor=v.map CCoinsViewCache.hashSaplingAnchor) :
    RefinesBest B v' bests := by
  unfold RefinesBest
  rw [he]
  exact h

theorem RefinesShielded.of_eq {v v' : CoinsView σ Tree} {as : List ShieldedSets}
    (h : RefinesShielded E B v as) (hn : nullifierLayers v'=nullifierLayers v)
    (ha : anchorLayers v'=anchorLayers v)
    (hb : v'.map CCoinsViewCache.hashSaplingAnchor=v.map CCoinsViewCache.hashSaplingAnchor) :
    RefinesShielded E B v' as :=
  ⟨h.nullifiers.of_eq hn,h.anchors.of_eq ha,h.best.of_eq hb,h.good⟩

theorem RefinesShielded.cons_inv {v : CoinsView σ Tree} {as : List ShieldedSets}
    (h : RefinesShielded E B v as) : ∃a rest,as=a::rest := by
  obtain ⟨b,bs,hb,-⟩ := Layers.cons_inv h.best
  cases as with
  | nil => simp at hb
  | cons a rest => exact ⟨a,rest,rfl⟩

theorem RefinesShielded.layer_inv {c : CCoinsViewCache Tree} {v : CoinsView σ Tree}
    {as : List ShieldedSets} (h : RefinesShielded E B (layer c v) as) :
    ∃a b rest,as=a::b::rest := by
  obtain ⟨x,y,rest,hb,-⟩ := Layers.layer_inv h.best
  match as,hb with
  | a::b::rest,_ => exact ⟨a,b,rest,rfl⟩

theorem RefinesShielded.readNullifier {v : CoinsView σ Tree} {as : List ShieldedSets}
    (h : RefinesShielded E B v as) (nf : Uint256) :
    RefinesShielded E B (getNullifier B v nf).2 as where
  nullifiers := h.nullifiers.read nf
  anchors := h.anchors.of_eq (map_getNullifier B (fun _ _ => rfl) v nf)
  best := h.best.of_eq (map_getNullifier B (fun _ _ => rfl) v nf)
  good := h.good

theorem RefinesShielded.readAnchor {v : CoinsView σ Tree} {as : List ShieldedSets}
    (h : RefinesShielded E B v as) (rt : Uint256) :
    RefinesShielded E B (getSaplingAnchorAt E B v rt).2 as where
  nullifiers := h.nullifiers.of_eq (map_getSaplingAnchorAt E B (fun _ _ _ => rfl) v rt)
  anchors := h.anchors.read rt
  best := h.best.of_eq (map_getSaplingAnchorAt E B (fun _ _ _ => rfl) v rt)
  good := h.good

theorem RefinesShielded.readBest {v : CoinsView σ Tree} {as : List ShieldedSets}
    (h : RefinesShielded E B v as) : RefinesShielded E B (getBestAnchor B .sapling v).2 as where
  nullifiers := h.nullifiers.of_eq (map_getBestAnchor_sapling B (fun _ _ => rfl) v)
  anchors := h.anchors.of_eq (map_getBestAnchor_sapling B (fun _ _ => rfl) v)
  best := h.best.read
  good := h.good

theorem RefinesShielded.mark {v : CoinsView σ Tree} {as : List ShieldedSets}
    (h : RefinesShielded E B v as) (nfs : List Uint256) (spent : Bool) :
    RefinesShielded E B (setNullifiers nfs spent v) (onTop (ShieldedSets.mark nfs spent) as) where
  nullifiers := by
    rw [map_onTop _ _ (fun m nf => if nf∈nfs then spent else m nf) (fun _ => rfl)]
    exact h.nullifiers.set nfs spent
  anchors := by
    rw [map_onTop_unseen _ (ShieldedSets.mark nfs spent) (fun _ => rfl)]
    refine h.anchors.of_eq (map_updateTop ?_ v)
    exact fun _ => rfl
  best := by
    rw [map_onTop_unseen _ (ShieldedSets.mark nfs spent) (fun _ => rfl)]
    refine h.best.of_eq (map_updateTop ?_ v)
    exact fun _ => rfl
  good := forall_onTop (ShieldedSets.mark nfs spent) (fun _ ha => ha) h.good

theorem RefinesShielded.pushAnchor (hE : TreeLaws E) {v : CoinsView σ Tree}
    {as : List ShieldedSets} (h : RefinesShielded E B v as) (tree : Tree) :
    RefinesShielded E B (pushAnchor E B tree v) (onTop (ShieldedSets.enter (E.root tree)) as) := by
  obtain ⟨a,rest,rfl⟩ := h.cons_inv
  have hbest : (getBestAnchor B .sapling v).1=a.best := h.best.shows
  unfold Coins.pushAnchor
  dsimp only
  rw [hbest]
  by_cases hsame : a.best=E.root tree
  · rw [if_pos hsame]
    have hid : onTop (ShieldedSets.enter (E.root tree)) (a::rest)=a::rest := by
      cases rest <;> simp [onTop,ShieldedSets.enter,hsame]
    rw [hid]
    exact h.readBest
  · rw [if_neg hsame]
    have hread := h.readBest
    generalize (getBestAnchor B .sapling v).2=v' at hread
    have hf : onTop (ShieldedSets.enter (E.root tree)) (a::rest)=
        onTop (ShieldedSets.move (E.root tree) true (E.root tree)) (a::rest) := by
      cases rest <;> simp [onTop,ShieldedSets.enter,hsame]
    rw [hf]
    refine ⟨?_,?_,?_,?_⟩
    · rw [map_onTop_unseen _ (ShieldedSets.move _ _ _) (fun _ => rfl)]
      refine hread.nullifiers.of_eq (map_updateTop ?_ _)
      exact fun _ => rfl
    · rw [map_onTop _ (ShieldedSets.move _ _ _) (fun m => Function.update m (E.root tree) true) (fun _ => rfl)]
      exact hread.anchors.enter tree
    · rw [map_onTop _ (ShieldedSets.move _ _ _) (fun _ => E.root tree) (fun _ => rfl)]
      exact hread.best.set (hE.rootNotNull tree) (fun _ => rfl)
    · refine forall_onTop _ (fun b hb => ⟨Function.update_self _ _ _,?_⟩) hread.good
      dsimp only [ShieldedSets.move]
      by_cases hempty : E.emptyRoot=E.root tree
      · rw [hempty,Function.update_self]
      · rw [Function.update_of_ne hempty]
        exact hb.2

/-- The assertion of `PopAnchor` holds, since the best anchor is entered. -/
theorem RefinesShielded.popAnchor (hE : TreeLaws E) {v : CoinsView σ Tree} {a : ShieldedSets}
    {rest : List ShieldedSets} (h : RefinesShielded E B v (a::rest)) {rt : Uint256}
    (hrt : KeepsEmpty E a rt) :
    ∃v',popAnchor E B rt .sapling v=some v' ∧
      RefinesShielded E B v' (onTop (ShieldedSets.leave rt) (a::rest)) := by
  have hgood := h.good a (by simp)
  obtain ⟨hrt,hempty⟩ := hrt
  have hentered : a.anchors rt=true := by
    rcases hrt with hrt | rfl
    · exact hrt
    · exact hgood.2
  have hbest : (getBestAnchor B .sapling v).1=a.best := h.best.shows
  unfold Coins.popAnchor
  dsimp only
  rw [hbest]
  by_cases hsame : a.best=rt
  · rw [if_pos hsame]
    have hid : onTop (ShieldedSets.leave rt) (a::rest)=a::rest := by
      cases rest <;> simp [onTop,ShieldedSets.leave,hsame]
    rw [hid]
    exact ⟨_,rfl,h.readBest⟩
  · rw [if_neg hsame]
    have hread := h.readBest
    generalize (getBestAnchor B .sapling v).2=v' at hread
    obtain ⟨tree,htree⟩ : ∃tree,(getSaplingAnchorAt E B v' a.best).1=some tree :=
      Option.isSome_iff_exists.mp ((hread.anchors.shows a.best).isSome.trans hgood.1)
    obtain ⟨rtTree,hrtTree⟩ : ∃tree,(getSaplingAnchorAt E B v' rt).1=some tree :=
      Option.isSome_iff_exists.mp ((hread.anchors.shows rt).isSome.trans hentered)
    have hnotNull : rt≠0 := by
      rw [← (hread.anchors.shows rt).root rtTree hrtTree]
      exact hE.rootNotNull rtTree
    rw [htree]
    refine ⟨_,rfl,?_⟩
    have hf : onTop (ShieldedSets.leave rt) (a::rest)=
        onTop (ShieldedSets.move a.best false rt) (a::rest) := by
      cases rest <;> simp [onTop,ShieldedSets.leave,hsame]
    have hread' := hread.readAnchor a.best
    refine ⟨?_,?_,?_,?_⟩
    · rw [hf,map_onTop_unseen _ (ShieldedSets.move _ _ _) (fun _ => rfl)]
      refine hread'.nullifiers.of_eq (map_updateTop ?_ _)
      exact fun _ => rfl
    · rw [hf,map_onTop _ (ShieldedSets.move _ _ _) (fun m => Function.update m a.best false) (fun _ => rfl)]
      exact hread.anchors.leave a.best rt hgood.1
    · rw [hf,map_onTop _ (ShieldedSets.move _ _ _) (fun _ => rt) (fun _ => rfl)]
      exact hread'.best.set hnotNull (fun _ => rfl)
    · rw [hf]
      cases rest with
      | nil => exact hread.good
      | cons b rest =>
        intro x hx
        rcases List.mem_cons.mp hx with rfl | hx
        · constructor
          · dsimp only [ShieldedSets.move]
            rw [Function.update_of_ne (Ne.symm hsame)]
            exact hentered
          · dsimp only [ShieldedSets.move]
            have hne : E.emptyRoot≠a.best := fun he => hsame (he.symm.trans (hempty he.symm).symm)
            rw [Function.update_of_ne hne]
            exact hgood.2
        · exact hread.good x (List.mem_cons_of_mem a hx)

/-- A batch into the base: dirty entries are stored, and a clean entry was only a
copy. -/
theorem RefinesShielded.writeBase (hE : TreeLaws E) (hB : WritesShielded E B)
    {c : CCoinsViewCache Tree} {s : σ} {a b : ShieldedSets} {rest : List ShieldedSets}
    (h : RefinesShielded E B (layer c (base s)) (a::b::rest)) :
    RefinesShielded E B (base (B.batchWrite s c)) (a::rest) := by
  refine ⟨Caching.Tracks.write h.nullifiers fun nf d hok _ ha => ?_,
    Caching.Tracks.write h.anchors fun rt d hok hd ha => ?_,?_,
    fun x hx => h.good x (by simp at hx ⊢; tauto)⟩
  · refine Eq.trans ?_ ha
    refine (hB.nullifier s c nf).trans ?_
    cases hl : c.cacheSaplingNullifiers.lookup nf with
    | none => rfl
    | some e =>
      dsimp only
      split_ifs with hd
      · rfl
      · exact hok e hl (by simpa using hd)
  · by_cases hrt : rt=E.emptyRoot
    · subst rt
      have hgood : a.anchors E.emptyRoot=true := (h.good a (by simp)).2
      change Anchored E _ (B.getSaplingAnchorAt _ _) (a.anchors E.emptyRoot)
      rw [hB.emptyAnchor,hgood]
      refine ⟨rfl,fun tree ht => ?_⟩
      obtain rfl := Option.some.inj ht
      exact hE.newTree
    · change Anchored E rt (B.getSaplingAnchorAt _ rt) (a.anchors rt)
      rw [hB.anchor s c rt hrt]
      cases hl : c.cacheSaplingAnchors.lookup rt with
      | none =>
        rw [hl] at ha
        exact ha
      | some e =>
        rw [hl] at ha
        dsimp only
        split_ifs with hdirty he
        · simpa [Caching.shadow,anchorCaching,he] using ha
        · simpa [Caching.shadow,anchorCaching,he] using ha
        · have hclean := (hok e hl).clean (by simpa using hdirty)
          have hentered : e.entered=a.anchors rt :=
            (anchored_shown (B := B) (hok e hl).root).isSome.symm.trans ha.isSome
          exact ⟨hclean.trans hentered,hd.root⟩
  · obtain ⟨x,y,ys,heq,hx,hy,hys⟩ := Layers.layer_inv h.best
    obtain ⟨rfl,htail⟩ := List.cons.inj heq
    obtain ⟨rfl,rfl⟩ := List.cons.inj htail
    cases rest with
    | nil =>
      change B.getBestAnchor (B.batchWrite s c) .sapling=a.best
      rw [hB.best]
      exact hx
    | cons z zs => exact hys.elim

/-- A batch into another cache. -/
theorem RefinesShielded.writeCache {c p p' : CCoinsViewCache Tree} {w : CoinsView σ Tree}
    {a b : ShieldedSets} {rest : List ShieldedSets}
    (h : RefinesShielded E B (layer c (layer p w)) (a::b::rest))
    (hp' : p.batchWrite E c=some p') (hkeep : KeepsBest B (layer c (layer p w)) .flush) :
    RefinesShielded E B (layer p' w) (a::rest) := by
  obtain ⟨hanchors,hnullifiers,-,hhash⟩ := CCoinsViewCache.batchWrite_inv hp'
  refine ⟨Caching.Tracks.merge mergeNullifier_merges h.nullifiers hnullifiers,
    Caching.Tracks.merge mergeAnchor_merges h.anchors hanchors,?_,
    fun x hx => h.good x (by simp at hx ⊢; tauto)⟩
  have hkeep' := (ownOr_overwrite_iff _ _ _).mpr hkeep
  have hlayers := h.best
  refine ⟨?_,hlayers.2.2⟩
  change ownOr p'.hashSaplingAnchor (bestAt B (w.map CCoinsViewCache.hashSaplingAnchor))=a.best
  rw [hhash,← getBestAnchor_eq_bestAt,hkeep',getBestAnchor_eq_bestAt]
  exact hlayers.1

theorem RefinesShielded.clear {c : CCoinsViewCache Tree} {v v' : CoinsView σ Tree}
    {a b : ShieldedSets} {rest : List ShieldedSets}
    (h : RefinesShielded E B (layer c v) (a::b::rest)) (h' : RefinesShielded E B v' (a::rest)) :
    RefinesShielded E B (layer c.clearMaps v') (a::a::rest) := by
  refine ⟨Caching.Tracks.empty h'.nullifiers,Caching.Tracks.empty h'.anchors,⟨?_,h'.best⟩,
    fun x hx => h'.good x (by simp at hx ⊢; tauto)⟩
  have hbelow : bestAt B (v'.map CCoinsViewCache.hashSaplingAnchor)=a.best := by
    rw [← getBestAnchor_eq_bestAt]
    exact h'.best.shows
  have hown : ownOr c.hashSaplingAnchor (bestAt B (v.map CCoinsViewCache.hashSaplingAnchor))=a.best :=
    h.best.1
  change ownOr c.hashSaplingAnchor (bestAt B (v'.map CCoinsViewCache.hashSaplingAnchor))=a.best
  rw [hbelow]
  by_cases hnull : c.hashSaplingAnchor=0
  · simp [ownOr,hnull]
  · rw [ownOr_of_ne hnull] at hown ⊢
    exact hown

theorem RefinesShielded.flush (hE : TreeLaws E) (hB : WritesShielded E B)
    {v v' : CoinsView σ Tree} {as : List ShieldedSets} (h : RefinesShielded E B v as)
    (hv' : flush E B v=some v') (hkeep : KeepsBest B v .flush) :
    RefinesShielded E B v' (flushSnapshot as) := by
  cases v with
  | base s =>
    obtain rfl := Option.some.inj hv'
    match as,h.best with
    | [a],_ => exact h
  | layer c v =>
    obtain ⟨a,b,rest,rfl⟩ := h.layer_inv
    obtain ⟨v'',hbatch,rfl⟩ := Option.map_eq_some_iff.mp hv'
    refine h.clear ?_
    cases v with
    | base s =>
      obtain rfl := Option.some.inj hbatch
      exact h.writeBase hE hB
    | layer p w =>
      obtain ⟨p',hp',rfl⟩ := Option.map_eq_some_iff.mp hbatch
      exact h.writeCache hp' hkeep

theorem RefinesShielded.pushCache {v : CoinsView σ Tree} {as : List ShieldedSets}
    (h : RefinesShielded E B v as) :
    RefinesShielded E B (layer CCoinsViewCache.new v) (pushSnapshot as) := by
  obtain ⟨a,rest,rfl⟩ := h.cons_inv
  refine ⟨Caching.Tracks.empty h.nullifiers,Caching.Tracks.empty h.anchors,⟨?_,h.best⟩,
    fun x hx => h.good x (by simp [pushSnapshot] at hx ⊢; tauto)⟩
  change bestAt B (v.map CCoinsViewCache.hashSaplingAnchor)=a.best
  rw [← getBestAnchor_eq_bestAt]
  exact h.best.shows

theorem RefinesShielded.dropCache {c : CCoinsViewCache Tree} {v : CoinsView σ Tree}
    {as : List ShieldedSets} (h : RefinesShielded E B (layer c v) as) :
    RefinesShielded E B v (dropSnapshot as) := by
  obtain ⟨a,b,rest,rfl⟩ := h.layer_inv
  exact ⟨Caching.Tracks.drop h.nullifiers,Caching.Tracks.drop h.anchors,h.best.2,
    fun x hx => h.good x (List.mem_cons_of_mem a hx)⟩

theorem RefinesShielded.popSprout {v v' : CoinsView σ Tree} {as : List ShieldedSets}
    {rt : Uint256} (h : RefinesShielded E B v as)
    (hv' : Coins.popAnchor E B rt .sprout v=some v') : RefinesShielded E B v' as := by
  have hread : RefinesShielded E B (getBestAnchor B .sprout v).2 as :=
    h.of_eq (map_getBestAnchor_sprout B (fun _ _ => rfl) v)
      (map_getBestAnchor_sprout B (fun _ _ => rfl) v)
      (map_getBestAnchor_sprout B (fun _ _ => rfl) v)
  unfold Coins.popAnchor at hv'
  dsimp only at hv'
  split_ifs at hv'
  · obtain rfl := Option.some.inj hv'
    exact hread
  · obtain rfl := Option.some.inj hv'
    refine hread.of_eq (map_updateTop ?_ _) (map_updateTop ?_ _) (map_updateTop ?_ _) <;>
      exact fun _ => rfl

/-- Coins and shielded sets together, so that every operation is covered. -/
def Refines (E : TreeEnv Tree) (B : BaseOps σ Tree) (v : CoinsView σ Tree)
    (as : List ShieldedSets) : Prop :=
  (∃ms,RefinesCoins B v ms) ∧ RefinesShielded E B v as

theorem step_follows (hE : TreeLaws E) (hC : WritesCoins B) (hB : WritesShielded E B)
    (v : CoinsView σ Tree) (as : List ShieldedSets) (op : Op Tree) (as' : List ShieldedSets)
    (hkeep : KeepsBest B v op) (h : Refines E B v as)
    (hspec : ShieldedStep E (KeepsEmpty E) as op as') :
    ∃v',step E B v op=some v' ∧ Refines E B v' as' := by
  obtain ⟨⟨ms,hcoins⟩,hsh⟩ := h
  by_cases hop : op.popsAnchor
  · cases op with
    | popAnchor rt type =>
      cases type with
      | sapling =>
        obtain ⟨a,rest,rfl⟩ := hsh.cons_inv
        obtain ⟨v',hv',href⟩ := hsh.popAnchor hE (hspec.1 a rfl)
        refine ⟨v',hv',⟨ms,hcoins.of_eq (coinLayers_popAnchor E B hv')⟩,?_⟩
        rw [hspec.2]
        exact href
      | sprout =>
        obtain rfl : as'=as := hspec
        obtain ⟨v',hv'⟩ : ∃v',popAnchor E B rt .sprout v=some v' := by
          unfold popAnchor
          dsimp only
          split_ifs <;> exact ⟨_,rfl⟩
        exact ⟨v',hv',⟨ms,hcoins.of_eq (coinLayers_popAnchor E B hv')⟩,hsh.popSprout hv'⟩
    | _ => exact hop.elim
  · obtain ⟨v',ms',hv',-,hcoins'⟩ := step_refines (E := E) hC v ms op hop hcoins
    refine ⟨v',hv',⟨ms',hcoins'⟩,?_⟩
    cases op with
    | popAnchor rt type => exact (hop trivial).elim
    | getCoins txid =>
      obtain rfl : as'=as := hspec
      obtain rfl := Option.some.inj hv'
      exact hsh.of_eq (map_getCoins E B (fun _ _ _ => rfl) v txid)
        (map_getCoins E B (fun _ _ _ => rfl) v txid) (map_getCoins E B (fun _ _ _ => rfl) v txid)
    | accessCoins txid =>
      obtain rfl : as'=as := hspec
      obtain rfl := Option.some.inj hv'
      exact hsh.of_eq (map_getCoins E B (fun _ _ _ => rfl) v txid)
        (map_getCoins E B (fun _ _ _ => rfl) v txid) (map_getCoins E B (fun _ _ _ => rfl) v txid)
    | haveCoins txid =>
      obtain rfl : as'=as := hspec
      obtain rfl := Option.some.inj hv'
      exact hsh.of_eq (map_getCoins E B (fun _ _ _ => rfl) v txid)
        (map_getCoins E B (fun _ _ _ => rfl) v txid) (map_getCoins E B (fun _ _ _ => rfl) v txid)
    | modifyCoins txid edit =>
      obtain rfl : as'=as := hspec
      obtain rfl := Option.some.inj hv'
      exact hsh.of_eq (map_editCoins E B (fun _ _ _ => rfl) edit txid v)
        (map_editCoins E B (fun _ _ _ => rfl) edit txid v)
        (map_editCoins E B (fun _ _ _ => rfl) edit txid v)
    | getNullifier nf =>
      obtain rfl : as'=as := hspec
      obtain rfl := Option.some.inj hv'
      exact hsh.readNullifier nf
    | setNullifiers nfs spent =>
      obtain rfl := hspec
      obtain rfl := Option.some.inj hv'
      exact hsh.mark nfs spent
    | getSaplingAnchorAt rt =>
      obtain rfl : as'=as := hspec
      obtain rfl := Option.some.inj hv'
      exact hsh.readAnchor rt
    | pushAnchor tree =>
      obtain rfl := hspec
      obtain rfl := Option.some.inj hv'
      exact hsh.pushAnchor hE tree
    | getBestBlock =>
      obtain rfl : as'=as := hspec
      obtain rfl := Option.some.inj hv'
      exact hsh.of_eq (map_getBestBlock B (fun _ _ => rfl) v)
        (map_getBestBlock B (fun _ _ => rfl) v) (map_getBestBlock B (fun _ _ => rfl) v)
    | setBestBlock hash =>
      obtain rfl : as'=as := hspec
      obtain rfl := Option.some.inj hv'
      refine hsh.of_eq (map_updateTop ?_ _) (map_updateTop ?_ _) (map_updateTop ?_ _) <;>
        exact fun _ => rfl
    | getBestAnchor type =>
      obtain rfl : as'=as := hspec
      obtain rfl := Option.some.inj hv'
      cases type with
      | sprout =>
        exact hsh.of_eq (map_getBestAnchor_sprout B (fun _ _ => rfl) v)
          (map_getBestAnchor_sprout B (fun _ _ => rfl) v)
          (map_getBestAnchor_sprout B (fun _ _ => rfl) v)
      | sapling => exact hsh.readBest
    | flush =>
      obtain rfl := hspec
      exact hsh.flush hE hB hv' hkeep
    | pushCache =>
      obtain rfl := hspec
      obtain rfl := Option.some.inj hv'
      exact hsh.pushCache
    | dropCache =>
      obtain rfl := hspec
      cases v with
      | base s =>
        obtain rfl := Option.some.inj hv'
        match as,hsh.best with
        | [a],_ => exact hsh
      | layer c v =>
        obtain rfl := Option.some.inj hv'
        exact hsh.dropCache

/-- What the base holds, as sets. -/
def baseSets (B : BaseOps σ Tree) (s : σ) : ShieldedSets :=
  ⟨B.getNullifier s,fun rt => (B.getSaplingAnchorAt s rt).isSome,B.getBestAnchor s .sapling⟩

/-- Over a base whose trees have the roots they are stored under and whose best
anchor is one of them: every run that never pops the empty root completes, and
the outermost cache then answers as the plain sets do. -/
theorem shieldedCaches_refine_sets (hE : TreeLaws E) (hC : WritesCoins B)
    (hB : WritesShielded E B) (s : σ)
    (hroots : ∀rt tree,B.getSaplingAnchorAt s rt=some tree → E.root tree=rt)
    (hbest : (B.getSaplingAnchorAt s (B.getBestAnchor s .sapling)).isSome=true)
    (ops : List (Op Tree)) (a : ShieldedSets) (as : List ShieldedSets)
    (hrun : SpecRun (ShieldedStep E (KeepsEmpty E)) [baseSets B s] ops (a::as))
    (hkeep : Guarded (step E B) (KeepsBest B) ops (base s)) :
    ∃v,run (step E B) ops (base s)=some v ∧
      (∀nf,(getNullifier B v nf).1=a.nullifiers nf) ∧
      ∀rt,((getSaplingAnchorAt E B v rt).1.isSome=true ↔ a.anchors rt=true) ∧
        ∀tree,(getSaplingAnchorAt E B v rt).1=some tree → E.root tree=rt := by
  have hstart : Refines E B (base s) [baseSets B s] := by
    refine ⟨⟨[B.getCoins s],trivial,fun k => rfl⟩,⟨trivial,fun nf => rfl⟩,
      ⟨trivial,fun rt => ⟨rfl,hroots rt⟩⟩,rfl,fun x hx => ?_⟩
    obtain rfl := List.mem_singleton.mp hx
    refine ⟨hbest,?_⟩
    change (B.getSaplingAnchorAt s E.emptyRoot).isSome=true
    rw [hB.emptyAnchor]
    rfl
  obtain ⟨v,hv,-,hsh⟩ := run_follows (step_follows hE hC hB) hrun (base s) hkeep hstart
  refine ⟨v,hv,fun nf => hsh.nullifiers.shows nf,fun rt => ⟨?_,(hsh.anchors.shows rt).root⟩⟩
  rw [(hsh.anchors.shows rt).isSome]

end Steps

theorem CCoinsViewDB.writesShielded {Tree : Type} (E : TreeEnv Tree) :
    WritesShielded E (CCoinsViewDB.ops E) where
  nullifier d c nf := by
    change ((KeyMap.writeLoop writeNullifier c.cacheSaplingNullifiers.entries
      d.saplingNullifiers).lookup nf).isSome=_
    rw [KeyMap.writeLoop_spec]
    cases c.cacheSaplingNullifiers.lookup nf with
    | none => rfl
    | some e =>
      dsimp only [writeNullifier]
      cases he : e.entered <;> cases hd : e.dirty <;> rfl
  anchor d c rt hrt := by
    change (if rt=E.emptyRoot then _ else (KeyMap.writeLoop (writeAnchor E)
      c.cacheSaplingAnchors.entries d.saplingAnchors).lookup rt)=_
    have hget : (CCoinsViewDB.ops E).getSaplingAnchorAt d rt=d.saplingAnchors.lookup rt :=
      if_neg hrt
    rw [if_neg hrt,KeyMap.writeLoop_spec,hget]
    cases c.cacheSaplingAnchors.lookup rt with
    | none => rfl
    | some e =>
      dsimp only [writeAnchor]
      cases he : e.entered <;> cases hd : e.dirty <;> simp [hrt]
  emptyAnchor d := if_pos rfl
  best d c := by
    change (writeBest c.hashSaplingAnchor d.bestSaplingAnchor).getD E.emptyRoot=
      ownOr c.hashSaplingAnchor (d.bestSaplingAnchor.getD E.emptyRoot)
    unfold writeBest ownOr
    split_ifs <;> rfl

/-- Two trees: the empty one and one with a note. -/
def noteEnv : TreeEnv Bool := ⟨fun t => if t then 2 else 1,false,1,1,fun _ => 1,fun _ => 1⟩

theorem noteEnv_laws : TreeLaws noteEnv := ⟨rfl,by decide⟩

/-- A note is received and spent, and the block with its anchor is disconnected. -/
def connectThenDisconnect : List (Op Bool) :=
  [.pushCache,.setNullifiers [9] true,.pushAnchor true,.popAnchor 1 .sapling,.flush]

theorem shieldedCaches_refine_sets_disconnect :
    ∃v,run (step noteEnv (CCoinsViewDB.ops noteEnv)) connectThenDisconnect
        (base CCoinsViewDB.new)=some v ∧
      (getNullifier (CCoinsViewDB.ops noteEnv) v 9).1=true ∧
      ¬(getSaplingAnchorAt noteEnv (CCoinsViewDB.ops noteEnv) v 2).1.isSome=true := by
  obtain ⟨v,hv,hnf,hrt⟩ := shieldedCaches_refine_sets noteEnv_laws
    (CCoinsViewDB.writesCoins noteEnv) (CCoinsViewDB.writesShielded noteEnv) CCoinsViewDB.new
    (by
      intro rt tree h
      change (if rt=1 then some false else none)=some tree at h
      split_ifs at h with hrt
      obtain rfl := Option.some.inj h
      exact hrt.symm)
    rfl connectThenDisconnect _ _
    (.cons rfl (.cons rfl (.cons rfl (.cons ⟨fun a ha => by
      obtain rfl := Option.some.inj ha
      exact ⟨.inr rfl,fun _ => rfl⟩,rfl⟩ (.cons rfl (.nil _))))))
    (by
      refine ⟨trivial,fun v₁ h₁ => ⟨trivial,fun v₂ h₂ => ⟨trivial,fun v₃ h₃ => ⟨trivial,fun v₄ h₄ => ?_⟩⟩⟩⟩
      obtain rfl := Option.some.inj h₁
      obtain rfl := Option.some.inj h₂
      obtain rfl := Option.some.inj h₃
      obtain rfl := Option.some.inj h₄
      exact ⟨trivial,fun _ _ => trivial⟩)
  refine ⟨v,hv,hnf 9,?_⟩
  rw [(hrt 2).1]
  decide

/-- The empty root is entered on top of another anchor, popped, and the cache is
flushed: the database still serves it. -/
theorem popped_emptyRoot_still_served :
    ∃v a as,
      SpecRun (ShieldedStep noteEnv (EnteredOrEmpty noteEnv))
        [baseSets (CCoinsViewDB.ops noteEnv) CCoinsViewDB.new]
        [.pushCache,.pushAnchor true,.pushAnchor false,.popAnchor 2 .sapling,.flush] (a::as) ∧
      run (step noteEnv (CCoinsViewDB.ops noteEnv))
        [.pushCache,.pushAnchor true,.pushAnchor false,.popAnchor 2 .sapling,.flush]
        (base CCoinsViewDB.new)=some v ∧
      a.anchors noteEnv.emptyRoot=false ∧
      (getSaplingAnchorAt noteEnv (CCoinsViewDB.ops noteEnv) v noteEnv.emptyRoot).1.isSome=true := by
  refine ⟨_,_,_,.cons rfl (.cons rfl (.cons rfl (.cons ⟨fun a ha => ?_,rfl⟩
    (.cons rfl (.nil _))))),rfl,?_,?_⟩
  · obtain rfl := Option.some.inj ha
    exact .inl rfl
  · rfl
  · rfl

end Zdeex.Coins
