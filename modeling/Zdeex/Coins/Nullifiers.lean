import Zdeex.Framework.LazyLayers
import Zdeex.Coins.Frame

namespace Zdeex.Coins

open Zdeex.Framework
open LayerStack (base layer Layers)

abbrev nullifierLayers {σ Tree : Type} (v : CoinsView σ Tree) : LayerStack CNullifiersMap σ :=
  v.map CCoinsViewCache.cacheSaplingNullifiers

/-- `GetNullifier` as a read-through map: both answers are kept. -/
def nullifierCaching {σ Tree : Type} (B : BaseOps σ Tree) :
    Caching Uint256 CNullifiersCacheEntry Bool σ where
  read := B.getNullifier
  shown e := e.entered
  fetched b := some ⟨b,false⟩
  shown_fetched b e h := by
    obtain rfl := Option.some.inj h
    rfl

/-- An entry without DIRTY is only a copy. -/
def NullifierOk {σ Tree : Type} (B : BaseOps σ Tree) (w : LayerStack CNullifiersMap σ)
    (nf : Uint256) (e : CNullifiersCacheEntry) : Prop :=
  e.dirty=false → (nullifierCaching B).valueAt w nf=e.entered

/-- A stack and one set of spent nullifiers for each of its layers. -/
def RefinesNullifiers {σ Tree : Type} (B : BaseOps σ Tree) (v : CoinsView σ Tree)
    (sets : List (Uint256 → Bool)) : Prop :=
  (nullifierCaching B).Tracks (NullifierOk B) (fun _ shown spent => shown=spent)
    (nullifierLayers v) sets

section Steps

variable {σ Tree : Type} (E : TreeEnv Tree) (B : BaseOps σ Tree)

theorem getNullifier_eq_fetch (v : CoinsView σ Tree) (nf : Uint256) :
    (getNullifier B v nf).1=((nullifierCaching B).fetch (nullifierLayers v) nf).1 ∧
    nullifierLayers (getNullifier B v nf).2=
      ((nullifierCaching B).fetch (nullifierLayers v) nf).2 := by
  induction v with
  | base s => exact ⟨rfl,rfl⟩
  | layer c v ih =>
    cases hl : c.cacheSaplingNullifiers.lookup nf with
    | some e =>
      simp only [getNullifier,hl,LayerStack.map,Caching.fetch,and_true]
      rfl
    | none =>
      simp only [getNullifier,hl,LayerStack.map,Caching.fetch,← ih.1,← ih.2,true_and]
      rfl

theorem nullifierOk_stable : (nullifierCaching B).Stable (NullifierOk B)
    (fun _ shown spent => shown=spent : Uint256 → Bool → Bool → Prop) where
  fill {w w' nf e} hf he hd := by
    rw [hf.valueAt_eq]
    exact he hd
  fetched {w nf e a} hf _ _ _ := by
    obtain rfl := Option.some.inj hf
    rfl

variable {E B}

theorem RefinesNullifiers.shows {v : CoinsView σ Tree} {m : Uint256 → Bool}
    {ms : List (Uint256 → Bool)} (h : RefinesNullifiers B v (m::ms)) (nf : Uint256) :
    (getNullifier B v nf).1=m nf := by
  rw [(getNullifier_eq_fetch B v nf).1,((nullifierCaching B).fetch_spec _ nf).1]
  exact Caching.Tracks.shows h nf

theorem RefinesNullifiers.read {v : CoinsView σ Tree} {ms : List (Uint256 → Bool)}
    (h : RefinesNullifiers B v ms) (nf : Uint256) :
    RefinesNullifiers B (getNullifier B v nf).2 ms := by
  unfold RefinesNullifiers
  rw [(getNullifier_eq_fetch B v nf).2]
  exact h.of_fills (nullifierOk_stable B) ((nullifierCaching B).fetch_spec _ nf).2.1

theorem setNullifiersLoop_lookup (spent : Bool) (nfs : List Uint256) (m : CNullifiersMap)
    (nf : Uint256) :
    (setNullifiersLoop spent nfs m).lookup nf=
      if nf∈nfs then some ⟨spent,true⟩ else m.lookup nf := by
  induction nfs generalizing m with
  | nil => simp [setNullifiersLoop]
  | cons x nfs ih =>
    rw [setNullifiersLoop,ih]
    by_cases hmem : nf∈nfs
    · simp [hmem]
    · by_cases hx : nf=x
      · subst nf
        simp [hmem]
      · simp [hmem,hx,AList.lookup_insert_ne hx]

theorem RefinesNullifiers.set {v : CoinsView σ Tree} {ms : List (Uint256 → Bool)}
    (h : RefinesNullifiers B v ms) (nfs : List Uint256) (spent : Bool) :
    RefinesNullifiers B (setNullifiers nfs spent v)
      (onTop (fun m nf => if nf∈nfs then spent else m nf) ms) := by
  cases v with
  | base s =>
    match ms,h.2 with
    | [m],_ => exact h
  | layer c v =>
    obtain ⟨m,a,rest,rfl,-,-,-⟩ := h.2.layer_inv
    refine Caching.Tracks.top (nullifierOk_stable B) h (Caching.Fills.refl _ _) fun nf => ?_
    dsimp only
    rw [setNullifiersLoop_lookup]
    by_cases hmem : nf∈nfs
    · rw [if_pos hmem,if_pos hmem]
      refine .inr ⟨fun e he => ?_,rfl⟩
      obtain rfl := Option.some.inj he
      intro hd
      simp at hd
    · rw [if_neg hmem,if_neg hmem]
      exact .inl ⟨rfl,rfl⟩

/-- One key of `BatchWriteNullifiers`. -/
theorem mergeNullifier_merges :
    (nullifierCaching B).Merges (NullifierOk B) (fun _ shown spent => shown=spent : Uint256 → Bool →
      Bool → Prop) mergeNullifier := by
  intro p w nf e b he hp _
  cases hpk : p.lookup nf with
  | none =>
    have hbelow : (nullifierCaching B).valueAt (layer p w) nf=(nullifierCaching B).valueAt w nf :=
      (nullifierCaching B).valueAt_none hpk
    cases hd : e.dirty with
    | false =>
      refine ⟨none,by simp [mergeNullifier,hd],fun e' h => by simp at h,fun a ha => ?_⟩
      exact (hbelow.symm.trans (he hd)).trans ha
    | true =>
      refine ⟨some ⟨e.entered,true⟩,by simp [mergeNullifier,hd],fun e' h => ?_,fun a ha => ha⟩
      obtain rfl := Option.some.inj h
      intro h'
      simp at h'
  | some us =>
    have hup : (nullifierCaching B).valueAt (layer p w) nf=us.entered :=
      (nullifierCaching B).valueAt_some hpk
    cases hd : e.dirty && us.entered != e.entered with
    | false =>
      refine ⟨some us,by simp [mergeNullifier,hd],fun e' h => ?_,fun a ha => ?_⟩
      · obtain rfl := Option.some.inj h
        exact hp us hpk
      · have hsame : us.entered=e.entered := by
          cases hdirty : e.dirty with
          | false => exact hup.symm.trans (he hdirty)
          | true => simpa [hdirty] using hd
        exact hsame.trans ha
    | true =>
      refine ⟨some ⟨e.entered,true⟩,by simp [mergeNullifier,hd],fun e' h => ?_,fun a ha => ha⟩
      obtain rfl := Option.some.inj h
      intro h'
      simp at h'

end Steps

end Zdeex.Coins
