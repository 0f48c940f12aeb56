import Zdeex.Coins.View

namespace Zdeex.Coins

open Zdeex.Framework
open LayerStack (base layer)

/-! Each method touches some fields of the caches only: a projection `π` that does
not see those fields is unchanged on every layer. -/

section Frames

variable {σ Tree N : Type} (E : TreeEnv Tree) (B : BaseOps σ Tree)
variable {π : CCoinsViewCache Tree → N}

theorem map_updateTop {f : CCoinsViewCache Tree → CCoinsViewCache Tree}
    (hf : ∀c,π (f c)=π c) (v : CoinsView σ Tree) : (updateTop f v).map π=v.map π := by
  cases v with
  | base s => rfl
  | layer c v => simp only [updateTop,LayerStack.map,hf]

theorem map_getCoins
    (hπ : ∀c m u,π {c with cacheCoins := m,cachedCoinsUsage := u}=π c)
    (v : CoinsView σ Tree) (txid : Uint256) : (getCoins E B v txid).2.map π=v.map π := by
  induction v with
  | base s => rfl
  | layer c v ih =>
    cases h : c.cacheCoins.lookup txid with
    | some e => simp [getCoins,h]
    | none =>
      cases hr : getCoins E B v txid with
      | mk x v' =>
        rw [hr] at ih
        cases x with
        | none => simpa [getCoins,h,hr,LayerStack.map] using ih
        | some tmp =>
          simp only [getCoins,h,hr,LayerStack.map,CCoinsViewCache.insertFetched,hπ]
          rw [ih]

theorem map_editCoins
    (hπ : ∀c m u,π {c with cacheCoins := m,cachedCoinsUsage := u}=π c)
    (f : CCoins → CCoins) (txid : Uint256) (v : CoinsView σ Tree) :
    (editCoins E B f txid v).map π=v.map π := by
  cases v with
  | base s => rfl
  | layer c v =>
    have hbelow : (modifyCoins E B c v txid).2.map π=v.map π := by
      have hread := map_getCoins E B hπ v txid
      unfold modifyCoins
      cases h : c.cacheCoins.lookup txid with
      | some e => rfl
      | none =>
        cases hr : getCoins E B v txid with
        | mk x v' =>
          rw [hr] at hread
          cases x <;> exact hread
    have htop : ∀(m : CCoinsModifier) coins,π (m.release E c txid coins)=π c := by
      intro m coins
      unfold CCoinsModifier.release
      dsimp only
      split_ifs <;> exact hπ _ _ _
    simp only [editCoins,LayerStack.map,hbelow,htop]

theorem map_getNullifier (hπ : ∀c m,π {c with cacheSaplingNullifiers := m}=π c)
    (v : CoinsView σ Tree) (nf : Uint256) : (getNullifier B v nf).2.map π=v.map π := by
  induction v with
  | base s => rfl
  | layer c v ih =>
    cases h : c.cacheSaplingNullifiers.lookup nf with
    | some e => simp [getNullifier,h]
    | none => simp [getNullifier,h,LayerStack.map,hπ,ih]

theorem map_getSaplingAnchorAt
    (hπ : ∀c m u,π {c with cacheSaplingAnchors := m,cachedCoinsUsage := u}=π c)
    (v : CoinsView σ Tree) (rt : Uint256) :
    (getSaplingAnchorAt E B v rt).2.map π=v.map π := by
  induction v with
  | base s => rfl
  | layer c v ih =>
    cases h : c.cacheSaplingAnchors.lookup rt with
    | some e => simp [getSaplingAnchorAt,h]
    | none =>
      cases hr : getSaplingAnchorAt E B v rt with
      | mk x v' =>
        rw [hr] at ih
        cases x with
        | none => simpa [getSaplingAnchorAt,h,hr,LayerStack.map] using ih
        | some tree =>
          simp only [getSaplingAnchorAt,h,hr,LayerStack.map,hπ]
          rw [ih]

theorem map_getBestBlock (hπ : ∀c h,π {c with hashBlock := h}=π c) (v : CoinsView σ Tree) :
    (getBestBlock B v).2.map π=v.map π := by
  induction v with
  | base s => rfl
  | layer c v ih =>
    cases h : c.hashBlock.isNull with
    | false => simp [getBestBlock,h]
    | true => simp [getBestBlock,h,LayerStack.map,hπ,ih]

theorem map_getBestAnchor_sprout (hπ : ∀c h,π {c with hashSproutAnchor := h}=π c)
    (v : CoinsView σ Tree) : (getBestAnchor B .sprout v).2.map π=v.map π := by
  induction v with
  | base s => rfl
  | layer c v ih =>
    cases h : c.hashSproutAnchor.isNull with
    | false => simp [getBestAnchor,h]
    | true => simp [getBestAnchor,h,LayerStack.map,hπ,ih]

theorem map_getBestAnchor_sapling (hπ : ∀c h,π {c with hashSaplingAnchor := h}=π c)
    (v : CoinsView σ Tree) : (getBestAnchor B .sapling v).2.map π=v.map π := by
  induction v with
  | base s => rfl
  | layer c v ih =>
    cases h : c.hashSaplingAnchor.isNull with
    | false => simp [getBestAnchor,h]
    | true => simp [getBestAnchor,h,LayerStack.map,hπ,ih]

end Frames

end Zdeex.Coins
