import Zdeex.Coins.Db

namespace Zdeex.Coins

open Zdeex.Framework
open LayerStack (base layer)

/-- A cached hash is used unless it is null, which means "ask below". -/
def ownOr (own below : Uint256) : Uint256 := if own.isNull then below else own

/-- Copying the child's hash `c` over the parent's hash `p`, null or not, keeps
the answer exactly in these cases. -/
theorem ownOr_overwrite_iff (c p b : Uint256) :
    ownOr c b=ownOr c (ownOr p b) ↔ c≠0 ∨ p=0 ∨ p=b := by
  unfold ownOr
  simp only [Uint256.isNull_iff]
  by_cases hc : c=0
  · rw [if_pos hc,if_pos hc]
    by_cases hp : p=0
    · simp [hp]
    · rw [if_neg hp]
      constructor
      · intro h
        exact .inr (.inr h.symm)
      · rintro (h | h | h)
        · exact absurd hc h
        · exact absurd h hp
        · exact h.symm
  · rw [if_neg hc,if_neg hc]
    exact ⟨fun _ => .inl hc,fun _ => rfl⟩

section Getters

variable {σ Tree : Type} (B : BaseOps σ Tree)

theorem getBestBlock_layer (c : CCoinsViewCache Tree) (v : CoinsView σ Tree) :
    (getBestBlock B (layer c v)).1=ownOr c.hashBlock (getBestBlock B v).1 := by
  cases h : c.hashBlock.isNull <;> simp [getBestBlock,ownOr,h]

theorem getBestAnchor_layer (c : CCoinsViewCache Tree) (v : CoinsView σ Tree) :
    (getBestAnchor B .sapling (layer c v)).1=
      ownOr c.hashSaplingAnchor (getBestAnchor B .sapling v).1 := by
  cases h : c.hashSaplingAnchor.isNull <;> simp [getBestAnchor,ownOr,h]

end Getters

section Flush

variable {σ Tree : Type} (E : TreeEnv Tree) (B : BaseOps σ Tree)

/-- A child is created on the cache `p₀`, any operations are run, and the child
`c` is flushed into its parent `p`: the parent then answers as the child did
exactly when the child holds a hash of its own, or the parent holds none, or the
parent's hash is also the answer from below it. -/
theorem flush_keeps_best_iff (p₀ : CCoinsViewCache Tree) (w₀ : CoinsView σ Tree)
    (ops : List (Op Tree)) (c p : CCoinsViewCache Tree) (w : CoinsView σ Tree)
    (hrun : run (step E B) ops (layer CCoinsViewCache.new (layer p₀ w₀))=some (layer c (layer p w)))
    (c' : CCoinsViewCache Tree) (parent : CoinsView σ Tree)
    (hflush : run (step E B) (ops++[.flush]) (layer CCoinsViewCache.new (layer p₀ w₀))=
      some (layer c' parent)) :
    ((getBestBlock B parent).1=(getBestBlock B (layer c (layer p w))).1 ∧
      (getBestAnchor B .sapling parent).1=
        (getBestAnchor B .sapling (layer c (layer p w))).1) ↔
    (c.hashBlock≠0 ∨ p.hashBlock=0 ∨ p.hashBlock=(getBestBlock B w).1) ∧
    (c.hashSaplingAnchor≠0 ∨ p.hashSaplingAnchor=0 ∨
      p.hashSaplingAnchor=(getBestAnchor B .sapling w).1) := by
  have hparent : ∃p',p.batchWrite E c=some p' ∧ parent=layer p' w := by
    rw [run_append,hrun] at hflush
    simp only [Option.bind_some,run,step,flush,batchWrite,Option.map_map,Option.bind_fun_some]
      at hflush
    obtain ⟨p',hp',heq⟩ := Option.map_eq_some_iff.mp hflush
    simp only [Function.comp_apply,LayerStack.layer.injEq] at heq
    exact ⟨p',hp',heq.2.symm⟩
  obtain ⟨p',hp',rfl⟩ := hparent
  obtain ⟨-,-,hblock,hanchor⟩ := CCoinsViewCache.batchWrite_inv hp'
  rw [getBestBlock_layer,getBestBlock_layer,getBestBlock_layer,getBestAnchor_layer,
    getBestAnchor_layer,getBestAnchor_layer,hblock,hanchor]
  exact and_congr (ownOr_overwrite_iff _ _ _) (ownOr_overwrite_iff _ _ _)

end Flush

/-- The parent holds a best block that is not flushed yet. -/
def pendingParent : CCoinsViewCache Unit := {CCoinsViewCache.new with hashBlock := 5}

/-- A child that reads both hashes first can be flushed. -/
theorem flush_keeps_best_iff_reader :
    ∃c p w c' parent,
      run (step bareEnv (CCoinsViewDB.ops bareEnv)) [.getBestBlock,.getBestAnchor .sapling]
        (layer CCoinsViewCache.new (layer pendingParent (base CCoinsViewDB.new)))=
          some (layer c (layer p w)) ∧
      run (step bareEnv (CCoinsViewDB.ops bareEnv))
        ([.getBestBlock,.getBestAnchor .sapling]++[.flush])
        (layer CCoinsViewCache.new (layer pendingParent (base CCoinsViewDB.new)))=
          some (layer c' parent) ∧
      (getBestBlock (CCoinsViewDB.ops bareEnv) parent).1=5 ∧
      (getBestBlock (CCoinsViewDB.ops bareEnv) parent).1=
        (getBestBlock (CCoinsViewDB.ops bareEnv) (layer c (layer p w))).1 := by
  refine ⟨_,_,_,_,_,rfl,rfl,rfl,?_⟩
  exact ((flush_keeps_best_iff bareEnv (CCoinsViewDB.ops bareEnv) pendingParent
    (base CCoinsViewDB.new) [.getBestBlock,.getBestAnchor .sapling] _ _ _ rfl _ _ rfl).mpr
    ⟨.inl (by decide),.inl (by decide)⟩).1

/-- A child that did nothing at all wipes the parent's best block. -/
theorem untouched_child_flush_loses_bestBlock :
    ∃c parent,
      run (step bareEnv (CCoinsViewDB.ops bareEnv)) [.flush]
        (layer CCoinsViewCache.new (layer pendingParent (base CCoinsViewDB.new)))=
          some (layer c parent) ∧
      (getBestBlock (CCoinsViewDB.ops bareEnv)
        (layer CCoinsViewCache.new (layer pendingParent (base CCoinsViewDB.new)))).1=5 ∧
      (getBestBlock (CCoinsViewDB.ops bareEnv) parent).1=0 := by
  exact ⟨_,_,rfl,rfl,rfl⟩

end Zdeex.Coins
