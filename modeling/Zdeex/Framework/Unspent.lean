import Mathlib.Algebra.BigOperators.Group.Finset.Piecewise
import Mathlib.Algebra.Order.BigOperators.Group.Finset
import Mathlib.Algebra.Order.Group.Int
import Mathlib.Data.Finset.SDiff
import Mathlib.Tactic.Common

namespace Zdeex.Framework

variable {K M : Type} [DecidableEq K]

/-- A transfer takes items out of a pool and puts others in. -/
structure Transfer (K : Type) where
  spent : Finset K
  created : Finset K

/-- What is in the pool after transfers, the last one first. -/
def unspent : List (Transfer K) → Finset K
  | [] => ∅
  | t::ts => (unspent ts\t.spent)∪t.created

/-- The value of the pool goes up by what is created and down by what is spent. -/
theorem sum_unspent_le {f : K → Int} (hf : ∀k,0≤f k) (t : Transfer K) (ts : List (Transfer K)) :
    ∑k∈unspent (t::ts),f k+∑k∈unspent ts∩t.spent,f k≤∑k∈unspent ts,f k+∑k∈t.created,f k := by
  have hunion : ∑k∈unspent (t::ts),f k≤∑k∈unspent ts\t.spent,f k+∑k∈t.created,f k := by
    have hadd : ∑k∈(unspent ts\t.spent)∪t.created,f k+∑k∈(unspent ts\t.spent)∩t.created,f k=
        ∑k∈unspent ts\t.spent,f k+∑k∈t.created,f k := Finset.sum_union_inter
    have hinter : 0≤∑k∈(unspent ts\t.spent)∩t.created,f k := Finset.sum_nonneg fun k _ => hf k
    rw [unspent]
    omega
  have hsplit : ∑k∈unspent ts\t.spent,f k+∑k∈unspent ts∩t.spent,f k=∑k∈unspent ts,f k := by
    rw [add_comm]
    exact Finset.sum_inter_add_sum_sdiff (unspent ts) t.spent f
  omega

/-- Where every transfer creates at most what it spends, except for one that creates
`supply` at most, the pool is never worth more than `supply`. -/
theorem sum_unspent_le_supply {f : K → Int} (hf : ∀k,0≤f k) {supply : Int} (hsupply : 0 ≤ supply)
    (move : M → Transfer K) (mint : M → Prop) (ms : List M)
    (hkeep : ∀m before,m::before <:+ ms → ¬mint m →
      ∑k∈(move m).created,f k≤∑k∈unspent (before.map move)∩(move m).spent,f k)
    (hmint : ∀m before,m::before <:+ ms → mint m →
      ∑k∈(move m).created,f k ≤ supply ∧ ∀m'∈before,¬mint m') :
    ∑k∈unspent (ms.map move),f k ≤ supply ∧
      ((∀m∈ms,¬mint m) → ∑k∈unspent (ms.map move),f k≤0) := by
  induction ms with
  | nil => simpa [unspent] using hsupply
  | cons m before ih =>
    have hstep := sum_unspent_le hf (move m) (before.map move)
    have hspent : 0≤∑k∈unspent (before.map move)∩(move m).spent,f k :=
      Finset.sum_nonneg fun k _ => hf k
    obtain ⟨hle,hzero⟩ := ih
      (fun m' b hb => hkeep m' b (hb.trans (List.suffix_cons m before)))
      (fun m' b hb => hmint m' b (hb.trans (List.suffix_cons m before)))
    rw [List.map_cons]
    by_cases hm : mint m
    · obtain ⟨hcreated,hothers⟩ := hmint m before List.suffix_rfl hm
      have hbefore := hzero hothers
      refine ⟨by omega,?_⟩
      intro hnone
      exact absurd hm (hnone m (by simp))
    · have hcreated := hkeep m before List.suffix_rfl hm
      refine ⟨by omega,?_⟩
      intro hnone
      have hbefore := hzero (fun m' hm' => hnone m' (by simp [hm']))
      omega

end Zdeex.Framework
