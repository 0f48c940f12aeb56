import Mathlib.Data.List.Forall2
import Mathlib.Data.List.Nodup
import Mathlib.Logic.Equiv.Basic
import Mathlib.Tactic.Common

namespace Zdeex.Framework

variable {α ι : Type}

/-- Every request gets a free slot of its own that fits it. -/
def Matched (fits : α → ι → Prop) (free : ι → Prop) (requests : List α) : Prop :=
  ∃slots : List ι,slots.Nodup ∧ (∀i∈slots,free i) ∧ List.Forall₂ fits requests slots

namespace Matched

variable {fits : α → ι → Prop} {free : ι → Prop} {x : α} {requests : List α}

theorem nil : Matched fits free [] := ⟨[],List.nodup_nil,by simp,List.Forall₂.nil⟩

/-- A slot that has been taken is given back to the rest. -/
theorem cons {i : ι} (hfree : free i) (hfits : fits x i)
    (h : Matched fits (fun j => free j ∧ j≠i) requests) : Matched fits free (x::requests) := by
  obtain ⟨slots,hnodup,hslots,hall⟩ := h
  refine ⟨i::slots,List.nodup_cons.mpr ⟨fun hi => (hslots i hi).2 rfl,hnodup⟩,?_,
    List.Forall₂.cons hfits hall⟩
  intro j hj
  rcases List.mem_cons.mp hj with rfl | hj
  · exact hfree
  · exact (hslots j hj).1

theorem exists_slot (h : Matched fits free (x::requests)) : ∃i,free i ∧ fits x i := by
  obtain ⟨slots,-,hslots,hall⟩ := h
  cases hall with
  | cons hfits _ => exact ⟨_,hslots _ List.mem_cons_self,hfits⟩

/-- It does not matter which of the slots that fit a request is taken, as long as they
fit the same requests: in the rest of a matching the two are exchanged. -/
theorem cons_iff [DecidableEq ι] {i : ι} (hfree : free i) (hfits : fits x i)
    (hsame : ∀j,fits x j → ∀y,fits y j ↔ fits y i) :
    Matched fits free (x::requests) ↔ Matched fits (fun j => free j ∧ j≠i) requests := by
  refine ⟨?_,cons hfree hfits⟩
  rintro ⟨slots,hnodup,hslots,hall⟩
  cases hall with
  | @cons _ j _ rest hfirst hrest =>
    obtain ⟨hj,hnodup⟩ := List.nodup_cons.mp hnodup
    have hexchange : ∀y k,fits y k → fits y (Equiv.swap i j k) := by
      intro y k hk
      rcases eq_or_ne k i with rfl | hi
      · rw [Equiv.swap_apply_left]
        exact (hsame j hfirst y).mpr hk
      · rcases eq_or_ne k j with rfl | hkj
        · rw [Equiv.swap_apply_right]
          exact (hsame k hfirst y).mp hk
        · rwa [Equiv.swap_apply_of_ne_of_ne hi hkj]
    refine ⟨rest.map (Equiv.swap i j),hnodup.map (Equiv.swap i j).injective,?_,?_⟩
    · intro k hk
      obtain ⟨l,hl,rfl⟩ := List.mem_map.mp hk
      have hlj : l≠j := fun heq => hj (heq ▸ hl)
      rcases eq_or_ne l i with rfl | hli
      · rw [Equiv.swap_apply_left]
        exact ⟨hslots j List.mem_cons_self,hlj.symm⟩
      · rw [Equiv.swap_apply_of_ne_of_ne hli hlj]
        exact ⟨hslots l (List.mem_cons_of_mem j hl),hli⟩
    · rw [List.forall₂_map_right_iff]
      exact hrest.imp hexchange

end Matched

end Zdeex.Framework
