import Mathlib.Data.List.Forall2
import Mathlib.Tactic.Common

namespace Zdeex.Framework

variable {α β : Type} (fits : α → β → Prop)

/-- Every request gets an offer that fits it, no offer is used twice, and both stand in the
same order. -/
def MatchedInOrder (requests : List α) (offers : List β) : Prop :=
  ∃used : List β,used.Sublist offers ∧ List.Forall₂ fits requests used

namespace MatchedInOrder

variable {fits} {a : α} {b : β} {requests : List α} {offers : List β}

theorem nil (offers : List β) : MatchedInOrder fits [] offers :=
  ⟨[],List.nil_sublist _,List.Forall₂.nil⟩

theorem length_le (h : MatchedInOrder fits requests offers) : requests.length≤offers.length := by
  obtain ⟨used,hsub,hall⟩ := h
  exact hall.length_eq ▸ hsub.length_le

/-- The first offer that fits the first request may be used for it. -/
theorem cons_iff (hfits : fits a b) :
    MatchedInOrder fits (a::requests) (b::offers) ↔ MatchedInOrder fits requests offers := by
  constructor
  · rintro ⟨used,hsub,hall⟩
    cases hall with
    | @cons _ c _ used hac hrest =>
      refine ⟨used,?_,hrest⟩
      cases hsub with
      | cons _ hsub => exact (List.sublist_cons_self c used).trans hsub
      | cons_cons _ hsub => exact hsub
  · rintro ⟨used,hsub,hall⟩
    exact ⟨b::used,hsub.cons_cons b,hall.cons hfits⟩

/-- An offer that does not fit the first request is of no use to the later ones either. -/
theorem skip_iff (hfits : ¬fits a b) :
    MatchedInOrder fits (a::requests) (b::offers) ↔ MatchedInOrder fits (a::requests) offers := by
  constructor
  · rintro ⟨used,hsub,hall⟩
    cases hall with
    | @cons _ c _ used hac hrest =>
      cases hsub with
      | cons _ hsub => exact ⟨c::used,hsub,hrest.cons hac⟩
      | cons_cons _ hsub => exact absurd hac hfits
  · rintro ⟨used,hsub,hall⟩
    exact ⟨used,hsub.cons b,hall⟩

end MatchedInOrder

end Zdeex.Framework
