import Mathlib.Data.List.Nodup
import Mathlib.Data.List.Perm.Subperm
import Mathlib.Order.Lattice
import Mathlib.Tactic.Common

namespace Zdeex.Framework.OrderedMap

variable {K V : Type} [LinearOrder K]

/-- A pair whose key is already there is not inserted. -/
def insertNew (k : K) (v : V) : List (K × V) → List (K × V)
  | [] => [(k,v)]
  | e::m =>
    if k<e.1 then (k,v)::e::m
    else if e.1<k then e::insertNew k v m
    else e::m

/-- Keys in order, each once. -/
def Sorted (m : List (K × V)) : Prop := m.Pairwise fun a b => a.1<b.1

theorem mem_insertNew {k : K} {v : V} {m : List (K × V)} {e : K × V}
    (h : e∈insertNew k v m) : e=(k,v) ∨ e∈m := by
  induction m with
  | nil => exact Or.inl (List.mem_singleton.mp h)
  | cons a m ih =>
    rw [insertNew] at h
    split_ifs at h
    · exact List.mem_cons.mp h
    · rcases List.mem_cons.mp h with rfl | h
      · exact Or.inr List.mem_cons_self
      · rcases ih h with heq | hmem
        · exact Or.inl heq
        · exact Or.inr (List.mem_cons_of_mem _ hmem)
    · exact Or.inr h

theorem mem_of_lookup {k : K} {v : V} {m : List (K × V)}
    (h : m.lookup k=some v) : (k,v)∈m := by
  obtain ⟨l₁,l₂,rfl,-⟩ := List.lookup_eq_some_iff.mp h
  simp

theorem sorted_insertNew (k : K) (v : V) {m : List (K × V)} (hm : Sorted m) :
    Sorted (insertNew k v m) := by
  induction m with
  | nil => exact List.pairwise_singleton _ _
  | cons a m ih =>
    obtain ⟨hhead,htail⟩ := List.pairwise_cons.mp hm
    rw [insertNew]
    split_ifs with hlt hgt
    · refine List.pairwise_cons.mpr ⟨fun b hb => ?_,hm⟩
      rcases List.mem_cons.mp hb with rfl | hb
      · exact hlt
      · exact lt_trans hlt (hhead b hb)
    · refine List.pairwise_cons.mpr ⟨fun b hb => ?_,ih htail⟩
      rcases mem_insertNew hb with rfl | hb
      · exact hgt
      · exact hhead b hb
    · exact hm

theorem insertNew_ne_nil (k : K) (v : V) (m : List (K × V)) : insertNew k v m≠[] := by
  cases m with
  | nil => exact List.cons_ne_nil _ _
  | cons a m =>
    rw [insertNew]
    split_ifs <;> exact List.cons_ne_nil _ _

/-- At most the pair is added. -/
theorem insertNew_subperm (k : K) (v : V) (m : List (K × V)) :
    (insertNew k v m).Subperm ((k,v)::m) := by
  induction m with
  | nil => exact (List.Perm.refl _).subperm
  | cons a m ih =>
    rw [insertNew]
    split_ifs
    · exact (List.Perm.refl _).subperm
    · exact ((List.subperm_cons a).mpr ih).trans (List.Perm.swap _ _ _).subperm
    · exact (List.sublist_cons_self _ _).subperm

/-- A pair with a new key is added. -/
theorem insertNew_perm {k : K} (v : V) {m : List (K × V)} (hnew : ∀e∈m,e.1≠k) :
    (insertNew k v m).Perm ((k,v)::m) := by
  induction m with
  | nil => exact List.Perm.refl _
  | cons a m ih =>
    rw [List.forall_mem_cons] at hnew
    rw [insertNew]
    split_ifs with hlt hgt
    · exact List.Perm.refl _
    · exact ((ih hnew.2).cons a).trans (List.Perm.swap _ _ _)
    · exact absurd (le_antisymm (not_lt.mp hlt) (not_lt.mp hgt)) hnew.1

/-- Where keys are distinct, the search for a key finds its item. -/
theorem find_key {T Q : Type} [DecidableEq Q] (key : T → Q) {l : List T}
    (hnodup : (l.map key).Nodup) {a : T} (ha : a∈l) :
    (l.find? fun b => key b == key a)=some a := by
  cases hfind : l.find? fun b => key b == key a with
  | none =>
    have hno := List.find?_eq_none.mp hfind a ha
    simp at hno
  | some b =>
    have hkey : key b=key a := by simpa using List.find?_some hfind
    rw [List.inj_on_of_nodup_map hnodup (List.mem_of_find?_eq_some hfind) ha hkey]

end Zdeex.Framework.OrderedMap
