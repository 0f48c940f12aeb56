namespace Zdeex.Framework

variable {S : Type} {step : S → S → Prop} {P I : S → Prop}

/-- However the steps fall, a state with `P` is met, and until then there always is a step. -/
inductive Inevitably (step : S → S → Prop) (P : S → Prop) : S → Prop
  | now {s : S} : P s → Inevitably step P s
  | later {s : S} : (∃s',step s s') → (∀s',step s s' → Inevitably step P s') → Inevitably step P s

/-- The rule for a measure that every step takes something off. -/
theorem Inevitably.of_measure (measure : S → Nat) (hprogress : ∀s,I s → ¬P s → ∃s',step s s')
    (hstep : ∀s s',I s → ¬P s → step s s' → I s' ∧ measure s' < measure s) {s : S} (hI : I s) :
    Inevitably step P s := by
  induction hn : measure s using Nat.strongRecOn generalizing s with
  | ind n ih =>
    by_cases hP : P s
    · exact .now hP
    · refine .later (hprogress s hI hP) fun s' hs' => ?_
      obtain ⟨hI',hlt⟩ := hstep s s' hI hP hs'
      exact ih (measure s') (hn▸hlt) hI' rfl

end Zdeex.Framework
