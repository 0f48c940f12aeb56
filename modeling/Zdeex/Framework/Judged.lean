import Mathlib.Tactic.Common

namespace Zdeex.Framework

/-- A computation that may record a reason for refusal on its way; `none` says
that nothing was recorded so far. -/
abbrev Judged (α : Type) := StateM (Option String) α

section Steps

variable {α β : Type}

/-- Records a reason, over an earlier one, and gives the answer that stands for no. -/
def refuse (no : β) (reason : String) : Judged β := fun _ => (no,some reason)

/-- Refuses when the condition holds, else goes on. -/
def refuseWhen (no : β) (c : Prop) [Decidable c] (reason : String) (next : Judged β) : Judged β :=
  if c then refuse no reason else next

/-- Goes on with the value that was found; without one nothing more is recorded. -/
def whenSome (no : β) (m : Judged (Option α)) (f : α → Judged β) : Judged β := fun s =>
  match m s with
  | (none,s) => (no,s)
  | (some a,s) => f a s

/-- The verdicts of a validator. -/
abbrev invalid : String → Judged Bool := refuse false

abbrev refuseIf (c : Prop) [Decidable c] : String → Judged Bool → Judged Bool := refuseWhen false c

/-- The same where a value is returned. -/
abbrev fails : String → Judged (Option α) := refuse none

abbrev failIf (c : Prop) [Decidable c] : String → Judged (Option α) → Judged (Option α) :=
  refuseWhen none c

end Steps

section Rules

variable {α β : Type} {c : Prop} [Decidable c] {reason : String} {no b : β} {s : Option String}

theorem judged_bind (x : Judged α) (f : α → Judged β) (s : Option String) :
    (x>>=f) s=f (x s).1 (x s).2 := rfl

theorem judged_pure (b : β) (s : Option String) : (pure b : Judged β) s=(b,s) := rfl

theorem refuseIf_neg {next : Judged Bool} (hc : ¬c) : refuseIf c reason next=next := if_neg hc

theorem refuseWhen_fst {next : Judged β} (hb : b≠no) :
    (refuseWhen no c reason next s).1=b ↔ ¬c ∧ (next s).1=b := by
  by_cases hc : c
  · simp [refuseWhen,refuse,hc,Ne.symm hb]
  · simp [refuseWhen,hc]

theorem refuseIf_true {next : Judged Bool} :
    (refuseIf c reason next s).1=true ↔ ¬c ∧ (next s).1=true :=
  refuseWhen_fst (by decide)

theorem failIf_some {next : Judged (Option α)} {a : α} :
    (failIf c reason next s).1=some a ↔ ¬c ∧ (next s).1=some a :=
  refuseWhen_fst (by simp)

theorem whenSome_fst {m : Judged (Option α)} {f : α → Judged β} (hb : b≠no) :
    (whenSome no m f s).1=b ↔ ∃a,(m s).1=some a ∧ (f a (m s).2).1=b := by
  unfold whenSome
  rcases hm : m s with ⟨_ | a,t⟩
  · simp [Ne.symm hb]
  · simp

theorem whenSome_true {m : Judged (Option α)} {f : α → Judged Bool} :
    (whenSome false m f s).1=true ↔ ∃a,(m s).1=some a ∧ (f a (m s).2).1=true :=
  whenSome_fst (by decide)

theorem whenSome_some {m : Judged (Option α)} {f : α → Judged (Option β)} :
    (whenSome none m f s).1=some b ↔ ∃a,(m s).1=some a ∧ (f a (m s).2).1=some b :=
  whenSome_fst (by simp)

end Rules

/-- Every refusal has been recorded. -/
def Recorded {β : Type} (no : β) (m : Judged β) : Prop := ∀s,(m s).1=no → (m s).2≠none

/-- Nothing is recorded by a computation that does not refuse. -/
def Silent {β : Type} (no : β) (m : Judged β) : Prop := ∀s,(m s).1≠no → (m s).2=s

section Records

variable {α β : Type} {c : Prop} [Decidable c] {reason : String} {no b : β} {next m : Judged β}

theorem Recorded.refuse : Recorded no (refuse no reason) := by
  intro s _
  simp [Framework.refuse]

theorem Recorded.pure (h : b≠no) : Recorded no (pure b) := by
  intro s hs
  exact absurd hs h

theorem Recorded.refuseWhen (h : Recorded no next) : Recorded no (refuseWhen no c reason next) := by
  intro s hs
  by_cases hc : c
  · simp [Framework.refuseWhen,hc,Framework.refuse]
  · simp only [Framework.refuseWhen,hc,if_false] at hs ⊢
    exact h s hs

theorem Recorded.ite (hm : Recorded no m) (hn : Recorded no next) :
    Recorded no (if c then m else next) := by
  by_cases hc : c <;> simp only [hc,if_true,if_false]
  · exact hm
  · exact hn

/-- What comes after a computation of another type decides. -/
theorem Recorded.bind {x : Judged α} {f : α → Judged β} (h : ∀a,Recorded no (f a)) :
    Recorded no (x>>=f) := by
  intro s hs
  exact h (x s).1 (x s).2 hs

theorem Recorded.whenSome {x : Judged (Option α)} {f : α → Judged β} (hx : Recorded none x)
    (h : ∀a,Recorded no (f a)) : Recorded no (whenSome no x f) := by
  intro s hs
  unfold Framework.whenSome at hs ⊢
  have hnone := hx s
  rcases hm : x s with ⟨_ | a,t⟩
  · rw [hm] at hnone
    exact hnone rfl
  · rw [hm] at hs
    exact h a t hs

theorem Silent.refuse : Silent no (refuse no reason) := by
  intro s h
  exact absurd rfl h

theorem Silent.pure : Silent no (pure b) := by
  intro s _
  rfl

theorem Silent.refuseWhen (h : Silent no next) : Silent no (refuseWhen no c reason next) := by
  intro s hs
  by_cases hc : c
  · exact absurd (by simp [Framework.refuseWhen,hc,Framework.refuse]) hs
  · simp only [Framework.refuseWhen,hc,if_false] at hs ⊢
    exact h s hs

theorem Silent.ite (hm : Silent no m) (hn : Silent no next) :
    Silent no (if c then m else next) := by
  by_cases hc : c <;> simp only [hc,if_true,if_false]
  · exact hm
  · exact hn

theorem Silent.whenSome {x : Judged (Option α)} {f : α → Judged β} (hx : Silent none x)
    (h : ∀a,Silent no (f a)) : Silent no (whenSome no x f) := by
  intro s hs
  unfold Framework.whenSome at hs ⊢
  have hsome := hx s
  rcases hm : x s with ⟨_ | a,t⟩
  · rw [hm] at hs
    exact absurd rfl hs
  · rw [hm] at hs hsome
    have ht : t=s := hsome (by simp)
    rw [← ht]
    exact h a t hs

/-- What is recorded tells whether a computation refuses. -/
structure Honest (no : β) (m : Judged β) : Prop where
  recorded : Recorded no m
  silent : Silent no m

theorem Honest.refuse : Honest no (refuse no reason) := ⟨.refuse,.refuse⟩

theorem Honest.pure (h : b≠no) : Honest no (pure b) := ⟨.pure h,.pure⟩

theorem Honest.refuseWhen (h : Honest no next) : Honest no (refuseWhen no c reason next) :=
  ⟨h.recorded.refuseWhen,h.silent.refuseWhen⟩

theorem Honest.ite (hm : Honest no m) (hn : Honest no next) : Honest no (if c then m else next) :=
  ⟨hm.recorded.ite hn.recorded,hm.silent.ite hn.silent⟩

theorem Honest.whenSome {x : Judged (Option α)} {f : α → Judged β} (hx : Honest none x)
    (h : ∀a,Honest no (f a)) : Honest no (whenSome no x f) :=
  ⟨.whenSome hx.recorded fun a => (h a).recorded,.whenSome hx.silent fun a => (h a).silent⟩

end Records

/-- Two computations that record the same and find related values. -/
def Matches {α β : Type} (R : α → β → Prop) (m : Judged (Option α)) (m' : Judged (Option β)) : Prop :=
  ∀s,(m s).2=(m' s).2 ∧ Option.Rel R (m s).1 (m' s).1

section Related

variable {α β γ δ : Type} {R : α → β → Prop} {S : γ → δ → Prop} {m : Judged (Option α)}
  {m' : Judged (Option β)} {c : Prop} [Decidable c] {reason : String}

theorem Matches.fails : Matches R (fails reason) (fails reason) := by
  intro s
  exact ⟨rfl,.none⟩

theorem Matches.some {a : α} {b : β} (h : R a b) : Matches R (pure (some a)) (pure (some b)) := by
  intro s
  exact ⟨rfl,.some h⟩

theorem Matches.failIf (h : Matches R m m') : Matches R (failIf c reason m) (failIf c reason m') := by
  by_cases hc : c
  · simp only [Framework.failIf,refuseWhen,hc,if_true]
    exact Matches.fails
  · simp only [Framework.failIf,refuseWhen,hc,if_false]
    exact h

theorem Matches.whenSome {f : α → Judged (Option γ)} {g : β → Judged (Option δ)}
    (h : Matches R m m') (hf : ∀a b,R a b → Matches S (f a) (g b)) :
    Matches S (whenSome none m f) (whenSome none m' g) := by
  intro s
  obtain ⟨hstate,hvalue⟩ := h s
  unfold Framework.whenSome
  rcases hm : m s with ⟨a,t⟩
  rcases hm' : m' s with ⟨b,t'⟩
  rw [hm,hm'] at hstate hvalue
  obtain rfl : t=t' := hstate
  cases hvalue with
  | none => exact ⟨rfl,.none⟩
  | some hab => exact hf _ _ hab t

/-- What follows does not see the difference. -/
theorem Matches.whenSome_eq {no : γ} {f : α → Judged γ} {g : β → Judged γ} (h : Matches R m m')
    (hf : ∀a b,R a b → f a=g b) : Framework.whenSome no m f=Framework.whenSome no m' g := by
  funext s
  obtain ⟨hstate,hvalue⟩ := h s
  unfold Framework.whenSome
  rcases hm : m s with ⟨a,t⟩
  rcases hm' : m' s with ⟨b,t'⟩
  rw [hm,hm'] at hstate hvalue
  obtain rfl : t=t' := hstate
  cases hvalue with
  | none => rfl
  | some hab => exact congrFun (hf _ _ hab) t

end Related

end Zdeex.Framework
