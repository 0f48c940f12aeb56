import Mathlib.Tactic.Common

namespace Zdeex.Framework

variable {ε α β : Type}

/-- Fails with a reason when the condition holds. -/
def reject (c : Prop) [Decidable c] (reason : ε) : Except ε Unit :=
  if c then .error reason else .ok ()

/-- A value that must be there. -/
def expect (o : Option α) (reason : ε) : Except ε α :=
  match o with
  | none => .error reason
  | some a => .ok a

/-- The same checks for every item, in order. -/
def checkAll (check : α → Except ε Unit) : List α → Except ε Unit
  | [] => .ok ()
  | a::as => do
      check a
      checkAll check as

theorem bind_ok {x : Except ε α} {f : α → Except ε β} {b : β} :
    (x>>=f)=.ok b ↔ ∃a,x=.ok a ∧ f a=.ok b := by
  cases x with
  | error e => simp [Bind.bind,Except.bind]
  | ok a => simp [Bind.bind,Except.bind]

theorem pure_ok {a b : α} : (pure a : Except ε α)=.ok b ↔ a=b := by
  exact ⟨fun h => Except.ok.inj h,fun h => congrArg Except.ok h⟩

theorem reject_ok {c : Prop} [Decidable c] {reason : ε} {u : Unit} :
    reject c reason=.ok u ↔ ¬c := by
  by_cases hc : c <;> simp [reject,hc]

theorem expect_ok {o : Option α} {reason : ε} {a : α} : expect o reason=.ok a ↔ o=some a := by
  cases o <;> simp [expect]

theorem checkAll_ok {check : α → Except ε Unit} {as : List α} {u : Unit} :
    checkAll check as=.ok u ↔ ∀a∈as,check a=.ok () := by
  induction as with
  | nil => simp [checkAll]
  | cons a as ih =>
    rw [checkAll,bind_ok,List.forall_mem_cons]
    constructor
    · rintro ⟨⟨⟩,ha,hrest⟩
      exact ⟨ha,ih.mp hrest⟩
    · rintro ⟨ha,hrest⟩
      exact ⟨(),ha,ih.mpr hrest⟩

end Zdeex.Framework
