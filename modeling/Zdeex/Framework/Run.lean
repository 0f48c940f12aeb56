import Mathlib.Data.List.Basic

namespace Zdeex.Framework

variable {S O A : Type}

/-- Runs operations from left to right; `none` is a failed assertion. -/
def run (step : S → O → Option S) : List O → S → Option S
  | [],s => some s
  | o::os,s => (step s o).bind (run step os)

/-- Runs of a specification given as a step relation. -/
inductive SpecRun (spec : A → O → A → Prop) : A → List O → A → Prop
  | nil (a : A) : SpecRun spec a [] a
  | cons {a b c : A} {o : O} {os : List O} :
      spec a o b → SpecRun spec b os c → SpecRun spec a (o::os) c

theorem run_append (step : S → O → Option S) (xs ys : List O) (s : S) :
    run step (xs++ys) s=(run step xs s).bind (run step ys) := by
  induction xs generalizing s with
  | nil => rfl
  | cons x xs ih =>
    cases h : step s x with
    | none => simp [run,h]
    | some t => simpa [run,h] using ih t

theorem SpecRun.foldl {f : A → O → A} {a b : A} {os : List O}
    (h : SpecRun (fun a o b => b=f a o) a os b) : os.foldl f a=b := by
  induction h with
  | nil a => rfl
  | cons hstep _ ih =>
    subst hstep
    exact ih

/-- Forward simulation: the implementation moves first and the specification
can follow every operation that `P` admits. -/
theorem run_simulates {step : S → O → Option S} {spec : A → O → A → Prop}
    {R : S → A → Prop} {P : O → Prop}
    (hstep : ∀s a o,P o → R s a → ∃s' a',step s o=some s' ∧ spec a o a' ∧ R s' a')
    (os : List O) (hos : ∀o∈os,P o) (s : S) (a : A) (hR : R s a) :
    ∃s' a',run step os s=some s' ∧ SpecRun spec a os a' ∧ R s' a' := by
  induction os generalizing s a with
  | nil => exact ⟨s,a,rfl,.nil a,hR⟩
  | cons o os ih =>
    obtain ⟨s₁,a₁,h₁,hspec,hR₁⟩ := hstep s a o (hos o (by simp)) hR
    obtain ⟨s₂,a₂,h₂,hrun,hR₂⟩ := ih (fun p hp => hos p (by simp [hp])) s₁ a₁ hR₁
    exact ⟨s₂,a₂,by simpa [run,h₁] using h₂,.cons hspec hrun,hR₂⟩

/-- Every operation of a run is admitted by the state it meets. -/
def Guarded (step : S → O → Option S) (guard : S → O → Prop) : List O → S → Prop
  | [],_ => True
  | o::os,s => guard s o ∧ ∀s',step s o=some s' → Guarded step guard os s'

instance Guarded.decidable (step : S → O → Option S) (guard : S → O → Prop)
    [∀s o,Decidable (guard s o)] : (os : List O) → (s : S) → Decidable (Guarded step guard os s)
  | [],_ => isTrue trivial
  | o::os,s =>
      have : Decidable (∀s',step s o=some s' → Guarded step guard os s') :=
        match h : step s o with
        | none => isTrue (fun _ hs' => nomatch hs')
        | some s₁ =>
            have := Guarded.decidable step guard os s₁
            decidable_of_iff (Guarded step guard os s₁) (by simp)
      inferInstanceAs (Decidable (guard s o ∧ ∀s',step s o=some s' → Guarded step guard os s'))

theorem Guarded.append {step : S → O → Option S} {guard : S → O → Prop} {xs ys : List O} {s t : S}
    (h : Guarded step guard (xs++ys) s) (ht : run step xs s=some t) :
    Guarded step guard xs s ∧ Guarded step guard ys t := by
  induction xs generalizing s with
  | nil =>
    obtain rfl := Option.some.inj ht
    exact ⟨trivial,h⟩
  | cons x xs ih =>
    obtain ⟨s₁,h₁,hrest⟩ := Option.bind_eq_some_iff.mp ht
    refine ⟨⟨h.1,fun s' hs' => ?_⟩,(ih (h.2 s₁ h₁) hrest).2⟩
    obtain rfl := Option.some.inj (h₁.symm.trans hs')
    exact (ih (h.2 s₁ h₁) hrest).1

theorem Guarded.and {step : S → O → Option S} {guard : S → O → Prop} {P : O → Prop} {os : List O}
    {s : S} (h : Guarded step guard os s) (hP : ∀o∈os,P o) :
    Guarded step (fun s o => guard s o ∧ P o) os s := by
  induction os generalizing s with
  | nil => trivial
  | cons o os ih =>
    refine ⟨⟨h.1,hP o List.mem_cons_self⟩,fun s' hs' => ?_⟩
    exact ih (h.2 s' hs') fun p hp => hP p (List.mem_cons_of_mem o hp)

/-- The specification moves first: whatever run it allows, the implementation
completes it, as long as the guard holds on the way. -/
theorem run_follows {step : S → O → Option S} {spec : A → O → A → Prop}
    {guard : S → O → Prop} {R : S → A → Prop}
    (hstep : ∀s a o a',guard s o → R s a → spec a o a' → ∃s',step s o=some s' ∧ R s' a')
    {os : List O} {a a' : A} (hrun : SpecRun spec a os a') (s : S)
    (hguard : Guarded step guard os s) (hR : R s a) :
    ∃s',run step os s=some s' ∧ R s' a' := by
  induction hrun generalizing s with
  | nil a => exact ⟨s,rfl,hR⟩
  | cons hspec _ ih =>
    obtain ⟨s₁,h₁,hR₁⟩ := hstep _ _ _ _ hguard.1 hR hspec
    obtain ⟨s₂,h₂,hR₂⟩ := ih s₁ (hguard.2 s₁ h₁) hR₁
    exact ⟨s₂,by simpa [run,h₁] using h₂,hR₂⟩

/-- What every admitted operation keeps, a run that is admitted keeps. -/
theorem run_keeps {step : S → O → Option S} {guard : S → O → Prop} {I : S → Prop}
    (hstep : ∀s o s',guard s o → I s → step s o=some s' → I s') {os : List O} {s s' : S}
    (hrun : run step os s=some s') (hguard : Guarded step guard os s) (hI : I s) : I s' := by
  induction os generalizing s with
  | nil =>
    obtain rfl := Option.some.inj hrun
    exact hI
  | cons o os ih =>
    rw [run,Option.bind_eq_some_iff] at hrun
    obtain ⟨s₁,h₁,hrest⟩ := hrun
    exact ih hrest (hguard.2 s₁ h₁) (hstep s o s₁ hguard.1 hI h₁)

/-- The same beside a specification that is a function. -/
theorem run_tracks {step : S → O → Option S} {guard : S → O → Prop} {spec : A → O → A}
    {R : S → A → Prop}
    (hstep : ∀s a o s',guard s o → R s a → step s o=some s' → R s' (spec a o)) {os : List O}
    {s s' : S} {a : A} (hrun : run step os s=some s') (hguard : Guarded step guard os s)
    (hR : R s a) : R s' (os.foldl spec a) := by
  induction os generalizing s a with
  | nil =>
    obtain rfl := Option.some.inj hrun
    exact hR
  | cons o os ih =>
    rw [run,Option.bind_eq_some_iff] at hrun
    obtain ⟨s₁,h₁,hrest⟩ := hrun
    exact ih hrest (hguard.2 s₁ h₁) (hstep s a o s₁ hguard.1 hR h₁)

/-- Admitted operations that return and keep what holds make runs that do. -/
theorem run_completes {step : S → O → Option S} {guard : S → O → Prop} {I : S → Prop}
    (hstep : ∀s o,guard s o → I s → ∃s',step s o=some s' ∧ I s') {os : List O} {s : S}
    (hguard : Guarded step guard os s) (hI : I s) : ∃s',run step os s=some s' ∧ I s' := by
  induction os generalizing s with
  | nil => exact ⟨s,rfl,hI⟩
  | cons o os ih =>
    obtain ⟨s₁,h₁,hI₁⟩ := hstep s o hguard.1 hI
    obtain ⟨s₂,h₂,hI₂⟩ := ih (hguard.2 s₁ h₁) hI₁
    exact ⟨s₂,by simpa [run,h₁] using h₂,hI₂⟩

/-- The same for operations that always return. -/
theorem run_always {step : S → O → Option S} {I : S → Prop}
    (hstep : ∀s o,I s → ∃s',step s o=some s' ∧ I s') (os : List O) {s : S} (hI : I s) :
    ∃s',run step os s=some s' ∧ I s' := by
  induction os generalizing s with
  | nil => exact ⟨s,rfl,hI⟩
  | cons o os ih =>
    obtain ⟨s₁,h₁,hI₁⟩ := hstep s o hI
    obtain ⟨s₂,h₂,hI₂⟩ := ih hI₁
    exact ⟨s₂,by simpa [run,h₁] using h₂,hI₂⟩

/-- Every state that a run passes keeps `I` exactly when every step is admitted, if the
guard says exactly which steps keep it. -/
theorem run_every_iff {step : S → O → Option S} {guard : S → O → Prop} {I : S → Prop}
    (hstep : ∀s o,I s → (guard s o ↔ ∀s',step s o=some s' → I s')) (os : List O) {s : S}
    (hI : I s) :
    (∀n t,run step (os.take n) s=some t → I t) ↔ Guarded step guard os s := by
  induction os generalizing s with
  | nil =>
    refine iff_of_true (fun n t h => ?_) trivial
    rw [List.take_nil] at h
    obtain rfl := Option.some.inj h
    exact hI
  | cons o os ih =>
    have hrun : ∀n,run step ((o::os).take (n+1)) s=(step s o).bind (run step (os.take n)) :=
      fun n => rfl
    constructor
    · intro h
      have hone : ∀s',step s o=some s' → I s' := by
        intro s' hs'
        exact h 1 s' (by rw [hrun 0,hs']; rfl)
      refine ⟨(hstep s o hI).mpr hone,fun s' hs' => (ih (hone s' hs')).mp ?_⟩
      intro n t ht
      exact h (n+1) t (by rw [hrun n,hs']; exact ht)
    · rintro ⟨hguard,hrest⟩ n t ht
      cases n with
      | zero =>
        obtain rfl := Option.some.inj ht
        exact hI
      | succ n =>
        rw [hrun n] at ht
        obtain ⟨s',hs',ht⟩ := Option.bind_eq_some_iff.mp ht
        exact (ih ((hstep s o hI).mp hguard s' hs')).mpr (hrest s' hs') n t ht

/-- Every operation of a run that cannot fail is admitted by the state it meets. -/
def Along (step : S → O → S) (guard : S → O → Prop) : List O → S → Prop
  | [],_ => True
  | o::os,s => guard s o ∧ Along step guard os (step s o)

/-- What every admitted operation keeps, a run keeps. -/
theorem foldl_keeps {step : S → O → S} {guard : S → O → Prop} {I : S → Prop}
    (hstep : ∀s o,guard s o → I s → I (step s o)) (os : List O) (s : S)
    (hguard : Along step guard os s) (hI : I s) : I (os.foldl step s) := by
  induction os generalizing s with
  | nil => exact hI
  | cons o os ih =>
    rw [List.foldl_cons]
    exact ih (step s o) hguard.2 (hstep s o hguard.1 hI)

section Answers

variable {B : Type} {call : S → O → Option (S × B)}

/-- What the calls of a run return; a call that fails is the last one. -/
def answers (call : S → O → Option (S × B)) : List O → S → List (Option B)
  | [],_ => []
  | o::os,s =>
      match call s o with
      | none => [none]
      | some (t,b) => some b::answers call os t

/-- A state cannot be told from its image when every call keeps the image and returns the
same on both. -/
theorem answers_image {I : S → Prop} {f : S → S}
    (hcall : ∀s o,I s → call (f s) o=(call s o).map (Prod.map f id))
    (hkeep : ∀s o t b,I s → call s o=some (t,b) → I t) (os : List O) {s : S} (hI : I s) :
    answers call os (f s)=answers call os s := by
  induction os generalizing s with
  | nil => rfl
  | cons o os ih =>
    rw [answers,answers,hcall s o hI]
    cases hs : call s o with
    | none => rfl
    | some x => exact congrArg (some x.2::·) (ih (hkeep s o x.1 x.2 hI hs))

end Answers

end Zdeex.Framework
