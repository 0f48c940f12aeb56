import Zdeex.Framework.Judged

namespace Zdeex.Framework

/-- A computation that may record a reason for refusal, and that may crash. -/
abbrev Crashing (α : Type) := StateT (Option String) Option α

namespace Crashing

variable {α β : Type}

def crash : Crashing α := fun _ => none

/-- A part that cannot crash. -/
def steady (m : Judged α) : Crashing α := fun s => some (m s)

/-- Goes on after an access that crashes unless the condition holds. -/
def needing (c : Prop) [Decidable c] (next : Crashing α) : Crashing α := if c then next else crash

def refuseWhen (no : β) (c : Prop) [Decidable c] (reason : String) (next : Crashing β) :
    Crashing β := if c then steady (refuse no reason) else next

def whenSome (no : β) (m : Crashing (Option α)) (f : α → Crashing β) : Crashing β := do
  match ← m with
  | none => return no
  | some a => f a

abbrev invalid (reason : String) : Crashing Bool := steady (Framework.invalid reason)

abbrev refuseIf (c : Prop) [Decidable c] : String → Crashing Bool → Crashing Bool :=
  refuseWhen false c

abbrev fails (reason : String) : Crashing (Option α) := steady (Framework.fails reason)

abbrev failIf (c : Prop) [Decidable c] : String → Crashing (Option α) → Crashing (Option α) :=
  refuseWhen none c

end Crashing

/-- The value does not depend on what was recorded before. -/
def Finds {α : Type} (m : Judged α) (v : α) : Prop := ∀s,(m s).1=v

theorem Finds.whenSome {α β : Type} {m : Judged (Option α)} {f : α → Judged (Option β)}
    (h : Finds m (m none).1) (hf : ∀a,Finds (f a) (f a none).1) :
    Finds (Framework.whenSome none m f) (Framework.whenSome none m f none).1 := by
  intro s
  have hv := h s
  unfold Framework.whenSome
  rcases hm : m s with ⟨a,t⟩
  rcases hm' : m none with ⟨a',t'⟩
  rw [hm,hm'] at hv
  obtain rfl : a=a' := hv
  cases a with
  | none => rfl
  | some a => exact (hf a t).trans (hf a t').symm

/-- The first computation behaves as the second one, which cannot crash, exactly when the
condition holds, and crashes otherwise. -/
structure Behaves {α : Type} (p : Crashing α) (q : Judged α) (C : Prop) : Prop where
  returns : C → ∀s,p s=some (q s)
  crashes : ¬C → ∀s,p s=none

section Behaviour

variable {α β : Type} {p p' : Crashing α} {q q' : Judged α} {C C' : Prop}

theorem Behaves.isSome_iff (h : Behaves p q C) (s : Option String) : (p s).isSome=true ↔ C := by
  by_cases hC : C
  · rw [h.returns hC s]
    exact ⟨fun _ => hC,fun _ => rfl⟩
  · rw [h.crashes hC s]
    exact ⟨fun hno => (nomatch hno),fun hyes => absurd hyes hC⟩

theorem Behaves.congr (h : Behaves p q C) (hC : C ↔ C') : Behaves p q C' :=
  ⟨fun hC' => h.returns (hC.mpr hC'),fun hC' => h.crashes (fun hyes => hC' (hC.mp hyes))⟩

theorem Behaves.steady (q : Judged α) : Behaves (Crashing.steady q) q True :=
  ⟨fun _ _ => rfl,fun hno => absurd trivial hno⟩

theorem Behaves.needing {c : Prop} [Decidable c] (h : Behaves p q C) :
    Behaves (Crashing.needing c p) q (c ∧ C) := by
  by_cases hc : c
  · rw [Crashing.needing,if_pos hc]
    exact h.congr (and_iff_right hc).symm
  · rw [Crashing.needing,if_neg hc]
    exact ⟨fun hyes => absurd hyes.1 hc,fun _ _ => rfl⟩

theorem Behaves.ite {c : Prop} [Decidable c] (h : Behaves p q C) (h' : Behaves p' q' C') :
    Behaves (if c then p else p') (if c then q else q') ((c → C) ∧ (¬c → C')) := by
  by_cases hc : c
  · rw [if_pos hc,if_pos hc]
    exact h.congr ⟨fun hC => ⟨fun _ => hC,fun hno => absurd hc hno⟩,fun hC => hC.1 hc⟩
  · rw [if_neg hc,if_neg hc]
    exact h'.congr ⟨fun hC => ⟨fun hyes => absurd hyes hc,fun _ => hC⟩,fun hC => hC.2 hc⟩

theorem Behaves.ite_pos {c : Prop} [Decidable c] (hc : c) (h : Behaves p q C) :
    Behaves (if c then p else p') (if c then q else q') C := by
  rwa [if_pos hc,if_pos hc]

theorem Behaves.ite_neg {c : Prop} [Decidable c] (hc : ¬c) (h : Behaves p' q' C) :
    Behaves (if c then p else p') (if c then q else q') C := by
  rwa [if_neg hc,if_neg hc]

theorem Behaves.refuseWhen {no : α} {c : Prop} [Decidable c] {reason : String}
    (h : Behaves p q C) :
    Behaves (Crashing.refuseWhen no c reason p) (Framework.refuseWhen no c reason q) (¬c → C) :=
  ((Behaves.steady (refuse no reason)).ite h).congr
    ⟨And.right,fun hC => ⟨fun _ => trivial,hC⟩⟩

theorem Behaves.bind {v : α} {f : α → Crashing β} {g : α → Judged β} {D : Prop}
    (h : Behaves p q C) (hv : Finds q v) (hf : Behaves (f v) (g v) D) :
    Behaves (p>>=f) (q>>=g) (C ∧ D) := by
  refine ⟨?_,?_⟩
  · rintro ⟨hC,hD⟩ s
    change (p s).bind (fun x => f x.1 x.2)=some (g (q s).1 (q s).2)
    rw [h.returns hC s,Option.bind_some,hv s]
    exact hf.returns hD _
  · intro hno s
    change (p s).bind (fun x => f x.1 x.2)=none
    by_cases hC : C
    · rw [h.returns hC s,Option.bind_some,hv s]
      exact hf.crashes (fun hD => hno ⟨hC,hD⟩) _
    · rw [h.crashes hC s]
      rfl

/-- A first part that records nothing. -/
theorem Behaves.after {a : α} {f : α → Crashing β} {g : Judged β} {D : Prop}
    (h : Behaves p (pure a) C) (hf : Behaves (f a) g D) : Behaves (p>>=f) g (C ∧ D) :=
  h.bind (v := a) (g := fun _ => g) (fun _ => rfl) hf

theorem Behaves.whenSome {no : β} {p : Crashing (Option α)} {q : Judged (Option α)}
    {v : Option α} {f : α → Crashing β} {g : α → Judged β} {F : α → Prop}
    (h : Behaves p q C) (hv : Finds q v) (hf : ∀a∈v,Behaves (f a) (g a) (F a)) :
    Behaves (Crashing.whenSome no p f) (Framework.whenSome no q g) (C ∧ ∀a∈v,F a) := by
  have hbind : Framework.whenSome no q g=q>>=fun x => x.elim (pure no) g := by
    funext s
    change _=(((q s).1.elim (pure no) g : Judged β) (q s).2)
    rw [Framework.whenSome]
    cases q s with
    | mk x t => cases x <;> rfl
  rw [hbind]
  refine h.bind hv ?_
  cases v with
  | none => exact (Behaves.steady (pure no)).congr ⟨fun _ a ha => (nomatch ha),fun _ => trivial⟩
  | some a =>
    exact (hf a rfl).congr ⟨fun hF b hb => Option.some.inj hb ▸ hF,fun hall => hall a rfl⟩

end Behaviour

end Zdeex.Framework
