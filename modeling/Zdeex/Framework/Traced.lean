import Mathlib.Tactic.Common

namespace Zdeex.Framework

/-- A computation that may fail and that asks questions of somebody outside on its way. What
was asked is kept also when it fails. -/
@[ext] structure Traced (Q ε α : Type) where
  asked : List Q
  result : Except ε α

namespace Traced

variable {Q ε δ α β : Type}

/-- A computation that asks nothing. -/
def of (x : Except ε α) : Traced Q ε α := ⟨[],x⟩

/-- One question, with the answer it gets. -/
def ask (q : Q) (answer : α) : Traced Q ε α := ⟨[q],.ok answer⟩

def andThen (m : Traced Q ε α) (f : α → Traced Q ε β) : Traced Q ε β :=
  match m.result with
  | .error e => ⟨m.asked,.error e⟩
  | .ok a => ⟨m.asked++(f a).asked,(f a).result⟩

def mapError (g : ε → δ) (m : Traced Q ε α) : Traced Q δ α := ⟨m.asked,m.result.mapError g⟩

instance : Monad (Traced Q ε) where
  pure a := of (.ok a)
  bind := andThen

instance : MonadLift (Except ε) (Traced Q ε) where
  monadLift := of

@[simp] theorem result_pure (a : α) : (pure a : Traced Q ε α).result=.ok a := rfl

@[simp] theorem asked_pure (a : α) : (pure a : Traced Q ε α).asked=[] := rfl

@[simp] theorem result_of (x : Except ε α) : (of x : Traced Q ε α).result=x := rfl

@[simp] theorem asked_of (x : Except ε α) : (of x : Traced Q ε α).asked=[] := rfl

@[simp] theorem result_lift (x : Except ε α) :
    (liftM x : Traced Q ε α).result=x := rfl

@[simp] theorem asked_lift (x : Except ε α) : (liftM x : Traced Q ε α).asked=[] := rfl

@[simp] theorem result_bind (m : Traced Q ε α) (f : α → Traced Q ε β) :
    (m>>=f).result=m.result>>=fun a => (f a).result := by
  change (m.andThen f).result=_
  rw [andThen]
  cases m.result <;> rfl

theorem result_bind_congr {m m' : Traced Q ε α} {f f' : α → Traced Q ε β}
    (h : m.result=m'.result) (hf : ∀a,(f a).result=(f' a).result) :
    (m>>=f).result=(m'>>=f').result := by
  rw [result_bind,result_bind,h]
  exact bind_congr hf

theorem asked_bind_error {m : Traced Q ε α} {e : ε} (h : m.result=.error e)
    (f : α → Traced Q ε β) : (m>>=f).asked=m.asked := by
  change (m.andThen f).asked=_
  rw [andThen,h]

theorem asked_bind_ok {m : Traced Q ε α} {a : α} (h : m.result=.ok a)
    (f : α → Traced Q ε β) : (m>>=f).asked=m.asked++(f a).asked := by
  change (m.andThen f).asked=_
  rw [andThen,h]

@[simp] theorem pure_bind (a : α) (f : α → Traced Q ε β) : (pure a : Traced Q ε α)>>=f=f a := by
  ext1
  · rw [asked_bind_ok (result_pure a),asked_pure,List.nil_append]
  · rw [result_bind,result_pure]
    rfl

theorem bind_assoc {γ : Type} (m : Traced Q ε α) (f : α → Traced Q ε β) (g : β → Traced Q ε γ) :
    m>>=f>>=g=m>>=fun a => f a>>=g := by
  cases hm : m.result with
  | error e =>
    have hf : (m>>=f).result=.error e := by
      rw [result_bind,hm]
      rfl
    ext1
    · rw [asked_bind_error hf,asked_bind_error hm,asked_bind_error hm]
    · rw [result_bind,hf,result_bind,hm]
      rfl
  | ok a =>
    have hf : (m>>=f).result=(f a).result := by
      rw [result_bind,hm]
      rfl
    cases hfa : (f a).result with
    | error e =>
      ext1
      · rw [asked_bind_error (hf.trans hfa),asked_bind_ok hm,asked_bind_ok hm,asked_bind_error hfa]
      · rw [result_bind,hf,result_bind,hm,hfa]
        exact (result_bind (f a) g).trans (by rw [hfa]) |>.symm
    | ok b =>
      ext1
      · rw [asked_bind_ok (hf.trans hfa),asked_bind_ok hm,asked_bind_ok hm,asked_bind_ok hfa,
          List.append_assoc]
      · rw [result_bind,hf,result_bind,hm]
        exact (result_bind (f a) g).symm

@[simp] theorem of_error_bind (e : ε) (f : α → Traced Q ε β) :
    (of (.error e) : Traced Q ε α)>>=f=of (.error e) := rfl

@[simp] theorem lift_error_bind (e : ε) (f : α → Traced Q ε β) :
    (liftM (.error e : Except ε α) : Traced Q ε α)>>=f=of (.error e) := rfl

@[simp] theorem lift_ok_bind (a : α) (f : α → Traced Q ε β) :
    (liftM (.ok a : Except ε α) : Traced Q ε α)>>=f=f a := pure_bind a f

@[simp] theorem lift_pure (a : α) :
    (liftM (pure a : Except ε α) : Traced Q ε α)=pure a := rfl

theorem lift_bind (x : Except ε α) (f : α → Except ε β) :
    (liftM (x>>=f) : Traced Q ε β)=(liftM x : Traced Q ε α)>>=fun a => liftM (f a) := by
  cases x with
  | error e => rfl
  | ok a => exact (pure_bind a fun a => (liftM (f a) : Traced Q ε β)).symm

/-- At most `n` questions are asked, and what they are answered leads to `G`. -/
def Asks (n : Nat) (G : α → Prop) (m : Traced Q ε α) : Prop :=
  m.asked.length≤n ∧ ∀a,m.result=.ok a → G a

namespace Asks

variable {m : Traced Q ε α} {f : α → Traced Q ε β} {G G' : α → Prop} {H : β → Prop} {j k : Nat}

theorem pure {a : α} (h : G a) : Asks 0 G (Pure.pure a : Traced Q ε α) :=
  ⟨Nat.le_refl 0,fun _ ha => Except.ok.inj ha▸h⟩

theorem lift {x : Except ε α} (h : ∀a,x=.ok a → G a) : Asks 0 G (liftM x : Traced Q ε α) :=
  ⟨Nat.le_refl 0,h⟩

theorem of {x : Except ε α} (h : ∀a,x=.ok a → G a) : Asks 0 G (Traced.of x : Traced Q ε α) :=
  ⟨Nat.le_refl 0,h⟩

theorem ask {q : Q} {a : α} (h : G a) : Asks 1 G (Traced.ask q a : Traced Q ε α) :=
  ⟨Nat.le_refl 1,fun _ ha => Except.ok.inj ha▸h⟩

theorem mono (h : Asks j G m) (hjk : j≤k) (hG : ∀a,G a → G' a) : Asks k G' m :=
  ⟨Nat.le_trans h.1 hjk,fun a ha => hG a (h.2 a ha)⟩

theorem bind (h : Asks j G m) (hf : ∀a,G a → Asks k H (f a)) : Asks (j+k) H (m>>=f) := by
  cases hm : m.result with
  | error e =>
    refine ⟨?_,fun b hb => ?_⟩
    · rw [asked_bind_error hm]
      exact Nat.le_trans h.1 (Nat.le_add_right j k)
    · rw [result_bind,hm] at hb
      cases hb
  | ok a =>
    have hfa := hf a (h.2 a hm)
    refine ⟨?_,fun b hb => ?_⟩
    · rw [asked_bind_ok hm,List.length_append]
      exact Nat.add_le_add h.1 hfa.1
    · rw [result_bind,hm] at hb
      exact hfa.2 b hb

/-- The same behind a part that asks nothing. -/
theorem bind_lift {x : Except ε α} (hf : ∀a,x=.ok a → Asks k H (f a)) :
    Asks k H ((liftM x : Traced Q ε α)>>=f) := by
  have h := (lift (Q:=Q) (G:=fun a => x=.ok a) fun _ ha => ha).bind hf
  rwa [Nat.zero_add] at h

end Asks

/-- The computation succeeds with `a`, having asked `qs`. -/
def Ran (qs : List Q) (a : α) (m : Traced Q ε α) : Prop := m.asked=qs ∧ m.result=.ok a

namespace Ran

variable {m : Traced Q ε α} {f : α → Traced Q ε β} {x : Except ε α} {qs qs' : List Q} {a a' : α}
  {b : β} {q : Q}

theorem of_result (h : m.result=.ok a) : m.Ran m.asked a := ⟨rfl,h⟩

theorem bind_iff : (m>>=f).Ran qs b ↔ ∃qs₁ qs₂ a,m.Ran qs₁ a ∧ (f a).Ran qs₂ b ∧ qs=qs₁++qs₂ := by
  constructor
  · rintro ⟨hasked,hresult⟩
    cases hm : m.result with
    | error e =>
      rw [result_bind,hm] at hresult
      cases hresult
    | ok a =>
      rw [result_bind,hm] at hresult
      rw [asked_bind_ok hm] at hasked
      exact ⟨_,_,a,⟨rfl,hm⟩,⟨rfl,hresult⟩,hasked.symm⟩
  · rintro ⟨qs₁,qs₂,a,⟨rfl,hm⟩,⟨rfl,hf⟩,rfl⟩
    refine ⟨asked_bind_ok hm f,?_⟩
    rw [result_bind,hm]
    exact hf

theorem pure_iff : (Pure.pure a : Traced Q ε α).Ran qs a' ↔ qs=[] ∧ a=a' := by
  simp [Ran,eq_comm]

theorem lift_iff : (liftM x : Traced Q ε α).Ran qs a ↔ qs=[] ∧ x=.ok a := by
  simp [Ran,eq_comm]

theorem ask_iff : (Traced.ask q a : Traced Q ε α).Ran qs a' ↔ qs=[q] ∧ a=a' := by
  simp [Ran,Traced.ask,eq_comm]

theorem lift_bind_iff {g : α → Traced Q ε β} :
    ((liftM x : Traced Q ε α)>>=g).Ran qs b ↔ ∃a,x=.ok a ∧ (g a).Ran qs b := by
  rw [bind_iff]
  constructor
  · rintro ⟨qs₁,qs₂,a,hran,hg,rfl⟩
    obtain ⟨rfl,hx⟩ := lift_iff.mp hran
    exact ⟨a,hx,hg⟩
  · rintro ⟨a,hx,hg⟩
    exact ⟨[],qs,a,lift_iff.mpr ⟨rfl,hx⟩,hg,rfl⟩

end Ran

end Traced

end Zdeex.Framework
