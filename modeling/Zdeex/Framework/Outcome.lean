import Mathlib.Data.List.Forall2
import Mathlib.Tactic.Common

namespace Zdeex.Framework

variable {ε α β σ : Type}

/-- No error is bad, and a result is good. -/
def Meets (B : ε → Prop) (G : α → Prop) : Except ε α → Prop
  | .ok a => G a
  | .error e => ¬B e

instance Meets.decidable (B : ε → Prop) (G : α → Prop) [DecidablePred B] [DecidablePred G]
    (x : Except ε α) : Decidable (Meets B G x) :=
  match x with
  | .ok a => inferInstanceAs (Decidable (G a))
  | .error e => inferInstanceAs (Decidable (¬B e))

namespace Meets

variable {B B' : ε → Prop} {G G' : α → Prop} {after : β → Prop} {x : Except ε α}

theorem pure {a : α} (h : G a) : Meets B G (Pure.pure a : Except ε α) := h

theorem error {e : ε} (h : ¬B e) : Meets B G (.error e) := h

theorem mono (h : Meets B G x) (hbad : ∀e,B' e → B e) (hgood : ∀a,G a → G' a) :
    Meets B' G' x := by
  cases x with
  | ok a => exact hgood a h
  | error e => exact mt (hbad e) h

theorem post (h : Meets B G x) (hgood : ∀a,G a → G' a) : Meets B G' x :=
  h.mono (fun _ he => he) hgood

theorem bind {f : α → Except ε β} (hx : Meets B G x)
    (hf : ∀a,G a → Meets B after (f a)) : Meets B after (x>>=f) := by
  cases x with
  | ok a => exact hf a hx
  | error e => exact hx

theorem of_ok {a : α} (h : Meets B G x) (hx : x=.ok a) : G a := by
  subst hx
  exact h

theorem of_error {e : ε} (h : Meets B G x) (hx : x=.error e) : ¬B e := by
  subst hx
  exact h

/-- An invariant of the state and the items that are done. -/
theorem foldlM {f : σ → β → Except ε σ} {l : List β} {s : σ} {I : List β → σ → Prop}
    (h0 : I [] s)
    (hf : ∀done b rest t,l=done++b::rest → I done t → Meets B (I (done++[b])) (f t b)) :
    Meets B (I l) (l.foldlM f s) := by
  induction l generalizing s I with
  | nil => exact h0
  | cons b l ih =>
    rw [List.foldlM_cons]
    refine bind (hf [] b l s rfl h0) fun t ht => ?_
    refine ih (I := fun done t => I (b::done) t) ht ?_
    intro done c rest u hl hu
    exact hf (b::done) c rest u (by rw [hl]; rfl) hu

/-- An invariant that every item keeps. -/
theorem foldlM_keeps {f : σ → β → Except ε σ} {l : List β} {s : σ} {I : σ → Prop} (h0 : I s)
    (hf : ∀b∈l,∀t,I t → Meets B I (f t b)) : Meets B I (l.foldlM f s) := by
  refine foldlM (I := fun _ => I) h0 ?_
  intro done b rest t hl ht
  exact hf b (by simp [hl]) t ht

/-- What an item of the kind `p` brings about stays. -/
theorem foldlM_reaches {f : σ → β → Except ε σ} {l : List β} {s : σ} {Q : σ → Prop}
    {p : β → Prop} (hf : ∀t b,Meets B (fun t' => Q t ∨ p b → Q t') (f t b)) :
    Meets B (fun t => Q s ∨ (∃b∈l,p b) → Q t) (l.foldlM f s) := by
  refine foldlM (I := fun done t => Q s ∨ (∃b∈done,p b) → Q t) (by simp) ?_
  intro done b rest t _ ht
  refine (hf t b).post fun t' ht' h => ht' ?_
  rcases h with h | ⟨c,hc,hp⟩
  · exact .inl (ht (.inl h))
  · rcases List.mem_append.mp hc with hc | hc
    · exact .inl (ht (.inr ⟨c,hc,hp⟩))
    · obtain rfl := List.mem_singleton.mp hc
      exact .inr hp

/-- A loop over the numbers below `n`. -/
theorem foldlM_range {f : σ → Nat → Except ε σ} {n : Nat} {s : σ} {I : Nat → σ → Prop}
    (h0 : I 0 s) (hf : ∀j<n,∀t,I j t → Meets B (I (j+1)) (f t j)) :
    Meets B (I n) ((List.range n).foldlM f s) := by
  induction n with
  | zero => exact h0
  | succ n ih =>
    rw [List.range_succ,List.foldlM_append]
    refine bind (ih fun j hj => hf j (by omega)) fun t ht => ?_
    refine bind (hf n (by omega) t ht) fun t' ht' => ?_
    exact ht'

theorem mapM {f : α → Except ε β} {l : List α} {R : α → β → Prop}
    (hf : ∀a∈l,Meets B (R a) (f a)) : Meets B (List.Forall₂ R l) (l.mapM f) := by
  induction l with
  | nil => exact .nil
  | cons a l ih =>
    rw [List.mapM_cons]
    refine bind (hf a (by simp)) fun b hb => ?_
    refine bind (ih fun c hc => hf c (by simp [hc])) fun bs hbs => ?_
    exact .cons hb hbs

end Meets

/-- A result is good, and errors are no matter. -/
abbrev Returns (G : α → Prop) (x : Except ε α) : Prop := Meets (fun _ => False) G x

theorem Meets.returns {B : ε → Prop} {G : α → Prop} {x : Except ε α} (h : Meets B G x) :
    Returns G x := h.mono (fun _ he => he.elim) fun _ ha => ha

theorem Meets.both {B B' : ε → Prop} {G G' : α → Prop} {x : Except ε α} (h : Meets B G x)
    (h' : Meets B' G' x) : Returns (fun a => G a ∧ G' a) x := by
  cases x with
  | ok a => exact ⟨h,h'⟩
  | error e => exact id

/-! What stands at the same place in two related lists. -/

theorem forall₂_set {X Y : Type} {R : X → Y → Prop} {l : List X} {l' : List Y}
    (h : List.Forall₂ R l l') {j : Nat} {y : Y} (hy : ∀x,l[j]?=some x → R x y) :
    List.Forall₂ R l (l'.set j y) := by
  induction h generalizing j with
  | nil => exact .nil
  | cons hx hl ih =>
    cases j with
    | zero => exact .cons (hy _ rfl) hl
    | succ j => exact .cons hx (ih fun x hx => hy x hx)

theorem forall₂_getElem? {X Y : Type} {R : X → Y → Prop} {l : List X} {l' : List Y}
    (h : List.Forall₂ R l l') {j : Nat} {y : Y} (hy : l'[j]?=some y) :
    ∃x,l[j]?=some x ∧ R x y := by
  induction h generalizing j with
  | nil => cases hy
  | cons hx hl ih =>
    cases j with
    | zero =>
      obtain rfl := Option.some.inj hy
      exact ⟨_,rfl,hx⟩
    | succ j => exact ih hy

theorem forall₂_mem {X Y : Type} {R : X → Y → Prop} {l : List X} {l' : List Y}
    (h : List.Forall₂ R l l') {y : Y} (hy : y∈l') : ∃x∈l,R x y := by
  obtain ⟨j,hj⟩ := List.mem_iff_getElem?.mp hy
  obtain ⟨x,hx,hr⟩ := forall₂_getElem? h hj
  exact ⟨x,List.mem_of_getElem? hx,hr⟩

theorem Meets.mapM_all {B : ε → Prop} {f : α → Except ε β} {l : List α} {Q : β → Prop}
    (hf : ∀a∈l,Meets B Q (f a)) : Meets B (fun bs => ∀b∈bs,Q b) (l.mapM f) := by
  refine (mapM (R := fun _ => Q) hf).post fun bs hbs b hb => ?_
  obtain ⟨a,-,hq⟩ := forall₂_mem hbs hb
  exact hq

theorem forall₂_trans {X Y Z : Type} {R : X → Y → Prop} {S : Y → Z → Prop} {T : X → Z → Prop}
    (hT : ∀x y z,R x y → S y z → T x z) {l : List X} {l' : List Y} {l'' : List Z}
    (h : List.Forall₂ R l l') (h' : List.Forall₂ S l' l'') : List.Forall₂ T l l'' := by
  induction h generalizing l'' with
  | nil =>
    cases h'
    exact .nil
  | cons hx _ ih =>
    cases h' with
    | cons hy hrest => exact .cons (hT _ _ _ hx hy) (ih hrest)

end Zdeex.Framework
