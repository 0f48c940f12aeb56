namespace Zdeex.Framework

/-- Layers of type `M` over a base state of type `σ`; the outermost layer is the
one in use. -/
inductive LayerStack (M σ : Type) where
  | base (s : σ)
  | layer (m : M) (below : LayerStack M σ)
  deriving DecidableEq

namespace LayerStack

variable {M N σ A : Type}

def map (f : M → N) : LayerStack M σ → LayerStack N σ
  | base s => base s
  | layer m v => layer (f m) (v.map f)

/-- `P` holds of every layer. -/
def All (P : M → Prop) : LayerStack M σ → Prop
  | base _ => True
  | layer m v => P m ∧ v.All P

/-- Each suffix of the stack is related to its own abstract state. -/
def Layers (P : LayerStack M σ → A → Prop) : LayerStack M σ → List A → Prop
  | base s,[a] => P (base s) a
  | layer m v,a::as => P (layer m v) a ∧ Layers P v as
  | _,_ => False

theorem Layers.cons_inv {P : LayerStack M σ → A → Prop} {v : LayerStack M σ} {as : List A}
    (h : Layers P v as) : ∃a as',as=a::as' ∧ P v a := by
  cases v with
  | base s =>
    match as,h with
    | [a],h => exact ⟨a,[],rfl,h⟩
  | layer m v =>
    match as,h with
    | a::as',h => exact ⟨a,as',rfl,h.1⟩

theorem Layers.layer_inv {P : LayerStack M σ → A → Prop} {m : M} {v : LayerStack M σ}
    {as : List A} (h : Layers P (layer m v) as) :
    ∃a b as',as=a::b::as' ∧ P (layer m v) a ∧ P v b ∧ Layers P v (b::as') := by
  match as,h with
  | a::as',h =>
    obtain ⟨b,bs,rfl,hb⟩ := Layers.cons_inv h.2
    exact ⟨a,b,bs,rfl,h.1,hb,h.2⟩

/-- Only what `P` says of the suffixes matters. -/
theorem Layers.mono {P Q : LayerStack M σ → A → Prop} (hPQ : ∀v a,P v a → Q v a)
    {v : LayerStack M σ} {as : List A} (h : Layers P v as) : Layers Q v as := by
  induction v generalizing as with
  | base s =>
    match as,h with
    | [a],h => exact hPQ _ _ h
  | layer m v ih =>
    match as,h with
    | a::as',h => exact ⟨hPQ _ _ h.1,ih h.2⟩

end LayerStack

/-- Work on the outermost layer; a bare base has none. -/
def onTop {A : Type} (f : A → A) : List A → List A
  | a::b::as => f a::b::as
  | as => as

/-- Snapshots of nested work: a new layer starts from the state below it. -/
def pushSnapshot {A : Type} : List A → List A
  | a::as => a::a::as
  | [] => []

/-- Dropping a layer returns to the snapshot below; the base cannot be dropped. -/
def dropSnapshot {A : Type} : List A → List A
  | _::b::as => b::as
  | as => as

/-- Flushing a layer makes its state the one below. -/
def flushSnapshot {A : Type} : List A → List A
  | a::_::as => a::a::as
  | as => as

section Snapshots

variable {A B : Type} (g : A → B)

theorem map_onTop (f : A → A) (f' : B → B) (h : ∀a,g (f a)=f' (g a)) (as : List A) :
    (onTop f as).map g=onTop f' (as.map g) := by
  match as with
  | [] => rfl
  | [a] => rfl
  | a::b::as => simp [onTop,h]

theorem map_onTop_unseen (f : A → A) (h : ∀a,g (f a)=g a) (as : List A) :
    (onTop f as).map g=as.map g := by
  match as with
  | [] => rfl
  | [a] => rfl
  | a::b::as => simp [onTop,h]

theorem forall_onTop {P : A → Prop} (f : A → A) (hf : ∀a,P a → P (f a)) {as : List A}
    (h : ∀a∈as,P a) : ∀a∈onTop f as,P a := by
  match as,h with
  | [],h => exact h
  | [a],h => exact h
  | a::b::as,h =>
    intro x hx
    rcases List.mem_cons.mp hx with rfl | hx
    · exact hf a (h a (by simp))
    · exact h x (List.mem_cons_of_mem a hx)

theorem map_pushSnapshot (as : List A) : (pushSnapshot as).map g=pushSnapshot (as.map g) := by
  cases as <;> rfl

theorem map_dropSnapshot (as : List A) : (dropSnapshot as).map g=dropSnapshot (as.map g) := by
  match as with
  | [] => rfl
  | [a] => rfl
  | a::b::as => rfl

theorem map_flushSnapshot (as : List A) : (flushSnapshot as).map g=flushSnapshot (as.map g) := by
  match as with
  | [] => rfl
  | [a] => rfl
  | a::b::as => rfl

end Snapshots

end Zdeex.Framework
