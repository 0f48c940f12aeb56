import Zdeex.Framework.Codec

namespace Zdeex.Framework.Codec

variable {α β : Type} {A : Codec α} {a a' : α} {e e' r r' : List Byte}

/-- The bytes of one value are never the start of those of another one. -/
theorem write_inj (ha : A.Fits a) (ha' : A.Fits a') (he : A.write a=some e)
    (he' : A.write a'=some e') (h : e++r=e'++r') : a=a' ∧ r=r' := by
  have hread := A.reads_write ha he r
  rw [h,A.reads_write ha' he' r'] at hread
  obtain ⟨rfl,rfl⟩ := Prod.mk.inj (Option.some.inj hread)
  exact ⟨rfl,rfl⟩

theorem write_inj' (ha : A.Fits a) (ha' : A.Fits a') (he : A.write a=some e)
    (he' : A.write a'=some e) : a=a' :=
  (write_inj ha ha' he he' (rfl : e++[]=e++[])).1

/-- No value is written without a byte. -/
def Solid (A : Codec α) : Prop := ∀⦃a e⦄,A.write a=some e → e≠[]

theorem Solid.word {w : Nat} (hw : 8∣w) (hpos : 0<w/8) : (word w hw).Solid := by
  intro x e he hnil
  obtain rfl := Option.some.inj he
  have hlen := length_toBytes x
  rw [hnil,List.length_nil] at hlen
  omega

theorem Solid.pair (h : A.Solid) (B : Codec β) : (A.pair B).Solid := by
  intro p e he hnil
  obtain ⟨e₁,he₁,he⟩ := Option.bind_eq_some_iff.mp he
  obtain ⟨e₂,-,he⟩ := Option.bind_eq_some_iff.mp he
  obtain rfl := Option.some.inj he
  exact h he₁ (List.append_eq_nil_iff.mp hnil).1

theorem Solid.shaped (h : A.Solid) (f : α → β) (g : β → α) (hgf : ∀a,g (f a)=a)
    (hfg : ∀b,f (g b)=b) : (A.shaped f g hgf hfg).Solid := fun _ _ he => h he

theorem writeItems_cons_eq {as : List α} (h : A.writeItems (a::as)=some e) :
    ∃e₁ e₂,A.write a=some e₁ ∧ A.writeItems as=some e₂ ∧ e=e₁++e₂ := by
  obtain ⟨e₁,he₁,h⟩ := Option.bind_eq_some_iff.mp h
  obtain ⟨e₂,he₂,h⟩ := Option.bind_eq_some_iff.mp h
  exact ⟨e₁,e₂,he₁,he₂,(Option.some.inj h).symm⟩

theorem writeItems_solid (hA : A.Solid) {as : List α} (hne : as≠[]) (h : A.writeItems as=some e) :
    e≠[] := by
  cases as with
  | nil => exact absurd rfl hne
  | cons a as =>
    obtain ⟨e₁,e₂,he₁,-,rfl⟩ := writeItems_cons_eq h
    intro hnil
    exact hA he₁ (List.append_eq_nil_iff.mp hnil).1

/-- A list is written without its length; what follows it must be of a known length. -/
theorem writeItems_inj (hA : A.Solid) {as as' : List α} (ha : ∀a∈as,A.Fits a)
    (ha' : ∀a∈as',A.Fits a) (he : A.writeItems as=some e) (he' : A.writeItems as'=some e')
    (hlen : r.length=r'.length) (h : e++r=e'++r') : as=as' ∧ r=r' := by
  induction as generalizing as' e e' with
  | nil =>
    obtain rfl := Option.some.inj he
    cases as' with
    | nil =>
      obtain rfl := Option.some.inj he'
      exact ⟨rfl,h⟩
    | cons a' as' =>
      have hpos := List.length_pos_of_ne_nil (writeItems_solid hA (List.cons_ne_nil a' as') he')
      have hsum := congrArg List.length h
      simp only [List.nil_append,List.length_append] at hsum
      omega
  | cons a as ih =>
    have hpos := List.length_pos_of_ne_nil (writeItems_solid hA (List.cons_ne_nil a as) he)
    obtain ⟨e₁,e₂,he₁,he₂,rfl⟩ := writeItems_cons_eq he
    obtain ⟨haA,hrest⟩ := List.forall_mem_cons.mp ha
    cases as' with
    | nil =>
      obtain rfl := Option.some.inj he'
      have hsum := congrArg List.length h
      simp only [List.nil_append,List.length_append] at hsum hpos
      omega
    | cons a' as' =>
      obtain ⟨e₁',e₂',he₁',he₂',rfl⟩ := writeItems_cons_eq he'
      obtain ⟨haA',hrest'⟩ := List.forall_mem_cons.mp ha'
      rw [List.append_assoc,List.append_assoc] at h
      obtain ⟨rfl,htail⟩ := write_inj haA haA' he₁ he₁' h
      obtain ⟨rfl,hr⟩ := ih hrest hrest' he₂ he₂' htail
      exact ⟨rfl,hr⟩

end Zdeex.Framework.Codec
