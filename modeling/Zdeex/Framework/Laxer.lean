import Zdeex.Framework.Checks

namespace Zdeex.Framework

variable {ε α β : Type}

/-- `y` succeeds wherever `x` does, and with the same value. -/
def Laxer (x y : Except ε α) : Prop := ∀a,x=.ok a → y=.ok a

namespace Laxer

variable {x y : Except ε α} {f g : α → Except ε β} {c d : Prop} [Decidable c] [Decidable d]

theorem refl (x : Except ε α) : Laxer x x := fun _ h => h

theorem bind (h : Laxer x y) (hfg : ∀a,Laxer (f a) (g a)) : Laxer (x>>=f) (y>>=g) := by
  intro b hb
  obtain ⟨a,ha,hfa⟩ := bind_ok.mp hb
  exact bind_ok.mpr ⟨a,h a ha,hfg a b hfa⟩

/-- Less is refused. -/
theorem reject (h : d → c) (e e' : ε) : Laxer (reject c e) (reject d e') := by
  intro u hu
  exact reject_ok.mpr fun hd => reject_ok.mp hu (h hd)

end Laxer

end Zdeex.Framework
