namespace Zdeex.Framework

variable {ι κ β γ : Type}

section Order

variable [LT ι] [DecidableRel (fun a b : ι => a<b)]

/-- A chain of `if x<bound then value else ..`, ending in a default. -/
def stepAt (table : List (ι × β)) (default : β) (x : ι) : β :=
  match table with
  | [] => default
  | (bound,value)::table => if x<bound then value else stepAt table default x

/-- Two tables with the same bounds stay in the relation of their values. -/
theorem stepAt_map (f : β → γ) (table : List (ι × β)) (default : β) (x : ι) :
    stepAt (table.map fun e => (e.1,f e.2)) (f default) x=f (stepAt table default x) := by
  induction table with
  | nil => rfl
  | cons e table ih =>
    simp only [List.map_cons,stepAt]
    split
    · rfl
    · exact ih

theorem stepAt_default (table : List (ι × β)) (default : β) (x : ι)
    (h : ∀e∈table,¬x<e.1) : stepAt table default x=default := by
  induction table with
  | nil => rfl
  | cons e table ih =>
    rw [stepAt,if_neg (h e (by simp))]
    exact ih fun e' he' => h e' (by simp [he'])

end Order

/-- Bounds on a grid: only the number of the cell counts. -/
theorem stepAt_reindex [LT ι] [DecidableRel (fun a b : ι => a<b)] [LT κ]
    [DecidableRel (fun a b : κ => a<b)] (φ : κ → ι) (table : List (κ × β)) (default : β)
    (x : ι) (k : κ) (h : ∀j,x<φ j ↔ k<j) :
    stepAt (table.map fun e => (φ e.1,e.2)) default x=stepAt table default k := by
  induction table with
  | nil => rfl
  | cons e table ih =>
    simp only [List.map_cons,stepAt,h e.1,ih]

end Zdeex.Framework
