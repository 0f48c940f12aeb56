import Mathlib.Data.List.Nodup

namespace Zdeex.Framework

variable {K : Type} [DecidableEq K]

/-- A forest that grows by leaves, newest first: every key with its parent. -/
abbrev Forest (K : Type) := List (K × Option K)

namespace Forest

def keys (T : Forest K) : List K := T.map Prod.fst

def parent : Forest K → K → Option K
  | [],_ => none
  | (k,p)::T,h => if k=h then p else parent T h

/-- A key with its ancestors, from the key to the root. -/
def lineage : Forest K → K → List K
  | [],_ => []
  | (k,none)::T,h => if k=h then [h] else lineage T h
  | (k,some q)::T,h => if k=h then h::lineage T q else lineage T h

/-- Keys are new when they are added, and their parents are there already. -/
def Grown : Forest K → Prop
  | [] => True
  | (k,p)::T => k∉keys T ∧ (∀q∈p,q∈keys T) ∧ Grown T

variable {T : Forest K} {h k q a : K} {p : Option K}

omit [DecidableEq K] in
theorem mem_keys_cons : h∈keys ((k,p)::T) ↔ h=k ∨ h∈keys T := by
  rw [keys,List.map_cons,List.mem_cons]
  rfl

theorem lineage_cons_of_ne (hne : k≠h) : lineage ((k,p)::T) h=lineage T h := by
  cases p with
  | none => rw [lineage,if_neg hne]
  | some q => rw [lineage,if_neg hne]

theorem lineage_of_not_mem (hh : h∉keys T) : lineage T h=[] := by
  induction T with
  | nil => rfl
  | cons node T ih =>
    obtain ⟨k,p⟩ := node
    rw [mem_keys_cons,not_or] at hh
    rw [lineage_cons_of_ne (Ne.symm hh.1)]
    exact ih hh.2

theorem parent_of_not_mem (hh : h∉keys T) : parent T h=none := by
  induction T with
  | nil => rfl
  | cons node T ih =>
    obtain ⟨k,p⟩ := node
    rw [mem_keys_cons,not_or] at hh
    rw [parent,if_neg (Ne.symm hh.1)]
    exact ih hh.2

theorem parent_cons_of_ne (hne : k≠h) : parent ((k,p)::T) h=parent T h := by
  rw [parent,if_neg hne]

theorem Grown.parent_mem (hT : Grown T) (hp : parent T h=some q) : h∈keys T ∧ q∈keys T := by
  induction T with
  | nil => cases hp
  | cons node T ih =>
    obtain ⟨k,p⟩ := node
    rw [parent] at hp
    rw [mem_keys_cons,mem_keys_cons]
    split_ifs at hp with hk
    · exact ⟨.inl hk.symm,.inr (hT.2.1 q hp)⟩
    · obtain ⟨hh,hq⟩ := ih hT.2.2 hp
      exact ⟨.inr hh,.inr hq⟩

omit [DecidableEq K] in
theorem Grown.keys_nodup (hT : Grown T) : (keys T).Nodup := by
  induction T with
  | nil => exact List.nodup_nil
  | cons node T ih =>
    obtain ⟨k,p⟩ := node
    exact List.nodup_cons.mpr ⟨hT.1,ih hT.2.2⟩

/-- A new leaf leaves the lineage of the older keys alone. -/
theorem Grown.lineage_add (hT : Grown ((k,p)::T)) (hh : h∈keys T) :
    lineage ((k,p)::T) h=lineage T h := by
  apply lineage_cons_of_ne
  rintro rfl
  exact hT.1 hh

/-- One step back to the parent. -/
theorem Grown.lineage_some (hT : Grown T) (hp : parent T h=some q) :
    lineage T h=h::lineage T q := by
  induction T with
  | nil => cases hp
  | cons node T ih =>
    obtain ⟨k,p⟩ := node
    have hold := hT.lineage_add (h := q)
    rw [parent] at hp
    split_ifs at hp with hk
    · subst hk hp
      rw [lineage,if_pos rfl,hold (hT.2.1 q rfl)]
    · rw [lineage_cons_of_ne hk,ih hT.2.2 hp,hold (hT.2.2.parent_mem hp).2]

theorem Grown.lineage_none (hT : Grown T) (hh : h∈keys T) (hp : parent T h=none) :
    lineage T h=[h] := by
  induction T with
  | nil => cases hh
  | cons node T ih =>
    obtain ⟨k,p⟩ := node
    rw [parent] at hp
    split_ifs at hp with hk
    · subst hk hp
      rw [lineage,if_pos rfl]
    · rw [lineage_cons_of_ne hk]
      exact ih hT.2.2 ((mem_keys_cons.mp hh).resolve_left (Ne.symm hk)) hp

theorem Grown.self_mem (hT : Grown T) (hh : h∈keys T) : h∈lineage T h := by
  cases hp : parent T h with
  | none =>
    rw [hT.lineage_none hh hp]
    exact List.mem_cons_self
  | some q =>
    rw [hT.lineage_some hp]
    exact List.mem_cons_self

/-- Induction along the parents of a key. -/
theorem Grown.parent_induction (hT : Grown T) {P : K → Prop}
    (hroot : ∀h,h∈keys T → parent T h=none → P h)
    (hstep : ∀h q,parent T h=some q → P q → P h) : ∀h∈keys T,P h := by
  have hlen : ∀n h,(lineage T h).length=n → h∈keys T → P h := by
    intro n
    induction n with
    | zero =>
      intro h hn hh
      have hself := hT.self_mem hh
      rw [List.length_eq_zero_iff.mp hn] at hself
      cases hself
    | succ n ih =>
      intro h hn hh
      cases hp : parent T h with
      | none => exact hroot h hh hp
      | some q =>
        rw [hT.lineage_some hp,List.length_cons] at hn
        exact hstep h q hp (ih q (Nat.succ.inj hn) (hT.parent_mem hp).2)
  intro h hh
  exact hlen _ h rfl hh

/-- What passes from a key to its parent holds on the whole way to the root. -/
theorem Grown.forall_lineage (hT : Grown T) {P : K → Prop}
    (hstep : ∀h q,parent T h=some q → P h → P q) (hh : P h) : ∀a∈lineage T h,P a := by
  by_cases hmem : h∈keys T
  · have hall : P h → ∀a∈lineage T h,P a := by
      refine hT.parent_induction (P := fun h => P h → ∀a∈lineage T h,P a) ?_ ?_ h hmem
      · intro h hmem hp hh a ha
        rw [hT.lineage_none hmem hp,List.mem_singleton] at ha
        rw [ha]
        exact hh
      · intro h q hp ih hh a ha
        rw [hT.lineage_some hp,List.mem_cons] at ha
        rcases ha with rfl | ha
        · exact hh
        · exact ih (hstep h q hp hh) a ha
    exact hall hh
  · intro a ha
    rw [lineage_of_not_mem hmem] at ha
    cases ha

theorem Grown.lineage_subset_keys (hT : Grown T) (ha : a∈lineage T h) : a∈keys T := by
  by_cases hmem : h∈keys T
  · exact hT.forall_lineage (P := fun a => a∈keys T) (fun _ _ hp _ => (hT.parent_mem hp).2) hmem a ha
  · rw [lineage_of_not_mem hmem] at ha
    cases ha

/-- From any key on the way to the root, the rest of the way is its own. -/
theorem Grown.lineage_split (hT : Grown T) {l₁ l₂ : List K} (hl : lineage T h=l₁++a::l₂) :
    lineage T a=a::l₂ := by
  by_cases hmem : h∈keys T
  · have hall : ∀l₁,lineage T h=l₁++a::l₂ → lineage T a=a::l₂ := by
      refine hT.parent_induction
        (P := fun h => ∀l₁,lineage T h=l₁++a::l₂ → lineage T a=a::l₂) ?_ ?_ h hmem
      · intro h hmem hp l₁ hl
        rw [hT.lineage_none hmem hp] at hl
        cases l₁ with
        | nil =>
          obtain ⟨rfl,rfl⟩ := List.cons.inj hl
          exact hT.lineage_none hmem hp
        | cons b l₁ => simp at hl
      · intro h q hp ih l₁ hl
        rw [hT.lineage_some hp] at hl
        cases l₁ with
        | nil =>
          obtain ⟨rfl,rfl⟩ := List.cons.inj hl
          exact hT.lineage_some hp
        | cons b l₁ => exact ih l₁ (List.cons.inj hl).2
    exact hall l₁ hl
  · rw [lineage_of_not_mem hmem] at hl
    simp at hl

theorem Grown.lineage_trans (hT : Grown T) (ha : a∈lineage T h) (hb : k∈lineage T a) :
    k∈lineage T h := by
  obtain ⟨l₁,l₂,hl⟩ := List.append_of_mem ha
  rw [hT.lineage_split hl] at hb
  rw [hl]
  exact List.mem_append_right l₁ hb

/-- The key that is reached by passing from a key to its parent `n` times. -/
def climb (T : Forest K) : Nat → K → Option K
  | 0,h => some h
  | n+1,h => (parent T h).bind (climb T n)

theorem climb_add (m n : Nat) (h : K) : climb T (m+n) h=(climb T m h).bind (climb T n) := by
  induction m generalizing h with
  | zero => rw [Nat.zero_add,climb,Option.bind_some]
  | succ m ih =>
    rw [Nat.succ_add,climb,climb,Option.bind_assoc]
    congr 1
    funext q
    exact ih q

theorem Grown.climb_mem (hT : Grown T) {n : Nat} (hh : h∈keys T) (ha : climb T n h=some a) :
    a∈keys T := by
  induction n generalizing h with
  | zero =>
    obtain rfl := Option.some.inj ha
    exact hh
  | succ n ih =>
    obtain ⟨q,hq,hqa⟩ := Option.bind_eq_some_iff.mp ha
    exact ih (hT.parent_mem hq).2 hqa

/-- A new leaf leaves the ancestors of the older keys alone. -/
theorem Grown.climb_leaf (hT : Grown ((k,p)::T)) {n : Nat} (hh : h∈keys T) :
    climb ((k,p)::T) n h=climb T n h := by
  induction n generalizing h with
  | zero => rfl
  | succ n ih =>
    have hne : k≠h := by
      rintro rfl
      exact hT.1 hh
    rw [climb,climb,parent_cons_of_ne hne]
    cases hq : parent T h with
    | none => rfl
    | some q => exact ih (hT.2.2.parent_mem hq).2

/-- Place `n` on the way to the root. -/
theorem Grown.getElem?_lineage (hT : Grown T) (hh : h∈keys T) (n : Nat) :
    (lineage T h)[n]?=climb T n h := by
  induction n generalizing h with
  | zero =>
    cases hp : parent T h with
    | none => rw [hT.lineage_none hh hp]; rfl
    | some q => rw [hT.lineage_some hp]; rfl
  | succ n ih =>
    rw [climb]
    cases hp : parent T h with
    | none => rw [hT.lineage_none hh hp]; rfl
    | some q =>
      rw [hT.lineage_some hp,List.getElem?_cons_succ]
      exact ih (hT.parent_mem hp).2

end Forest

end Zdeex.Framework
