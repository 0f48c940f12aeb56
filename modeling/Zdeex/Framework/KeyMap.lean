import Mathlib.Algebra.BigOperators.Group.List.Basic
import Mathlib.Algebra.Order.Group.Nat
import Mathlib.Data.List.AList

namespace Zdeex.Framework

/-- Finite maps from one key type to one value type. -/
abbrev KeyMap (K V : Type) := AList (fun _ : K => V)

namespace KeyMap

variable {K V W U G : Type} [DecidableEq K]

/-- Overwrites or removes a single key. -/
def put (m : KeyMap K V) (k : K) : Option V → KeyMap K V
  | some v => m.insert k v
  | none => m.erase k

theorem lookup_put (m : KeyMap K V) (k q : K) (o : Option V) :
    (m.put k o).lookup q=if q=k then o else m.lookup q := by
  by_cases hq : q=k
  · subst q
    cases o <;> simp [put]
  · cases o with
    | none => simp [put,hq,AList.lookup_erase_ne hq]
    | some v => simp [put,hq,AList.lookup_insert_ne hq]

/-- One pass over the entries of a child map. The entry at a key decides, from
what the target holds there, what the target holds afterwards; `none` is a
failed check, and `g` updates an accumulator on the side. -/
def mergeLoop (f : K → V → Option W → Option (Option W))
    (g : V → Option W → U → U) :
    List (Sigma fun _ : K => V) → KeyMap K W × U → Option (KeyMap K W × U)
  | [],acc => some acc
  | ⟨k,v⟩::l,(m,u) =>
      match f k v (m.lookup k) with
      | none => none
      | some o => mergeLoop f g l (m.put k o,g v (m.lookup k) u)

/-- What a pass with the body `f` leaves at the key `k`. -/
def mergedAt (f : K → V → Option W → Option (Option W)) (k : K) (old : Option W) :
    Option V → Option W
  | none => old
  | some v => (f k v old).join

private theorem mergeLoop_lookup (f : K → V → Option W → Option (Option W))
    (g : V → Option W → U → U) (l : List (Sigma fun _ : K => V)) (hl : l.NodupKeys)
    (m : KeyMap K W) (u : U)
    (hf : ∀k v,l.dlookup k=some v → (f k v (m.lookup k)).isSome) :
    ∃m' u',mergeLoop f g l (m,u)=some (m',u') ∧
      ∀q,m'.lookup q=mergedAt f q (m.lookup q) (l.dlookup q) := by
  induction l generalizing m u with
  | nil => exact ⟨m,u,rfl,fun q => rfl⟩
  | cons e l ih =>
    obtain ⟨k,v⟩ := e
    obtain ⟨hk,hl'⟩ := List.nodupKeys_cons.mp hl
    have hhere : (f k v (m.lookup k)).isSome := hf k v (List.dlookup_cons_eq l k v)
    obtain ⟨o,ho⟩ := Option.isSome_iff_exists.mp hhere
    have hrest : ∀q w,l.dlookup q=some w → (f q w ((m.put k o).lookup q)).isSome := by
      intro q w hq
      have hne : q≠k := by
        intro hqk
        subst q
        rw [List.dlookup_eq_none.mpr hk] at hq
        simp at hq
      rw [lookup_put,if_neg hne]
      exact hf q w (by rw [List.dlookup_cons_ne l ⟨k,v⟩ hne]; exact hq)
    obtain ⟨m',u',hrun,hm'⟩ := ih hl' (m.put k o) (g v (m.lookup k) u) hrest
    refine ⟨m',u',by simpa only [mergeLoop,ho] using hrun,?_⟩
    intro q
    rw [hm' q,lookup_put]
    by_cases hq : q=k
    · subst q
      rw [List.dlookup_eq_none.mpr hk,List.dlookup_cons_eq l k v]
      simp [mergedAt,ho]
    · rw [List.dlookup_cons_ne l ⟨k,v⟩ hq]
      simp [hq]

/-- Distinct keys make the pass order free: it succeeds when every check holds
against the original target, and each key is then treated on its own. -/
theorem mergeLoop_spec (f : K → V → Option W → Option (Option W))
    (g : V → Option W → U → U) (c : KeyMap K V) (m : KeyMap K W) (u : U)
    (hf : ∀k v,c.lookup k=some v → (f k v (m.lookup k)).isSome) :
    ∃m' u',mergeLoop f g c.entries (m,u)=some (m',u') ∧
      ∀q,m'.lookup q=mergedAt f q (m.lookup q) (c.lookup q) :=
  mergeLoop_lookup f g c.entries c.nodupKeys m u hf

/-- A pass that cannot fail and keeps no accumulator. -/
def writeLoop (f : K → V → Option W → Option W) :
    List (Sigma fun _ : K => V) → KeyMap K W → KeyMap K W
  | [],m => m
  | ⟨k,v⟩::l,m => writeLoop f l (m.put k (f k v (m.lookup k)))

theorem mergeLoop_eq_writeLoop (f : K → V → Option W → Option W)
    (l : List (Sigma fun _ : K => V)) (m : KeyMap K W) (u : U) :
    mergeLoop (fun k v o => some (f k v o)) (fun _ _ u => u) l (m,u)=
      some (writeLoop f l m,u) := by
  induction l generalizing m with
  | nil => rfl
  | cons e l ih => exact ih _

theorem writeLoop_spec (f : K → V → Option W → Option W) (c : KeyMap K V) (m : KeyMap K W)
    (q : K) :
    (writeLoop f c.entries m).lookup q=
      match c.lookup q with
      | none => m.lookup q
      | some v => f q v (m.lookup q) := by
  obtain ⟨m',u',hrun,hm'⟩ := mergeLoop_spec (fun k v o => some (f k v o))
    (fun _ _ u => u) c m () (fun _ _ _ => rfl)
  rw [mergeLoop_eq_writeLoop] at hrun
  obtain ⟨rfl,-⟩ := Prod.mk.inj (Option.some.inj hrun)
  rw [hm' q]
  cases c.lookup q <;> rfl

/-- The sum of a quantity over the entries of a map. -/
def total [AddCommMonoid G] (f : V → G) (m : KeyMap K V) : G :=
  (m.entries.map fun e => f e.2).sum

section Total

variable [AddCommMonoid G] (f : V → G) {m : KeyMap K V} {k : K}

omit [DecidableEq K] in
@[simp] theorem total_empty : total f (∅ : KeyMap K V)=0 := rfl

theorem total_insert (m : KeyMap K V) (k : K) (v : V) :
    total f (m.insert k v)=f v+total f (m.erase k) :=
  List.sum_cons

theorem total_of_lookup {v : V} (h : m.lookup k=some v) :
    total f m=f v+total f (m.erase k) := by
  have hmem : k∈m.entries.keys := by
    have hk : k∈m := AList.lookup_isSome.mp (by simp [h])
    exact hk
  obtain ⟨w,l₁,l₂,hnot,hl,herase⟩ := List.exists_of_kerase hmem
  have hw : m.lookup k=some w := AList.mem_lookup_iff.mpr (by rw [hl]; simp)
  obtain rfl : w=v := Option.some.inj (hw.symm.trans h)
  have hrest : total f (m.erase k)=((l₁++l₂).map fun e => f e.2).sum := by
    rw [← herase]
    rfl
  rw [hrest,total,hl]
  simp [add_left_comm]

theorem erase_of_lookup_none (h : m.lookup k=none) : m.erase k=m :=
  AList.ext (List.kerase_of_notMem_keys (AList.lookup_eq_none.mp h))

/-- Writing one key moves the sum by what stood there and by what stands there now. -/
theorem total_put (m : KeyMap K V) (k : K) (o : Option V) :
    total f (m.put k o)+(m.lookup k).elim 0 f=total f m+o.elim 0 f := by
  have hold : total f m=(m.lookup k).elim 0 f+total f (m.erase k) := by
    cases h : m.lookup k with
    | none => simp [erase_of_lookup_none h]
    | some v => exact total_of_lookup f h
  have hnew : total f (m.put k o)=o.elim 0 f+total f (m.erase k) := by
    cases o with
    | none => simp [put]
    | some v => exact total_insert f m k v
  rw [hold,hnew]
  simp only [add_comm,add_left_comm]

omit [DecidableEq K] in
theorem map_total {H : Type} [AddCommMonoid H] (φ : G →+ H) (m : KeyMap K V) :
    φ (total f m)=total (fun v => φ (f v)) m := by
  simp only [total,map_list_sum,List.map_map,Function.comp_def]

theorem le_total {f : V → ℕ} {v : V} (h : m.lookup k=some v) : f v≤total f m :=
  (total_of_lookup f h).symm ▸ Nat.le_add_right _ _

end Total

/-- A pass whose accumulator moves with the entry it writes keeps the accumulator in
step with the whole sum. -/
theorem mergeLoop_total [AddCommGroup G] {f : K → V → Option W → Option (Option W)}
    {g : V → Option W → G → G} {w : W → G}
    (hg : ∀k v old o u,f k v old=some o → g v old u+old.elim 0 w=u+o.elim 0 w)
    {l : List (Sigma fun _ : K => V)} {m m' : KeyMap K W} {u u' : G}
    (h : mergeLoop f g l (m,u)=some (m',u')) : u'+total w m=u+total w m' := by
  induction l generalizing m u with
  | nil =>
    obtain ⟨rfl,rfl⟩ := Prod.mk.inj (Option.some.inj h)
    rfl
  | cons e l ih =>
    obtain ⟨k,v⟩ := e
    cases ho : f k v (m.lookup k) with
    | none => simp [mergeLoop,ho] at h
    | some o =>
      simp only [mergeLoop,ho] at h
      have hrest := ih h
      have hput := total_put w m k o
      have hhere := hg k v (m.lookup k) o u ho
      have hleft : u'+total w m+o.elim 0 w=u'+total w (m.put k o)+(m.lookup k).elim 0 w := by
        rw [add_assoc,add_assoc,hput]
      have hright : g v (m.lookup k) u+total w m'+(m.lookup k).elim 0 w=
          u+total w m'+o.elim 0 w := by
        rw [add_right_comm,hhere,add_right_comm]
      exact add_right_cancel ((hleft.trans (congrArg (·+_) hrest)).trans hright)

end KeyMap

end Zdeex.Framework
