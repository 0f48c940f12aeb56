import Mathlib.Tactic.Common
import Zdeex.Framework.KeyMap
import Zdeex.Framework.LayerStack

namespace Zdeex.Framework

open LayerStack (base layer Layers)

/-- Maps that cache what is read through them: what the base answers, what an
entry shows, and the entry that is kept after a value came from below. -/
structure Caching (K X V σ : Type) where
  read : σ → K → V
  shown : X → V
  fetched : V → Option X
  shown_fetched : ∀v e,fetched v=some e → shown e=v

namespace Caching

variable {K X V σ A : Type} [DecidableEq K]

/-- An entry if there is one, else the value below. -/
def shadow (C : Caching K X V σ) (below : V) : Option X → V
  | none => below
  | some e => C.shown e

/-- The value at a key, without filling any map. -/
def valueAt (C : Caching K X V σ) : LayerStack (KeyMap K X) σ → K → V
  | base s,k => C.read s k
  | layer m w,k => C.shadow (C.valueAt w k) (m.lookup k)

/-- The read that fills every map it passes. -/
def fetch (C : Caching K X V σ) :
    LayerStack (KeyMap K X) σ → K → V × LayerStack (KeyMap K X) σ
  | base s,k => (C.read s k,base s)
  | layer m w,k =>
      match m.lookup k with
      | some e => (C.shown e,layer m w)
      | none =>
          let r := C.fetch w k
          (r.1,layer (match C.fetched r.1 with
            | none => m
            | some e => m.insert k e) r.2)

/-- A map has an entry of its own; a base always counts as holding one. -/
def Held : LayerStack (KeyMap K X) σ → K → Prop
  | base _,_ => True
  | layer m _,k => (m.lookup k).isSome

/-- `w'` is `w` after reads. -/
def Fills (C : Caching K X V σ) : LayerStack (KeyMap K X) σ → LayerStack (KeyMap K X) σ → Prop
  | base s,base s' => s'=s
  | layer m w,layer m' w' => C.Fills w w' ∧
      ∀k,m'.lookup k=m.lookup k ∨
        ∃e,m.lookup k=none ∧ C.fetched (C.valueAt w k)=some e ∧ m'.lookup k=some e ∧ Held w' k
  | _,_ => False

section Reads

variable (C : Caching K X V σ)

theorem valueAt_none {m : KeyMap K X} {w : LayerStack (KeyMap K X) σ} {k : K}
    (h : m.lookup k=none) : C.valueAt (layer m w) k=C.valueAt w k := by
  rw [valueAt,h,shadow]

theorem valueAt_some {m : KeyMap K X} {w : LayerStack (KeyMap K X) σ} {k : K} {e : X}
    (h : m.lookup k=some e) : C.valueAt (layer m w) k=C.shown e := by
  rw [valueAt,h,shadow]

theorem Fills.refl (w : LayerStack (KeyMap K X) σ) : C.Fills w w := by
  induction w with
  | base s => rfl
  | layer m w ih => exact ⟨ih,fun k => .inl rfl⟩

/-- A read returns the value and only fills maps. -/
theorem fetch_spec (w : LayerStack (KeyMap K X) σ) (k : K) :
    (C.fetch w k).1=C.valueAt w k ∧ C.Fills w (C.fetch w k).2 ∧
    ((C.fetched (C.valueAt w k)).isSome → Held (C.fetch w k).2 k) := by
  induction w with
  | base s => exact ⟨rfl,rfl,fun _ => trivial⟩
  | layer m w ih =>
    obtain ⟨hval,hfill,hheld⟩ := ih
    cases hl : m.lookup k with
    | some e =>
      have hc : C.fetch (layer m w) k=(C.shown e,layer m w) := by simp [fetch,hl]
      rw [hc]
      refine ⟨(C.valueAt_some hl).symm,Fills.refl C _,fun _ => ?_⟩
      change (m.lookup k).isSome
      rw [hl]
      rfl
    | none =>
      rw [C.valueAt_none hl]
      cases hf : C.fetched (C.valueAt w k) with
      | none =>
        have hc : C.fetch (layer m w) k=(C.valueAt w k,layer m (C.fetch w k).2) := by
          simp [fetch,hl,hval,hf]
        rw [hc]
        exact ⟨rfl,⟨hfill,fun q => .inl rfl⟩,fun h => by simp at h⟩
      | some e =>
        have hc : C.fetch (layer m w) k=
            (C.valueAt w k,layer (m.insert k e) (C.fetch w k).2) := by
          simp [fetch,hl,hval,hf]
        rw [hc]
        refine ⟨rfl,⟨hfill,fun q => ?_⟩,fun _ => ?_⟩
        · by_cases hq : q=k
          · subst q
            exact .inr ⟨e,hl,hf,AList.lookup_insert _,hheld (by simp [hf])⟩
          · exact .inl (AList.lookup_insert_ne hq)
        · change ((m.insert k e).lookup k).isSome
          simp

end Reads

variable {C : Caching K X V σ}

theorem Fills.valueAt_eq {w w' : LayerStack (KeyMap K X) σ} (h : C.Fills w w') (k : K) :
    C.valueAt w' k=C.valueAt w k := by
  induction w generalizing w' with
  | base s =>
    match w',h with
    | base s',h => rw [show s'=s from h]
  | layer m w ih =>
    match w',h with
    | layer m' w',h =>
      rcases h.2 k with hk | ⟨e,hm,hf,hm',-⟩
      · simp only [valueAt,hk,ih h.1]
      · rw [C.valueAt_none hm,C.valueAt_some hm']
        exact C.shown_fetched _ _ hf

theorem Fills.held {w w' : LayerStack (KeyMap K X) σ} (h : C.Fills w w') (k : K)
    (hk : Held w k) : Held w' k := by
  match w,w',h with
  | base s,base s',_ => trivial
  | layer m w,layer m' w',h =>
    change (m.lookup k).isSome at hk
    change (m'.lookup k).isSome
    rcases h.2 k with he | ⟨e,hm,-,-,-⟩
    · rwa [he]
    · simp [hm] at hk

/-- Every entry keeps a promise `P` about the view below its map. -/
def EntriesOk (P : LayerStack (KeyMap K X) σ → K → X → Prop) :
    LayerStack (KeyMap K X) σ → Prop
  | base _ => True
  | layer m w => (∀k e,m.lookup k=some e → P w k e) ∧ EntriesOk P w

/-- The layers and one abstract map for each of them: entries keep their promise
and each suffix shows, through `R`, what its map holds. -/
def Tracks (C : Caching K X V σ) (P : LayerStack (KeyMap K X) σ → K → X → Prop)
    (R : K → V → A → Prop) (w : LayerStack (KeyMap K X) σ) (ms : List (K → A)) : Prop :=
  EntriesOk P w ∧ Layers (fun w m => ∀k,R k (C.valueAt w k) (m k)) w ms

/-- A promise that reads cannot break and that fetched entries keep. -/
structure Stable (C : Caching K X V σ) (P : LayerStack (KeyMap K X) σ → K → X → Prop)
    (R : K → V → A → Prop) : Prop where
  fill : ∀{w w' k e},C.Fills w w' → P w k e → P w' k e
  fetched : ∀{w k e a},C.fetched (C.valueAt w k)=some e → Held w k → R k (C.valueAt w k) a →
    P w k e

/-- One key of a merge into a parent `p` over `w`: the checks hold, the promise
is kept towards `w`, and the parent then shows what the child showed. -/
def Merges (C : Caching K X V σ) (P : LayerStack (KeyMap K X) σ → K → X → Prop)
    (R : K → V → A → Prop) (f : K → X → Option X → Option (Option X)) : Prop :=
  ∀{p w k e b},P (layer p w) k e → (∀us,p.lookup k=some us → P w k us) →
    R k (C.valueAt w k) b → ∃o,f k e (p.lookup k)=some o ∧ (∀e',o=some e' → P w k e') ∧
      ∀a,R k (C.shown e) a → R k (C.shadow (C.valueAt w k) o) a

section Tracking

variable {P : LayerStack (KeyMap K X) σ → K → X → Prop} {R : K → V → A → Prop}

theorem Tracks.shows {w : LayerStack (KeyMap K X) σ} {m : K → A} {ms : List (K → A)}
    (h : C.Tracks P R w (m::ms)) (k : K) : R k (C.valueAt w k) (m k) := by
  obtain ⟨a,as,ha,hk⟩ := h.2.cons_inv
  obtain rfl := (List.cons.inj ha).1
  exact hk k

theorem Tracks.some_value {w : LayerStack (KeyMap K X) σ} {ms : List (K → A)}
    (h : C.Tracks P R w ms) (k : K) : ∃a,R k (C.valueAt w k) a := by
  obtain ⟨a,as,-,hk⟩ := h.2.cons_inv
  exact ⟨a k,hk k⟩

theorem Tracks.tail {m : KeyMap K X} {w : LayerStack (KeyMap K X) σ} {a : K → A}
    {as : List (K → A)} (h : C.Tracks P R (layer m w) (a::as)) : C.Tracks P R w as :=
  ⟨h.1.2,h.2.2⟩

theorem Tracks.of_fills (hP : C.Stable P R) {w w' : LayerStack (KeyMap K X) σ}
    {ms : List (K → A)} (h : C.Tracks P R w ms) (hf : C.Fills w w') : C.Tracks P R w' ms := by
  induction w generalizing w' ms with
  | base s =>
    match w',hf with
    | base s',hf => rwa [show s'=s from hf]
  | layer m w ih =>
    match w',ms,hf,h with
    | layer m' w',a::as,hf,h =>
      have hw' : C.Tracks P R w' as := ih h.tail hf.1
      refine ⟨⟨fun k e he => ?_,hw'.1⟩,fun k => ?_,hw'.2⟩
      · rcases hf.2 k with hk | ⟨e',-,hfe,hm',hheld⟩
        · exact hP.fill hf.1 (h.1.1 k e (hk ▸ he))
        · obtain rfl : e=e' := Option.some.inj (he.symm.trans hm')
          obtain ⟨b,hb⟩ := hw'.some_value k
          exact hP.fetched (by rw [hf.1.valueAt_eq]; exact hfe) hheld hb
      · rw [hf.valueAt_eq k]
        exact h.2.1 k

/-- A new, empty map shows what is below it. -/
theorem Tracks.empty {w : LayerStack (KeyMap K X) σ} {m : K → A} {ms : List (K → A)}
    (h : C.Tracks P R w (m::ms)) : C.Tracks P R (layer ∅ w) (m::m::ms) := by
  refine ⟨⟨fun k e he => ?_,h.1⟩,fun k => ?_,h.2⟩
  · simp at he
  · rw [C.valueAt_none (AList.lookup_empty k)]
    exact h.shows k

theorem Tracks.drop {m : KeyMap K X} {w : LayerStack (KeyMap K X) σ} {ms : List (K → A)}
    (h : C.Tracks P R (layer m w) ms) : C.Tracks P R w (dropSnapshot ms) := by
  obtain ⟨a,b,as,rfl,-,-,-⟩ := h.2.layer_inv
  exact h.tail

/-- New entries on top of layers that were only read. -/
theorem Tracks.top {m m' : KeyMap K X} {w w' : LayerStack (KeyMap K X) σ} {a a' : K → A}
    {as : List (K → A)} (hP : C.Stable P R) (h : C.Tracks P R (layer m w) (a::as))
    (hf : C.Fills w w') (hkey : ∀k,(m'.lookup k=m.lookup k ∧ a' k=a k) ∨
      ((∀e,m'.lookup k=some e → P w' k e) ∧
        R k (C.shadow (C.valueAt w' k) (m'.lookup k)) (a' k))) :
    C.Tracks P R (layer m' w') (a'::as) := by
  have hw : C.Tracks P R w' as := h.tail.of_fills hP hf
  refine ⟨⟨fun k e he => ?_,hw.1⟩,fun k => ?_,hw.2⟩
  · rcases hkey k with ⟨hk,-⟩ | ⟨hk,-⟩
    · exact hP.fill hf (h.1.1 k e (hk ▸ he))
    · exact hk e he
  · rcases hkey k with ⟨hk,ha⟩ | ⟨-,hk⟩
    · rw [valueAt,hk,ha,hf.valueAt_eq k]
      exact h.2.1 k
    · exact hk

theorem Merges.isSome {f : K → X → Option X → Option (Option X)} (hf : C.Merges P R f)
    {c p : KeyMap K X} {w : LayerStack (KeyMap K X) σ} {m a : K → A} {ms : List (K → A)}
    (h : C.Tracks P R (layer c (layer p w)) (m::a::ms)) (k : K) (e : X)
    (he : c.lookup k=some e) : (f k e (p.lookup k)).isSome := by
  obtain ⟨b,hb⟩ := h.tail.tail.some_value k
  obtain ⟨o,ho,-⟩ := hf (h.1.1 k e he) (fun us hus => h.1.2.1 k us hus) hb
  rw [ho]
  rfl

/-- Merging a child map into its parent. -/
theorem Tracks.merge {f : K → X → Option X → Option (Option X)} (hf : C.Merges P R f)
    {c p p' : KeyMap K X} {w : LayerStack (KeyMap K X) σ} {m a : K → A} {ms : List (K → A)}
    (h : C.Tracks P R (layer c (layer p w)) (m::a::ms))
    (hp' : ∀q,p'.lookup q=KeyMap.mergedAt f q (p.lookup q) (c.lookup q)) :
    C.Tracks P R (layer p' w) (m::ms) := by
  have hchild := h.1.1
  have hparent := h.1.2.1
  refine ⟨⟨fun k e' he' => ?_,h.1.2.2⟩,fun k => ?_,h.2.2.2⟩
  · obtain ⟨b,hb⟩ := h.tail.tail.some_value k
    rw [hp' k] at he'
    cases hl : c.lookup k with
    | none =>
      rw [hl] at he'
      exact hparent k e' he'
    | some e =>
      obtain ⟨o,ho,hok,-⟩ := hf (hchild k e hl) (fun us hus => hparent k us hus) hb
      simp only [hl,KeyMap.mergedAt,ho,Option.join_some] at he'
      exact hok e' he'
  · obtain ⟨b,hb⟩ := h.tail.tail.some_value k
    have hm := h.2.1 k
    have hk := hp' k
    cases hl : c.lookup k with
    | none =>
      rw [hl] at hk
      rw [C.valueAt_none hl] at hm
      rw [valueAt,hk]
      exact hm
    | some e =>
      obtain ⟨o,ho,-,hshow⟩ := hf (hchild k e hl) (fun us hus => hparent k us hus) hb
      simp only [hl,KeyMap.mergedAt,ho,Option.join_some] at hk
      rw [C.valueAt_some hl] at hm
      rw [valueAt,hk]
      exact hshow (m k) hm

/-- Writing a map into the base below it. -/
theorem Tracks.write {c : KeyMap K X} {s s' : σ} {m a : K → A} {ms : List (K → A)}
    (h : C.Tracks P R (layer c (base s)) (m::a::ms))
    (hs' : ∀k b,(∀e,c.lookup k=some e → P (base s) k e) → R k (C.read s k) b →
      R k (C.shadow (C.read s k) (c.lookup k)) (m k) → R k (C.read s' k) (m k)) :
    C.Tracks P R (base s') (m::ms) := by
  match ms,h with
  | [],h => exact ⟨trivial,fun k => hs' k (a k) (fun e he => h.1.1 k e he) (h.2.2 k) (h.2.1 k)⟩

end Tracking

end Caching

end Zdeex.Framework
