import Mathlib.Data.List.Basic
import Mathlib.Logic.Function.Basic

namespace Zdeex.Framework

variable {K V E I : Type} [DecidableEq K] [DecidableEq I]

omit [DecidableEq K] [DecidableEq I] in
theorem mem_of_mapM {A B : Type} {g : A → Option B} {xs : List A} {ys : List B} {y : B}
    (h : xs.mapM g=some ys) (hy : y∈ys) : ∃x∈xs,g x=some y := by
  induction xs generalizing ys with
  | nil =>
    rw [← Option.some.inj h] at hy
    cases hy
  | cons x xs ih =>
    rw [List.mapM_cons] at h
    obtain ⟨b,hb,h⟩ := Option.bind_eq_some_iff.mp h
    obtain ⟨bs,hbs,h⟩ := Option.bind_eq_some_iff.mp h
    rw [← Option.some.inj h] at hy
    rcases List.mem_cons.mp hy with rfl | hy
    · exact ⟨x,List.mem_cons_self,hb⟩
    · obtain ⟨z,hz,hzy⟩ := ih hbs hy
      exact ⟨z,List.mem_cons_of_mem x hz,hzy⟩

section Maps

variable {m : K → Option V} {l : List (K × V)} {k q : K} {v w : V}

/-- Inserts an entry unless the key is there. -/
def insertNew (m : K → Option V) (k : K) (v : V) : K → Option V :=
  if (m k).isNone then Function.update m k (some v) else m

def insertAll (m : K → Option V) (l : List (K × V)) : K → Option V :=
  l.foldl (fun m x => insertNew m x.1 x.2) m

/-- Writes entries one after the other. -/
def writeAll (m : K → Option V) (l : List (K × V)) : K → Option V :=
  l.foldl (fun m x => Function.update m x.1 (some x.2)) m

def eraseAll (m : K → Option V) (l : List K) : K → Option V := fun k => if k∈l then none else m k

theorem insertNew_some (h : insertNew m k v q=some w) : m q=some w ∨ q=k ∧ w=v := by
  rw [insertNew] at h
  split_ifs at h
  · by_cases hq : q=k
    · rw [hq,Function.update_self] at h
      exact .inr ⟨hq,(Option.some.inj h).symm⟩
    · rw [Function.update_of_ne hq] at h
      exact .inl h
  · exact .inl h

theorem insertNew_of_some (h : m k=some v) : insertNew m k w=m := by
  rw [insertNew,h]
  rfl

theorem insertNew_of_none (h : m k=none) : insertNew m k v=Function.update m k (some v) := by
  rw [insertNew,h]
  rfl

theorem insertAll_some (h : insertAll m l q=some w) : m q=some w ∨ (q,w)∈l := by
  induction l generalizing m with
  | nil => exact .inl h
  | cons x l ih =>
    rcases ih h with hold | hmem
    · rcases insertNew_some hold with hm | ⟨rfl,rfl⟩
      · exact .inl hm
      · exact .inr List.mem_cons_self
    · exact .inr (List.mem_cons_of_mem x hmem)

theorem writeAll_of_not_mem (h : ∀v,(q,v)∉l) : writeAll m l q=m q := by
  induction l generalizing m with
  | nil => rfl
  | cons x l ih =>
    have hq : q≠x.1 := by
      rintro rfl
      exact h x.2 List.mem_cons_self
    calc
      writeAll (Function.update m x.1 (some x.2)) l q=Function.update m x.1 (some x.2) q :=
        ih (fun v hv => h v (List.mem_cons_of_mem x hv))
      _ = m q := Function.update_of_ne hq _ _

/-- Where the entries of a key agree, the last one written is any of them. -/
theorem writeAll_of_mem (hmem : (q,v)∈l) (hone : ∀w,(q,w)∈l → w=v) : writeAll m l q=some v := by
  induction l generalizing m with
  | nil => cases hmem
  | cons x l ih =>
    by_cases hlater : ∃w,(q,w)∈l
    · obtain ⟨w,hw⟩ := hlater
      rw [hone w (List.mem_cons_of_mem x hw)] at hw
      exact ih hw (fun u hu => hone u (List.mem_cons_of_mem x hu))
    · have hnone : ∀w,(q,w)∉l := fun w hw => hlater ⟨w,hw⟩
      rcases List.mem_cons.mp hmem with rfl | hl
      · calc
          writeAll (Function.update m q (some v)) l q=Function.update m q (some v) q :=
            writeAll_of_not_mem hnone
          _ = some v := Function.update_self q _ m
      · exact absurd hl (hnone v)

end Maps

section Inverse

variable {parts : E → List (K × V)} {pool rest : List E} {m : K → Option V} {keys : List K} {e : E}

/-- The map holds what the members of a pool contribute, and nothing else. -/
def Inverse (parts : E → List (K × V)) (pool : List E) (m : K → Option V) : Prop :=
  ∀k v,m k=some v ↔ ∃e∈pool,(k,v)∈parts e

theorem Inverse.add (hm : Inverse parts pool m) (hone : ∀k v w,(k,v)∈parts e → (k,w)∈parts e → w=v)
    (hnew : ∀f∈pool,∀k v w,(k,v)∈parts e → (k,w)∉parts f) :
    Inverse parts (pool++[e]) (writeAll m (parts e)) := by
  intro k v
  by_cases hkey : ∃w,(k,w)∈parts e
  · obtain ⟨w,hw⟩ := hkey
    rw [writeAll_of_mem hw (fun u hu => hone k w u hw hu)]
    constructor
    · intro heq
      rw [← Option.some.inj heq]
      exact ⟨e,List.mem_append_right _ (List.mem_singleton_self e),hw⟩
    · rintro ⟨f,hf,hv⟩
      rcases List.mem_append.mp hf with hpool | hlast
      · exact absurd hv (hnew f hpool k w v hw)
      · rw [List.mem_singleton.mp hlast] at hv
        rw [hone k w v hw hv]
  · have hnone : ∀w,(k,w)∉parts e := fun w hw => hkey ⟨w,hw⟩
    rw [writeAll_of_not_mem hnone,hm k v]
    constructor
    · rintro ⟨f,hf,hv⟩
      exact ⟨f,List.mem_append_left _ hf,hv⟩
    · rintro ⟨f,hf,hv⟩
      rcases List.mem_append.mp hf with hpool | hlast
      · exact ⟨f,hpool,hv⟩
      · rw [List.mem_singleton.mp hlast] at hv
        exact absurd hv (hnone v)

/-- A member goes, with keys that belong to no other member. -/
theorem Inverse.remove (hm : Inverse parts pool m) (hrest : ∀f,f∈rest ↔ f∈pool ∧ f≠e)
    (hkeys : ∀k v,(k,v)∈parts e → k∈keys) (hothers : ∀f∈rest,∀k v,(k,v)∈parts f → k∉keys) :
    Inverse parts rest (eraseAll m keys) := by
  intro k v
  rw [eraseAll]
  split_ifs with hk
  · constructor
    · intro hno
      cases hno
    · rintro ⟨f,hf,hv⟩
      exact absurd hk (hothers f hf k v hv)
  · rw [hm k v]
    constructor
    · rintro ⟨f,hf,hv⟩
      refine ⟨f,(hrest f).mpr ⟨hf,?_⟩,hv⟩
      rintro rfl
      exact hk (hkeys k v hv)
    · rintro ⟨f,hf,hv⟩
      exact ⟨f,((hrest f).mp hf).1,hv⟩

end Inverse

section Tracked

variable {ident : E → I} {entries : E → Option (List (K × V))} {pool rest : List E}
  {m : K → Option V} {inserted : I → Option (List K)} {e : E} {l : List (K × V)} {keys : List K}

/-- An index that is only ever added to, with the keys that each member has inserted. -/
structure Tracked (ident : E → I) (entries : E → Option (List (K × V))) (pool : List E)
    (m : K → Option V) (inserted : I → Option (List K)) : Prop where
  only : ∀k v,m k=some v → ∃e∈pool,∃l,entries e=some l ∧ (k,v)∈l ∧
    ∃keys,inserted (ident e)=some keys ∧ k∈keys
  recorded : ∀i keys,inserted i=some keys → ∃e∈pool,ident e=i ∧
    ∃l,entries e=some l ∧ keys=l.map Prod.fst

omit [DecidableEq K] [DecidableEq I] in
theorem Tracked.mono (hm : Tracked ident entries pool m inserted) (hsub : ∀f∈pool,f∈rest) :
    Tracked ident entries rest m inserted := by
  refine ⟨?_,?_⟩
  · intro k v hv
    obtain ⟨f,hf,hrest⟩ := hm.only k v hv
    exact ⟨f,hsub f hf,hrest⟩
  · intro i keys hi
    obtain ⟨f,hf,hrest⟩ := hm.recorded i keys hi
    exact ⟨f,hsub f hf,hrest⟩

theorem Tracked.insert (hm : Tracked ident entries pool m inserted)
    (hid : ∀f∈pool,∀g∈pool,ident f=ident g → f=g) (he : e∈pool) (hl : entries e=some l) :
    Tracked ident entries pool (insertAll m l) (insertNew inserted (ident e) (l.map Prod.fst)) := by
  cases hins : inserted (ident e) with
  | none =>
    rw [insertNew_of_none hins]
    refine ⟨?_,?_⟩
    · intro k v hv
      rcases insertAll_some hv with hold | hmem
      · obtain ⟨f,hf,l',hl',hkv,keys,hkeys,hk⟩ := hm.only k v hold
        refine ⟨f,hf,l',hl',hkv,keys,?_,hk⟩
        rw [Function.update_of_ne]
        · exact hkeys
        · intro heq
          rw [heq,hins] at hkeys
          cases hkeys
      · exact ⟨e,he,l,hl,hmem,_,Function.update_self _ _ _,List.mem_map_of_mem hmem⟩
    · intro i keys hi
      by_cases hie : i=ident e
      · rw [hie,Function.update_self] at hi
        exact ⟨e,he,hie.symm,l,hl,(Option.some.inj hi).symm⟩
      · rw [Function.update_of_ne hie] at hi
        exact hm.recorded i keys hi
  | some keys =>
    rw [insertNew_of_some hins]
    obtain ⟨f,hf,hfe,l',hl',hkeys⟩ := hm.recorded _ keys hins
    rw [hid f hf e he hfe,hl] at hl'
    refine ⟨?_,hm.recorded⟩
    intro k v hv
    rcases insertAll_some hv with hold | hmem
    · exact hm.only k v hold
    · refine ⟨e,he,l,hl,hmem,keys,hins,?_⟩
      rw [hkeys,← Option.some.inj hl']
      exact List.mem_map_of_mem hmem

/-- Takes back what a member has inserted, if anything. -/
def untrack (m : K → Option V) (inserted : I → Option (List K)) (i : I) :
    (K → Option V) × (I → Option (List K)) :=
  match inserted i with
  | none => (m,inserted)
  | some keys => (eraseAll m keys,Function.update inserted i none)

theorem untrack_some {k : K} {v : V} {i : I} (h : (untrack m inserted i).1 k=some v) :
    m k=some v ∧ ∀keys,inserted i=some keys → k∉keys := by
  rw [untrack] at h
  cases hi : inserted i with
  | none =>
    rw [hi] at h
    refine ⟨h,?_⟩
    intro keys hno
    cases hno
  | some keys =>
    rw [hi] at h
    dsimp only [eraseAll] at h
    split_ifs at h with hk
    refine ⟨h,?_⟩
    intro keys' hkeys'
    rw [← Option.some.inj hkeys']
    exact hk

theorem untrack_of_not_mem {k : K} {i : I} (h : ∀keys,inserted i=some keys → k∉keys) :
    (untrack m inserted i).1 k=m k := by
  rw [untrack]
  cases hi : inserted i with
  | none => rfl
  | some keys => exact if_neg (h keys hi)

theorem untrack_of_empty {i : I} (h : ∀k,m k=none) : (untrack m inserted i).1=m := by
  funext k
  rw [h k,Option.eq_none_iff_forall_ne_some]
  intro v hv
  have hold := (untrack_some hv).1
  rw [h k] at hold
  cases hold

theorem untrack_inserted (m : K → Option V) (inserted : I → Option (List K)) (i j : I) :
    (untrack m inserted i).2 j=if j=i then none else inserted j := by
  rw [untrack]
  by_cases hji : j=i
  · rw [if_pos hji,hji]
    cases hi : inserted i with
    | none => exact hi
    | some keys => exact Function.update_self _ _ _
  · rw [if_neg hji]
    cases inserted i with
    | none => rfl
    | some keys => exact Function.update_of_ne hji _ _

/-- A member goes with the keys it has inserted. -/
theorem Tracked.remove (hm : Tracked ident entries pool m inserted)
    (hrest : ∀f,f∈rest ↔ f∈pool ∧ ident f≠ident e) :
    Tracked ident entries rest (untrack m inserted (ident e)).1
      (untrack m inserted (ident e)).2 := by
  refine ⟨?_,?_⟩
  · intro k v hv
    obtain ⟨hold,hgone⟩ := untrack_some hv
    obtain ⟨f,hf,l,hl,hkv,keys,hkeys,hk⟩ := hm.only k v hold
    have hne : ident f≠ident e := by
      intro heq
      rw [heq] at hkeys
      exact hgone keys hkeys hk
    refine ⟨f,(hrest f).mpr ⟨hf,hne⟩,l,hl,hkv,keys,?_,hk⟩
    rw [untrack_inserted,if_neg hne]
    exact hkeys
  · intro i keys hi
    rw [untrack_inserted] at hi
    split_ifs at hi with hie
    obtain ⟨f,hf,hfi,hrec⟩ := hm.recorded i keys hi
    exact ⟨f,(hrest f).mpr ⟨hf,fun heq => hie (hfi.symm.trans heq)⟩,hfi,hrec⟩

end Tracked

end Zdeex.Framework
