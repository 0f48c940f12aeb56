import Zdeex.Wallet.TrackedBuild

namespace Zdeex.Wallet.WitnessCache

open Zdeex.Framework
open Zdeex.Merkle (HashClass)

section Keys

variable {H K A F P : Type} [LinearOrder H] [LinearOrder K] [LinearOrder A]
variable {C : NoteCrypto K A F P} {L : Ledger H} {w w' : CWallet H K A F}

theorem mem_assign {X V : Type} [LinearOrder X] {k : X} {v : V} {m : List (X × V)} {e : X × V} :
    e∈assign k v m ↔ e=(k,v) ∨ (e∈m ∧ e.1≠k) := by
  have hnew : ∀e∈m.filter fun e => decide (e.1≠k),e.1≠k :=
    fun e he => of_decide_eq_true (List.mem_filter.mp he).2
  rw [assign,(OrderedMap.insertNew_perm v hnew).mem_iff,List.mem_cons,List.mem_filter,
    decide_eq_true_iff]

/-- No key is lost. -/
structure KeysLe (w w' : CWallet H K A F) : Prop where
  full : ∀e∈w.mapSaplingFullViewingKeys,∃e'∈w'.mapSaplingFullViewingKeys,e'.1=e.1
  incoming : ∀e∈w.mapSaplingIncomingViewingKeys,∃e'∈w'.mapSaplingIncomingViewingKeys,e'.2=e.2

omit [LinearOrder H] [LinearOrder K] [LinearOrder A] in
theorem KeysLe.refl (w : CWallet H K A F) : KeysLe w w :=
  ⟨fun e he => ⟨e,he,rfl⟩,fun e he => ⟨e,he,rfl⟩⟩

omit [LinearOrder H] [LinearOrder K] in
/-- An output is found exactly by the keys that decrypt it. -/
theorem findNote_isSome (w : CWallet H K A F) (output : OutputDescription) :
    (findNote C w output).1.isSome ↔
      (∃e∈w.mapSaplingFullViewingKeys,(output.decrypt C e.1).isSome) ∨
        ∃e∈w.mapSaplingIncomingViewingKeys,(output.decrypt C e.2).isSome := by
  unfold findNote
  cases hfull : w.mapSaplingFullViewingKeys.findSome? fun e =>
      (output.decrypt C e.1).map fun plaintext => (e.1,plaintext) with
  | some q =>
    obtain ⟨e,he,hq⟩ := List.exists_of_findSome?_eq_some hfull
    refine iff_of_true rfl (.inl ⟨e,he,?_⟩)
    obtain ⟨plaintext,hplain,-⟩ := Option.map_eq_some_iff.mp hq
    rw [hplain]
    rfl
  | none =>
    have hnone : ∀e∈w.mapSaplingFullViewingKeys,output.decrypt C e.1=none := by
      intro e he
      exact Option.map_eq_none_iff.mp (List.findSome?_eq_none_iff.mp hfull e he)
    have hleft : ¬∃e∈w.mapSaplingFullViewingKeys,(output.decrypt C e.1).isSome := by
      rintro ⟨e,he,hsome⟩
      rw [hnone e he] at hsome
      cases hsome
    rw [or_iff_right hleft,List.findSome?_isSome_iff]
    simp only [Option.isSome_map]

/-- The output of a note is found with the keys of the wallet. -/
def Seen (C : NoteCrypto K A F P) (L : Ledger H) (w : CWallet H K A F) (op : SaplingOutPoint H) :
    Prop :=
  ∃output,(L.vShieldedOutput op.hash)[op.n]?=some output ∧ (findNote C w output).1.isSome

omit [LinearOrder H] [LinearOrder K] in
theorem Seen.mono {op : SaplingOutPoint H} (h : Seen C L w op) (hkeys : KeysLe w w') :
    Seen C L w' op := by
  obtain ⟨output,ho,hfound⟩ := h
  refine ⟨output,ho,(findNote_isSome w' output).mpr ?_⟩
  refine ((findNote_isSome w output).mp hfound).imp ?_ ?_
  · rintro ⟨e,he,hsome⟩
    obtain ⟨e',he',hkey⟩ := hkeys.full e he
    exact ⟨e',he',by rwa [hkey]⟩
  · rintro ⟨e,he,hsome⟩
    obtain ⟨e',he',hkey⟩ := hkeys.incoming e he
    exact ⟨e',he',by rwa [hkey]⟩

omit [LinearOrder H] [LinearOrder K] in
theorem seen_of_mem {stray : Bool} {tx : H} {e : SaplingOutPoint H × SaplingNoteData K}
    (he : e∈(findMySaplingNotes C L w stray tx).1) : Seen C L w e.1 := by
  obtain ⟨f,hf,hsome⟩ := List.mem_filterMap.mp he
  obtain ⟨o,ho,rfl⟩ := List.mem_map.mp hf
  obtain ⟨ivk,hivk,rfl⟩ := Option.map_eq_some_iff.mp hsome
  refine ⟨o.1,List.mk_mem_zipIdx_iff_getElem?.mp ho,?_⟩
  rw [hivk]
  rfl

omit [LinearOrder H] [LinearOrder K] in
/-- A note that can be seen is found again. -/
theorem find_ne_nil (stray : Bool) {op : SaplingOutPoint H} (h : Seen C L w op) :
    (findMySaplingNotes C L w stray op.hash).1≠[] := by
  obtain ⟨output,ho,hfound⟩ := h
  obtain ⟨ivk,hivk⟩ := Option.isSome_iff_exists.mp hfound
  refine List.ne_nil_of_mem (a := (⟨op.hash,op.n⟩,.new stray ivk)) ?_
  refine List.mem_filterMap.mpr ⟨(op.n,findNote C w output),?_,?_⟩
  · exact List.mem_map.mpr ⟨(output,op.n),List.mk_mem_zipIdx_iff_getElem?.mpr ho,rfl⟩
  · rw [hivk]
    rfl

theorem mem_foldl_assign {X V : Type} [LinearOrder X] {l m : List (X × V)} {e : X × V}
    (he : e∈l.foldl (fun m e => assign e.1 e.2 m) m) : e∈l ∨ e∈m := by
  induction l generalizing m with
  | nil => exact .inr he
  | cons a l ih =>
    rcases ih he with he | he
    · exact .inl (List.mem_cons_of_mem a he)
    · rcases mem_assign.mp he with rfl | ⟨he,-⟩
      · exact .inl List.mem_cons_self
      · exact .inr he

theorem foldl_assign_keeps {X V : Type} [LinearOrder X] {l m : List (X × V)} {e : X × V}
    (he : e∈m) (hne : ∀a∈l,e.1≠a.1) : e∈l.foldl (fun m e => assign e.1 e.2 m) m := by
  induction l generalizing m with
  | nil => exact he
  | cons a l ih =>
    refine ih (mem_assign.mpr (.inr ⟨he,hne a List.mem_cons_self⟩)) fun b hb => ?_
    exact hne b (List.mem_cons_of_mem a hb)

omit [LinearOrder H] [LinearOrder K] in
/-- The addresses that are found have no key yet. -/
theorem find_addresses {stray : Bool} {tx : H} {e : A × K}
    (he : e∈(findMySaplingNotes C L w stray tx).2) :
    w.mapSaplingIncomingViewingKeys.lookup e.1=none := by
  rcases mem_foldl_assign he with he | he
  · obtain ⟨f,hf,hsome⟩ := List.mem_filterMap.mp he
    obtain ⟨o,ho,rfl⟩ := List.mem_map.mp hf
    dsimp only at hsome
    unfold findNote at hsome
    split at hsome
    · obtain ⟨a,ha,rfl⟩ := Option.map_eq_some_iff.mp hsome
      obtain ⟨-,hnew⟩ := Option.filter_eq_some_iff.mp ha
      exact Option.isNone_iff_eq_none.mp hnew
    · cases hsome
  · exact absurd he List.not_mem_nil

omit [LinearOrder H] [LinearOrder K] in
theorem keysLe_find (w : CWallet H K A F) (stray : Bool) (tx : H) :
    KeysLe w ⟨w.mapWallet,w.mapSaplingFullViewingKeys,
      (findMySaplingNotes C L w stray tx).2.foldl (fun m e => assign e.1 e.2 m)
        w.mapSaplingIncomingViewingKeys⟩ := by
  refine ⟨fun e he => ⟨e,he,rfl⟩,fun e he => ⟨e,?_,rfl⟩⟩
  refine foldl_assign_keeps he fun a ha heq => ?_
  have hnone := find_addresses ha
  rw [← heq,List.lookup_eq_none_iff] at hnone
  exact absurd (hnone e he) (by simp)

end Keys

section Sync

variable {H K A F P : Type} [LinearOrder H] [LinearOrder K] [LinearOrder A]
variable {C : NoteCrypto K A F P} {L : Ledger H} {w : CWallet H K A F} {tx : H}

/-- All notes of the wallet can be seen with its keys. -/
def AllSeen (C : NoteCrypto K A F P) (L : Ledger H) (w : CWallet H K A F) : Prop :=
  ∀p∈w.mapWallet,∀e∈p.2.mapSaplingNoteData,Seen C L w e.1

/-- A transaction whose notes lost their nullifiers. -/
def Unset (wtx : CWalletTx H K) : Prop := ∀e∈wtx.mapSaplingNoteData,e.2.nullifier=none

/-- What syncing a transaction does to the wallet. -/
structure Synced (C : NoteCrypto K A F P) (L : Ledger H) (tx : H) (i : Involvement)
    (w w' : CWallet H K A F) : Prop where
  seen : AllSeen C L w'
  other : ∀p∈w'.mapWallet,p.1≠tx → p∈w.mapWallet
  same : ∀p∈w'.mapWallet,p.1=tx →
    Unset p.2 ∨ (p∈w.mapWallet ∧ (i.emptyCoinbase=true ∨ i.refused=true))

theorem sameNotes_unset {a b : List (SaplingOutPoint H × SaplingNoteData K)}
    (h : sameNotes a b=true) (ha : ∀e∈a,e.2.nullifier=none) : ∀e∈b,e.2.nullifier=none := by
  intro e he
  have heq := of_decide_eq_true h
  have hmem : (e.1,e.2.ivk,e.2.nullifier,e.2.witnessHeight)∈
      a.map fun e => (e.1,e.2.ivk,e.2.nullifier,e.2.witnessHeight) := by
    rw [heq]
    exact List.mem_map.mpr ⟨e,he,rfl⟩
  obtain ⟨e',he',hsame⟩ := List.mem_map.mp hmem
  have hn : e'.2.nullifier=e.2.nullifier := congrArg (fun q => q.2.2.1) hsame
  exact hn.symm.trans (ha e' he')

theorem updatedNoteData_unset {wtxIn wtx : CWalletTx H K} {w' : CWallet H K A F}
    (hin : ∀e∈wtxIn.mapSaplingNoteData,e.2.nullifier=none ∧ Seen C L w' e.1)
    (hold : ∀e∈wtx.mapSaplingNoteData,Seen C L w' e.1)
    (hnil : wtxIn.mapSaplingNoteData=[] → wtx.mapSaplingNoteData=[]) :
    Returns (fun notes => ∀e∈notes,e.2.nullifier=none ∧ Seen C L w' e.1)
      (updatedNoteData wtxIn wtx) := by
  unfold updatedNoteData
  by_cases hsame : sameNotes wtxIn.mapSaplingNoteData wtx.mapSaplingNoteData=true
  · rw [hsame,Bool.or_true,if_pos rfl]
    exact fun e he => ⟨sameNotes_unset hsame (fun e he => (hin e he).1) e he,hold e he⟩
  · by_cases hempty : wtxIn.mapSaplingNoteData=[]
    · rw [hempty,List.isEmpty_nil,Bool.true_or,if_pos rfl,hnil hempty]
      exact fun e he => absurd he List.not_mem_nil
    · rw [if_neg (by simp [hempty,hsame])]
      exact (keepWitnesses_spec (Q := fun op _ nf => nf=none ∧ Seen C L w' op) hin).returns

theorem addToWallet_synced {w' : CWallet H K A F} {wtxIn : CWalletTx H K} (i : Involvement)
    (hwallet : w'.mapWallet=w.mapWallet) (hseen : AllSeen C L w')
    (hin : ∀e∈wtxIn.mapSaplingNoteData,e.2.nullifier=none ∧ Seen C L w' e.1)
    (hnil : wtxIn.mapSaplingNoteData=[] → ∀p∈w.mapWallet,p.1=wtxIn.hash →
      p.2.mapSaplingNoteData=[]) :
    Returns (Synced C L wtxIn.hash i w) (addToWallet wtxIn w') := by
  have hkeys : ∀l,KeysLe w' {w' with mapWallet := l} := fun l =>
    ⟨fun e he => ⟨e,he,rfl⟩,fun e he => ⟨e,he,rfl⟩⟩
  unfold addToWallet
  cases hl : w'.mapWallet.lookup wtxIn.hash with
  | none =>
    have hmem : ∀p∈OrderedMap.insertNew wtxIn.hash wtxIn w'.mapWallet,
        p=(wtxIn.hash,wtxIn) ∨ p∈w'.mapWallet := fun p hp => OrderedMap.mem_insertNew hp
    refine ⟨fun p hp e he => Seen.mono ?_ (hkeys _),fun p hp hne => ?_,fun p hp hkey => ?_⟩
    · rcases hmem p hp with rfl | hp
      · exact (hin e he).2
      · exact hseen p hp e he
    · rcases hmem p hp with rfl | hp
      · exact absurd rfl hne
      · exact hwallet ▸ hp
    · rcases hmem p hp with rfl | hp
      · exact .inl fun e he => (hin e he).1
      · rw [List.lookup_eq_none_iff] at hl
        exact absurd (hl p hp) (by simp [hkey])
  | some wtx =>
    have hmem := OrderedMap.mem_of_lookup hl
    refine Meets.bind (updatedNoteData_unset hin (hseen _ hmem) fun h =>
      hnil h _ (hwallet ▸ hmem) rfl) fun notes hnotes => ?_
    refine ⟨fun p hp e he => Seen.mono ?_ (hkeys _),fun p hp hne => ?_,fun p hp hkey => .inl ?_⟩
    all_goals
      obtain ⟨p₀,hp₀,rfl⟩ := List.mem_map.mp hp
    · by_cases hkey : p₀.1=wtxIn.hash
      · rw [if_pos hkey] at he
        exact (hnotes e he).2
      · rw [if_neg hkey] at he
        exact hseen p₀ hp₀ e he
    · by_cases hkey : p₀.1=wtxIn.hash
      · rw [if_pos hkey] at hne
        exact absurd hkey hne
      · rw [if_neg hkey]
        exact hwallet ▸ hp₀
    · by_cases hkey' : p₀.1=wtxIn.hash
      · rw [if_pos hkey']
        exact fun e he => (hnotes e he).1
      · rw [if_neg hkey'] at hkey
        exact absurd hkey hkey'

theorem syncTransaction_synced (hw : Inv L w) (hseen : AllSeen C L w) (tx : H)
    (pblock : Option H) (i : Involvement) (stray : Bool) :
    Returns (Synced C L tx i w) (addToWalletIfInvolvingMe C L tx pblock i stray w) := by
  unfold addToWalletIfInvolvingMe
  by_cases hempty : i.emptyCoinbase=true
  · rw [if_pos hempty]
    exact ⟨hseen,fun p hp _ => hp,fun p hp _ => .inr ⟨hp,.inl hempty⟩⟩
  · rw [if_neg hempty]
    have hkeys := keysLe_find (C := C) (L := L) w stray tx
    have hseen' : AllSeen C L ⟨w.mapWallet,w.mapSaplingFullViewingKeys,
        (findMySaplingNotes C L w stray tx).2.foldl (fun m e => assign e.1 e.2 m)
          w.mapSaplingIncomingViewingKeys⟩ := fun p hp e he => (hseen p hp e he).mono hkeys
    dsimp only
    split_ifs with hadd
    · refine addToWallet_synced i rfl hseen' (fun e he => ?_) fun hnil p hp hkey => ?_
      · exact ⟨(mem_findMySaplingNotes he).2,(seen_of_mem he).mono hkeys⟩
      · refine List.eq_nil_iff_forall_not_mem.mpr fun e he => ?_
        have hop : e.1.hash=tx := (hw.owned p hp e he).1.trans ((hw.keys p hp).trans hkey)
        refine find_ne_nil stray (hseen p hp e he) ?_
        rw [hop]
        exact hnil
    · refine ⟨hseen',fun p hp _ => hp,fun p hp hkey => .inr ⟨hp,.inr ?_⟩⟩
      have hexists : (w.mapWallet.lookup tx).isSome := by
        rw [List.lookup_isSome_iff]
        exact ⟨p,hp,by simp [hkey]⟩
      by_contra hrefused
      refine hadd ?_
      rw [hexists,Bool.eq_false_of_not_eq_true hrefused]
      rfl

/-- Syncing a block: its transactions lose their nullifiers, unless they are not taken. -/
structure SyncedBlock (C : NoteCrypto K A F P) (L : Ledger H) (txs : List H)
    (how : H → Involvement × Bool) (w w' : CWallet H K A F) : Prop where
  inv : Inv L w'
  seen : AllSeen C L w'
  other : ∀p∈w'.mapWallet,p.1∉txs → p∈w.mapWallet
  same : ∀p∈w'.mapWallet,p.1∈txs → Unset p.2 ∨
    (p∈w.mapWallet ∧ ((how p.1).1.emptyCoinbase=true ∨ (how p.1).1.refused=true))

theorem syncBlock_synced (hw : Inv L w) (hseen : AllSeen C L w) (block : H) (pblock : Option H)
    (how : H → Involvement × Bool) :
    Returns (SyncedBlock C L (L.vtx block) how w) (syncBlock C L block pblock how w) := by
  unfold syncBlock
  refine Meets.foldlM (I := fun done w' => SyncedBlock C L done how w w') ?_ ?_
  · exact ⟨hw,hseen,fun p hp _ => hp,fun p _ hp => absurd hp List.not_mem_nil⟩
  · intro done tx rest w₁ _ h₁
    refine ((syncTransaction_spec (C := C) h₁.inv tx pblock (how tx).1 (how tx).2).both
      (syncTransaction_synced h₁.inv h₁.seen tx pblock (how tx).1 (how tx).2)).post fun w₂ h₂ => ?_
    refine ⟨h₂.1,h₂.2.seen,fun p hp hnot => ?_,fun p hp hmem => ?_⟩
    · rw [List.mem_append,List.mem_singleton,not_or] at hnot
      exact h₁.other p (h₂.2.other p hp hnot.2) hnot.1
    · by_cases hkey : p.1=tx
      · rcases h₂.2.same p hp hkey with hunset | ⟨hp₁,hcond⟩
        · exact .inl hunset
        · by_cases hdone : p.1∈done
          · exact h₁.same p hp₁ hdone
          · rw [← hkey] at hcond
            exact .inr ⟨h₁.other p hp₁ hdone,hcond⟩
      · have hdone : p.1∈done := by
          rcases List.mem_append.mp hmem with hdone | hlast
          · exact hdone
          · exact absurd (List.mem_singleton.mp hlast) hkey
        exact h₁.same p (h₂.2.other p hp hkey) hdone

end Sync

end Zdeex.Wallet.WitnessCache
