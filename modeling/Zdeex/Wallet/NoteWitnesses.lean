import Zdeex.Framework.KeyMap
import Zdeex.Merkle.IncrementalWitness

namespace Zdeex.Wallet.Notes

open Zdeex.Framework
open Zdeex.Merkle (HashClass IncrementalWitness addHash)

def SAPLING_INCREMENTAL_MERKLE_TREE_DEPTH : Nat := 32

abbrev SaplingWitness := IncrementalWitness Uint256

structure SaplingOutPoint where
  hash : Uint256
  n : BitVec 32
  deriving DecidableEq

/-- Newest witness first. -/
structure SaplingNoteData where
  witnesses : List SaplingWitness
  witnessHeight : Int
  nullifier : Option Uint256

/-- The empty constructor. -/
def SaplingNoteData.init : SaplingNoteData := ⟨[],-1,none⟩

/-- What the functions about notes see of a transaction of the wallet. -/
structure CWalletTx where
  mapSaplingNoteData : KeyMap SaplingOutPoint SaplingNoteData

def CWalletTx.init : CWalletTx := ⟨∅⟩

/-- What the subscript operator of a map finds, and the map it leaves behind. -/
def subscript {K V : Type} [DecidableEq K] (m : KeyMap K V) (k : K) (init : V) : KeyMap K V × V :=
  match m.lookup k with
  | some v => (m,v)
  | none => (m.insert k init,init)

section Fetch

variable (O : HashClass Uint256)

/-- The anchor of a witness. -/
def rootOf (w : SaplingWitness) : Uint256 := w.root O SAPLING_INCREMENTAL_MERKLE_TREE_DEPTH

/-- The loop over the notes and the places for their witnesses. Equal roots are reported and
different ones are not, and neither ends the loop. -/
def fetchEach : List (SaplingOutPoint × Option SaplingWitness) → KeyMap Uint256 CWalletTx →
    Option Uint256 → KeyMap Uint256 CWalletTx × List (Option SaplingWitness) × Option Uint256
  | [],mapWallet,rt => (mapWallet,[],rt)
  | (note,slot)::notes,mapWallet,rt =>
      let wtx := subscript mapWallet note.hash .init
      let noteData := subscript wtx.2.mapSaplingNoteData note .init
      match (wtx.1.lookup note.hash).isSome && (noteData.1.lookup note).isSome,
        noteData.2.witnesses with
      | true,witness::_ =>
          let r := fetchEach notes wtx.1 (some (rt.getD (rootOf O witness)))
          (r.1,some witness::r.2.1,r.2.2)
      | _,_ =>
          let r := fetchEach notes wtx.1 rt
          (r.1,slot::r.2.1,r.2.2)

/-- `resize` of a vector of optional values. -/
def resize {V : Type} (l : List (Option V)) (n : Nat) : List (Option V) :=
  l.take n++List.replicate (n-l.length) none

structure Fetched where
  mapWallet : KeyMap Uint256 CWalletTx
  witnesses : List (Option SaplingWitness)
  final_anchor : Uint256

/-- `GetSaplingNoteWitnesses`, with the two values the caller hands over by reference. -/
def getSaplingNoteWitnesses (mapWallet : KeyMap Uint256 CWalletTx) (notes : List SaplingOutPoint)
    (witnesses : List (Option SaplingWitness)) (final_anchor : Uint256) : Fetched :=
  let r := fetchEach O (notes.zip (resize witnesses notes.length)) mapWallet none
  ⟨r.1,r.2.1,r.2.2.getD final_anchor⟩

end Fetch

/-- The newest witness that the wallet holds for a note. -/
def newest (mapWallet : KeyMap Uint256 CWalletTx) (note : SaplingOutPoint) : Option SaplingWitness :=
  (mapWallet.lookup note.hash).bind fun wtx =>
    (wtx.mapSaplingNoteData.lookup note).bind fun nd => nd.witnesses.head?

section Subscript

variable {K V : Type} [DecidableEq K] (m : KeyMap K V) (k : K) (init : V)

theorem lookup_subscript : (subscript m k init).1.lookup k=some (subscript m k init).2 := by
  unfold subscript
  cases h : m.lookup k with
  | some v => exact h
  | none => exact AList.lookup_insert m

theorem subscript_eq : (subscript m k init).2=(m.lookup k).getD init := by
  unfold subscript
  cases m.lookup k <;> rfl

theorem subscript_of_some (h : (m.lookup k).isSome) : (subscript m k init).1=m := by
  obtain ⟨v,hv⟩ := Option.isSome_iff_exists.mp h
  unfold subscript
  rw [hv]

theorem isSome_subscript (q : K) (h : (m.lookup q).isSome) :
    ((subscript m k init).1.lookup q).isSome := by
  unfold subscript
  cases hk : m.lookup k with
  | some v => exact h
  | none =>
    have hne : q≠k := by
      rintro rfl
      rw [hk] at h
      cases h
    exact (congrArg Option.isSome (AList.lookup_insert_ne hne)).trans h

end Subscript

section Loop

variable {O : HashClass Uint256}

/-- An entry that the loop creates holds no witness. -/
theorem newest_subscript (m : KeyMap Uint256 CWalletTx) (hash : Uint256) (note : SaplingOutPoint) :
    newest (subscript m hash .init).1 note=newest m note := by
  unfold subscript
  cases h : m.lookup hash with
  | some v => rfl
  | none =>
    by_cases hnote : note.hash=hash
    · subst hnote
      have hinit : (m.insert note.hash .init).lookup note.hash=some CWalletTx.init :=
        AList.lookup_insert m
      unfold newest
      rw [h,hinit]
      rfl
    · have hother : (m.insert hash .init).lookup note.hash=m.lookup note.hash :=
        AList.lookup_insert_ne hnote
      simp only [newest,hother]

theorem witnesses_subscript (m : KeyMap Uint256 CWalletTx) (note : SaplingOutPoint) :
    (subscript (subscript m note.hash .init).2.mapSaplingNoteData note
      .init).2.witnesses.head?=newest m note := by
  rw [subscript_eq,subscript_eq]
  unfold newest
  cases h : m.lookup note.hash with
  | none => rfl
  | some wtx =>
    rw [Option.getD_some,Option.bind_some]
    cases h' : wtx.mapSaplingNoteData.lookup note <;> rfl

/-- One round of the loop; the test for the entries comes after they were created. -/
theorem fetchEach_cons (note : SaplingOutPoint) (slot : Option SaplingWitness)
    (notes : List (SaplingOutPoint × Option SaplingWitness)) (m : KeyMap Uint256 CWalletTx)
    (rt : Option Uint256) :
    fetchEach O ((note,slot)::notes) m rt=
      let r := fetchEach O notes (subscript m note.hash .init).1
        (rt.or ((newest m note).map (rootOf O)))
      (r.1,(newest m note).or slot::r.2.1,r.2.2) := by
  have hhead := witnesses_subscript m note
  rw [fetchEach]
  dsimp only
  rw [lookup_subscript,lookup_subscript,← hhead]
  cases hw : (subscript (subscript m note.hash .init).2.mapSaplingNoteData note .init).2.witnesses with
  | nil => cases rt <;> rfl
  | cons w ws => cases rt <;> rfl

/-- The first root that is found stays. -/
theorem fetchEach_eq (notes : List (SaplingOutPoint × Option SaplingWitness))
    (m : KeyMap Uint256 CWalletTx) (rt : Option Uint256) :
    (fetchEach O notes m rt).2=(notes.map fun p => (newest m p.1).or p.2,
      rt.or ((notes.filterMap fun p => newest m p.1).head?.map (rootOf O))) := by
  induction notes generalizing m rt with
  | nil => simp [fetchEach]
  | cons p notes ih =>
    obtain ⟨note,slot⟩ := p
    rw [fetchEach_cons]
    dsimp only
    rw [ih]
    simp only [newest_subscript,List.map_cons]
    cases h : newest m note with
    | none => simp [h]
    | some w => simp [h]

/-- Entries are created and none is lost. -/
theorem fetchEach_isSome (notes : List (SaplingOutPoint × Option SaplingWitness))
    (m : KeyMap Uint256 CWalletTx) (rt : Option Uint256) :
    (∀q,(m.lookup q).isSome → ((fetchEach O notes m rt).1.lookup q).isSome) ∧
      ∀p∈notes,((fetchEach O notes m rt).1.lookup p.1.hash).isSome := by
  induction notes generalizing m rt with
  | nil => exact ⟨fun _ h => h,fun _ h => by cases h⟩
  | cons p notes ih =>
    obtain ⟨note,slot⟩ := p
    rw [fetchEach_cons]
    obtain ⟨hkeep,hnotes⟩ := ih (subscript m note.hash .init).1
      (rt.or ((newest m note).map (rootOf O)))
    have hnote : ((subscript m note.hash .init).1.lookup note.hash).isSome := by
      rw [lookup_subscript]
      rfl
    exact ⟨fun q h => hkeep q (isSome_subscript m note.hash .init q h),
      List.forall_mem_cons.mpr ⟨hkeep _ hnote,hnotes⟩⟩

theorem fetchEach_map (notes : List (SaplingOutPoint × Option SaplingWitness))
    (m : KeyMap Uint256 CWalletTx) (rt : Option Uint256) :
    (fetchEach O notes m rt).1=m ↔ ∀p∈notes,(m.lookup p.1.hash).isSome := by
  constructor
  · intro h
    have hnotes := (fetchEach_isSome (O := O) notes m rt).2
    rwa [h] at hnotes
  · intro h
    induction notes generalizing rt with
    | nil => rfl
    | cons p notes ih =>
      obtain ⟨hp,hnotes⟩ := List.forall_mem_cons.mp h
      rw [fetchEach_cons]
      dsimp only
      rw [subscript_of_some m p.1.hash .init hp]
      exact ih _ hnotes

theorem zip_fresh (notes : List SaplingOutPoint) :
    notes.zip (resize ([] : List (Option SaplingWitness)) notes.length)=
      notes.map fun note => (note,none) := by
  have hnone : ∀n,resize ([] : List (Option SaplingWitness)) n=List.replicate n none := by
    intro n
    simp [resize]
  rw [hnone]
  induction notes with
  | nil => rfl
  | cons note notes ih =>
    rw [List.length_cons,List.replicate_succ,List.zip_cons_cons,ih,List.map_cons]

/-- Every caller hands over an empty vector. -/
theorem getSaplingNoteWitnesses_fresh (m : KeyMap Uint256 CWalletTx) (notes : List SaplingOutPoint)
    (final_anchor : Uint256) :
    (getSaplingNoteWitnesses O m notes [] final_anchor).witnesses=notes.map (newest m) ∧
      (getSaplingNoteWitnesses O m notes [] final_anchor).final_anchor=
        ((notes.filterMap (newest m)).head?.map (rootOf O)).getD final_anchor ∧
      ((getSaplingNoteWitnesses O m notes [] final_anchor).mapWallet=m ↔
        ∀note∈notes,(m.lookup note.hash).isSome) := by
  unfold getSaplingNoteWitnesses
  dsimp only
  rw [zip_fresh,fetchEach_map,fetchEach_eq]
  simp [List.filterMap_map,Function.comp_def]

end Loop

/-- What is expected of a call that returns. -/
structure Promise (O : HashClass Uint256) (m : KeyMap Uint256 CWalletTx)
    (notes : List SaplingOutPoint) (r : Fetched) : Prop where
  anchor : ∀w,some w∈r.witnesses → rootOf O w=r.final_anchor
  absent : ∀(i : Nat) (note : SaplingOutPoint),notes[i]?=some note → newest m note=none → r.witnesses[i]?=some none
  maps : r.mapWallet=m

/-- The call never fails, so it keeps its promise only where the newest witnesses of the
requested notes have one root and where the transactions of all notes are in the wallet. -/
theorem promise_iff (O : HashClass Uint256) (m : KeyMap Uint256 CWalletTx)
    (notes : List SaplingOutPoint) (final_anchor : Uint256) :
    Promise O m notes (getSaplingNoteWitnesses O m notes [] final_anchor) ↔
      (∀note∈notes,∀note'∈notes,∀w∈newest m note,∀w'∈newest m note',rootOf O w=rootOf O w') ∧
        ∀note∈notes,(m.lookup note.hash).isSome := by
  obtain ⟨hwitnesses,hanchor,hmaps⟩ := getSaplingNoteWitnesses_fresh (O := O) m notes final_anchor
  have hmem : ∀w,some w∈notes.map (newest m) ↔ ∃note∈notes,newest m note=some w :=
    fun w => List.mem_map
  constructor
  · rintro ⟨hroot,-,hsame⟩
    rw [hwitnesses] at hroot
    refine ⟨fun note hn note' hn' w hw w' hw' => ?_,hmaps.mp hsame⟩
    rw [hroot w ((hmem w).mpr ⟨note,hn,hw⟩),hroot w' ((hmem w').mpr ⟨note',hn',hw'⟩)]
  · rintro ⟨hroots,hpresent⟩
    refine ⟨fun w hw => ?_,fun i note hi hnone => ?_,hmaps.mpr hpresent⟩
    · rw [hwitnesses] at hw
      obtain ⟨note,hn,hw⟩ := (hmem w).mp hw
      have hfound : w∈notes.filterMap (newest m) := List.mem_filterMap.mpr ⟨note,hn,hw⟩
      rw [hanchor]
      cases hl : notes.filterMap (newest m) with
      | nil =>
        rw [hl] at hfound
        cases hfound
      | cons w' ws =>
        have hw' : w'∈notes.filterMap (newest m) := by
          rw [hl]
          exact List.mem_cons_self
        obtain ⟨note',hn',hw'⟩ := List.mem_filterMap.mp hw'
        exact hroots note hn note' hn' w hw w' hw'
    · rw [hwitnesses,List.getElem?_map,hi,Option.map_some,hnone]

/-- Two transactions with a witnessed note each, taken from trees of one and of two leaves. -/
def mixedWallet : KeyMap Uint256 CWalletTx :=
  ((∅ : KeyMap Uint256 CWalletTx).insert 1
    ⟨(∅ : KeyMap SaplingOutPoint SaplingNoteData).insert ⟨1,0⟩
      ⟨[⟨⟨some 5,none,[]⟩,[],none,0⟩],7,none⟩⟩).insert 2
    ⟨(∅ : KeyMap SaplingOutPoint SaplingNoteData).insert ⟨2,0⟩
      ⟨[⟨⟨some 5,some 6,[]⟩,[],none,0⟩],8,none⟩⟩

/-- The second witness does not lead to the anchor that is handed out. -/
theorem mixed_roots :
    ¬Promise addHash mixedWallet [⟨1,0⟩,⟨2,0⟩]
      (getSaplingNoteWitnesses addHash mixedWallet [⟨1,0⟩,⟨2,0⟩] [] 0) := by
  intro h
  have hanchor := h.anchor ⟨⟨some 5,some 6,[]⟩,[],none,0⟩ (by decide +kernel)
  revert hanchor
  decide +kernel

end Zdeex.Wallet.Notes
