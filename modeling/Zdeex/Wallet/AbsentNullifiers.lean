import Zdeex.Wallet.WitnessCache

namespace Zdeex.Wallet.WitnessCache

open Zdeex.Framework
open Zdeex.Merkle (HashClass IncrementalMerkleTree IncrementalWitness)

/-- The faults of a value that is used although it is absent. -/
def Fault.Absent (f : Fault) : Prop := f=.noNullifier ∨ f=.noWitness

instance : DecidablePred Fault.Absent :=
  fun f => inferInstanceAs (Decidable (f=.noNullifier ∨ f=.noWitness))

section Notes

variable {H K A F P : Type} [LinearOrder K]
variable {C : NoteCrypto K A F P} {L : Ledger H}

/-- The wallet can compute the nullifiers of the key. -/
def CWallet.Holds (w : CWallet H K A F) (ivk : K) : Prop :=
  (w.mapSaplingFullViewingKeys.lookup ivk).isSome

/-- A nullifier was computed with a full viewing key. -/
def Keyed (w : CWallet H K A F) (nd : SaplingNoteData K) : Prop :=
  nd.nullifier.isSome → w.Holds nd.ivk

/-- A note that kept its identity. -/
structure SameNote (e e' : SaplingOutPoint H × SaplingNoteData K) : Prop where
  op : e'.1=e.1
  ivk : e'.2.ivk=e.2.ivk

/-- A note after its nullifier was computed anew. -/
structure Renewed (w : CWallet H K A F) (e e' : SaplingOutPoint H × SaplingNoteData K) : Prop
    extends SameNote e e' where
  witnesses : e'.2.witnesses=e.2.witnesses
  keyed : Keyed w e.2 → Keyed w e'.2
  nullifier : e.2.witnesses≠[] → w.Holds e.2.ivk → e'.2.nullifier.isSome

theorem updateNullifier_spec (w : CWallet H K A F) (tx : H)
    (e : SaplingOutPoint H × SaplingNoteData K) :
    Meets Fault.Absent (Renewed w e) (updateNullifier C L w tx e) := by
  unfold updateNullifier
  cases hw : e.2.witnesses with
  | nil =>
    refine ⟨⟨rfl,rfl⟩,rfl,fun _ h => ?_,fun h => absurd hw h⟩
    cases h
  | cons witness ws =>
    cases hk : w.mapSaplingFullViewingKeys.lookup e.2.ivk with
    | none =>
      refine ⟨⟨rfl,rfl⟩,rfl,id,fun _ h => ?_⟩
      rw [CWallet.Holds,hk] at h
      cases h
    | some fvk =>
      have hholds : w.Holds e.2.ivk := by
        rw [CWallet.Holds,hk]
        rfl
      cases ho : (L.vShieldedOutput tx)[e.1.n]? with
      | none => exact Meets.error (by decide)
      | some output =>
        cases hn : (output.decrypt C e.2.ivk).bind fun plaintext =>
            C.nullifier plaintext e.2.ivk fvk witness.position with
        | none =>
          simp only [hn]
          exact Meets.error (by decide)
        | some nullifier =>
          simp only [hn]
          exact ⟨⟨rfl,rfl⟩,rfl,fun _ _ => hholds,fun _ _ => rfl⟩

/-- Notes of a transaction of the wallet that kept their identities. -/
structure SameTx (wtx wtx' : CWalletTx H K) : Prop where
  hash : wtx'.hash=wtx.hash
  hashBlock : wtx'.hashBlock=wtx.hashBlock
  nIndex : wtx'.nIndex=wtx.nIndex
  notes : List.Forall₂ SameNote wtx.mapSaplingNoteData wtx'.mapSaplingNoteData

theorem updateTx_spec (w : CWallet H K A F) (wtx : CWalletTx H K) :
    Meets Fault.Absent (fun wtx' => SameTx wtx wtx' ∧
      List.Forall₂ (Renewed w) wtx.mapSaplingNoteData wtx'.mapSaplingNoteData)
      (updateSaplingNullifierNoteMapWithTx C L w wtx) := by
  refine Meets.bind (Meets.mapM fun e _ => updateNullifier_spec w wtx.hash e) fun notes hnotes => ?_
  exact ⟨⟨rfl,rfl,rfl,hnotes.imp fun _ _ h => h.toSameNote⟩,hnotes⟩

theorem deref_meets {V : Type} {o : Option V} (h : o≠none) :
    Meets Fault.Absent (fun v => o=some v) (deref o) := by
  cases o with
  | none => exact absurd rfl h
  | some v => rfl

theorem front_meets {V : Type} {l : List V} (h : l≠[]) :
    Meets Fault.Absent (fun v => ∃rest,l=v::rest) (front l) := by
  cases l with
  | nil => exact absurd rfl h
  | cons v rest => exact ⟨rest,rfl⟩

end Notes

section Scan

variable {H : Type} [LinearOrder H] {O : HashClass Uint256} {L : Ledger H}

theorem appendFront_spec {ws : List SaplingWitness} (hws : ws≠[]) (cm : Uint256) :
    Meets Fault.Absent (·≠[]) (appendFront O ws cm) := by
  cases ws with
  | nil => exact absurd rfl hws
  | cons witness ws =>
    refine Meets.bind (G := fun _ => True) trivial fun front _ => ?_
    refine Meets.bind (G := fun _ => True) ?_ fun witness' _ => List.cons_ne_nil _ _
    unfold appendWitness
    split
    · trivial
    · exact Meets.error (by decide)

theorem appendTree_spec (t : SaplingMerkleTree) (cm : Uint256) :
    Meets Fault.Absent (fun _ => True) (appendTree O t cm) := by
  unfold appendTree
  split
  · trivial
  · exact Meets.error (by decide)

/-- A witness stays, and the output of the note brings it about. -/
theorem scanOutput_spec (op : SaplingOutPoint H) (tx : H)
    (s : SaplingMerkleTree × List SaplingWitness) (e : OutputDescription × Nat) :
    Meets Fault.Absent (fun s' => s.2≠[] ∨ op=⟨tx,e.2⟩ → s'.2≠[]) (scanOutput O op tx s e) := by
  by_cases hs : s.2≠[]
  · rw [scanOutput,if_pos hs]
    refine Meets.bind (appendFront_spec hs e.1.cm) fun ws hws => ?_
    exact fun _ => hws
  · rw [scanOutput,if_neg hs]
    refine Meets.bind (appendTree_spec s.1 e.1.cm) fun t _ => ?_
    intro h
    dsimp only
    rw [if_pos (h.resolve_left hs)]
    exact List.cons_ne_nil _ _

theorem scanTx_spec (op : SaplingOutPoint H) (s : SaplingMerkleTree × List SaplingWitness)
    (tx : H) : Meets Fault.Absent
      (fun s' => s.2≠[] ∨ (op.hash=tx ∧ op.n<(L.vShieldedOutput tx).length) → s'.2≠[])
      (scanTx O L op s tx) := by
  refine (Meets.foldlM_reaches (Q := fun s => s.2≠[])
    fun t b => scanOutput_spec op tx t b).post fun s' hs' h => hs' (h.imp_right ?_)
  rintro ⟨rfl,hn⟩
  exact ⟨((L.vShieldedOutput op.hash)[op.n],op.n),List.mk_mem_zipIdx_iff_getElem?.mpr
    (List.getElem?_eq_getElem hn),rfl⟩

theorem scanBlock_spec (op : SaplingOutPoint H) (block : H) (tree : SaplingMerkleTree)
    (hmem : op.hash∈L.vtx block) (hn : op.n<(L.vShieldedOutput op.hash).length) :
    Meets Fault.Absent (fun s => s.2≠[]) (scanBlock O L op block tree) := by
  refine (Meets.foldlM_reaches (Q := fun s => s.2≠[]) fun t b => scanTx_spec op t b).post
    fun s hs => hs (.inr ⟨op.hash,hmem,rfl,hn⟩)

end Scan

section Verify

variable {H K A F P : Type} [LinearOrder H] [LinearOrder K]
variable {C : NoteCrypto K A F P} {O : HashClass Uint256} {L : Ledger H} {N : Node H}
variable {w : CWallet H K A F}

/-- The note stands among the outputs of its transaction. -/
def Owned (L : Ledger H) (tx : H) (op : SaplingOutPoint H) : Prop :=
  op.hash=tx ∧ op.n<(L.vShieldedOutput tx).length

omit [LinearOrder K] in
/-- A confirmed transaction stands in the block at its height. -/
theorem Node.heightOf_spec {wtx : CWalletTx H K} {h : Nat} (hh : N.heightOf L wtx=some h) :
    ∃b,N.chainActive[h]?=some b ∧ wtx.hash∈L.vtx b.hash := by
  unfold heightOf at hh
  split at hh
  · rename_i hashBlock nIndex _ _
    split_ifs at hh with hpos
    obtain ⟨hlt,hb,-⟩ := List.findIdx?_eq_some_iff_getElem.mp hh
    refine ⟨N.chainActive[h],List.getElem?_eq_getElem hlt,?_⟩
    rw [of_decide_eq_true hb]
    exact List.mem_of_getElem? hpos
  · cases hh

omit [LinearOrder H] in
theorem blockAt_spec {h : Nat} {b : CBlockIndex H} (hb : N.chainActive[h]?=some b) :
    N.blockAt h=.ok b := by
  unfold Node.blockAt
  rw [if_neg (by omega)]
  simp [hb]

omit [LinearOrder H] in
theorem blockAt_meets (h : Int) : Meets Fault.Absent (fun _ => True) (N.blockAt h) := by
  unfold Node.blockAt
  split
  · trivial
  · exact Meets.error (by decide)

omit [LinearOrder K] in
theorem setInitialWitness_spec {op : SaplingOutPoint H} {h : Nat} {b : CBlockIndex H}
    {tx : H} (hb : N.chainActive[h]?=some b) (htx : tx∈L.vtx b.hash) (hop : Owned L tx op)
    (nd : SaplingNoteData K) :
    Meets Fault.Absent (fun nd' => nd'.ivk=nd.ivk ∧ nd'.nullifier=nd.nullifier ∧ nd'.witnesses≠[])
      (setInitialWitness O L N op h nd) := by
  obtain ⟨rfl,hn⟩ := hop
  unfold setInitialWitness
  rw [blockAt_spec hb]
  refine Meets.bind (G := fun c => c=b) rfl fun c hc => ?_
  subst hc
  refine Meets.bind (blockAt_meets _) fun pprev _ => ?_
  dsimp only
  split_ifs
  · refine Meets.bind (scanBlock_spec op c.hash _ htx hn) fun s hs => ?_
    exact ⟨rfl,rfl,hs⟩
  · exact Meets.error (by decide)

omit [LinearOrder H] [LinearOrder K] in
/-- A witness that passes the tests was there, and so was its nullifier. -/
theorem checkWitness_spec (height : Int) (witnessOnly : Bool) {nd : SaplingNoteData K}
    (hnd : nd.nullifier=none → nd.witnesses=[]) (m : Int) :
    Meets Fault.Absent (fun r => ∀p∈r,nd.witnesses≠[] ∧ p.1.witnesses=nd.witnesses ∧
      p.1.ivk=nd.ivk ∧ p.1.nullifier=nd.nullifier) (checkWitness O N height witnessOnly nd m) := by
  by_cases h : nd.witnesses≠[] ∧ 0<nd.witnessHeight
  · have hnullifier : nd.nullifier≠none := fun hnone => h.1 (hnd hnone)
    have hkeep : ∀p : SaplingNoteData K × Int,p.1.witnesses=nd.witnesses → p.1.ivk=nd.ivk →
        p.1.nullifier=nd.nullifier → ∀q∈some p,nd.witnesses≠[] ∧
          q.1.witnesses=nd.witnesses ∧ q.1.ivk=nd.ivk ∧ q.1.nullifier=nd.nullifier := by
      intro p hw hi hn q hq
      obtain rfl := Option.some.inj hq
      exact ⟨h.1,hw,hi,hn⟩
    rw [checkWitness,if_pos h]
    split_ifs
    · exact hkeep (nd,m) rfl rfl rfl
    · exact (deref_meets hnullifier).bind fun _ _ => hkeep (nd,_) rfl rfl rfl
    · exact (deref_meets hnullifier).bind fun _ _ => hkeep (nd,_) rfl rfl rfl
    · refine (front_meets h.1).bind fun witness _ => (blockAt_meets _).bind fun b _ => ?_
      split_ifs
      · refine (deref_meets hnullifier).bind fun _ _ => ?_
        exact hkeep ({nd with witnessRootValidated := true},_) rfl rfl rfl
      · exact fun p hp => by cases hp
  · rw [checkWitness,if_neg h]
    exact fun p hp => by cases hp

/-- The loop over the notes of a transaction, before its `j`-th note. -/
structure Verified (w : CWallet H K A F) (L : Ledger H) (wtx : CWalletTx H K) (j : Nat)
    (wtx' : CWalletTx H K) : Prop extends SameTx wtx wtx' where
  keyed : ∀e∈wtx'.mapSaplingNoteData,Keyed w e.2
  done : ∀i<j,∀e,wtx'.mapSaplingNoteData[i]?=some e → e.2.witnesses≠[] ∧ w.Holds e.2.ivk

omit [LinearOrder H] [LinearOrder K] in
theorem SameNote.trans {e e₁ e₂ : SaplingOutPoint H × SaplingNoteData K} (h : SameNote e e₁)
    (h' : SameNote e₁ e₂) : SameNote e e₂ := ⟨h'.op.trans h.op,h'.ivk.trans h.ivk⟩

omit [LinearOrder H] [LinearOrder K] in
theorem SameTx.trans {wtx wtx₁ wtx₂ : CWalletTx H K} (h : SameTx wtx wtx₁) (h' : SameTx wtx₁ wtx₂) :
    SameTx wtx wtx₂ where
  hash := h'.hash.trans h.hash
  hashBlock := h'.hashBlock.trans h.hashBlock
  nIndex := h'.nIndex.trans h.nIndex
  notes := forall₂_trans (R := SameNote) (S := SameNote) (fun _ _ _ => SameNote.trans)
    h.notes h'.notes

omit [LinearOrder H] in
/-- One more note is done when another note data with a witness is put in its place. -/
theorem Verified.set {wtx wtx' : CWalletTx H K} {j : Nat} (hs : Verified w L wtx j wtx')
    {op : SaplingOutPoint H} {found nd : SaplingNoteData K}
    (hj : wtx'.mapSaplingNoteData[j]?=some (op,found)) (hivk : nd.ivk=found.ivk)
    (hkeyed : Keyed w nd) (hws : nd.witnesses≠[]) (hholds : w.Holds nd.ivk) :
    Verified w L wtx (j+1) (wtx'.setNote j (op,nd)) := by
  refine ⟨⟨hs.hash,hs.hashBlock,hs.nIndex,forall₂_set hs.notes fun e he => ?_⟩,fun e he => ?_,?_⟩
  · obtain ⟨x,hx,hsame⟩ := forall₂_getElem? hs.notes hj
    obtain rfl := Option.some.inj (he.symm.trans hx)
    exact ⟨hsame.op,hivk.trans hsame.ivk⟩
  · rcases List.mem_or_eq_of_mem_set he with he | rfl
    · exact hs.keyed e he
    · exact hkeyed
  · intro i hi e he
    have hlt := (List.getElem?_eq_some_iff.mp hj).1
    dsimp only [CWalletTx.setNote] at he
    by_cases hij : i=j
    · subst hij
      rw [List.getElem?_set_self hlt] at he
      obtain rfl := Option.some.inj he
      exact ⟨hws,hholds⟩
    · rw [List.getElem?_set_ne (Ne.symm hij)] at he
      exact hs.done i (by omega) e he

omit [LinearOrder H] in
/-- New nullifiers change nothing of that. -/
theorem Verified.renewed {wtx wtx₁ wtx₂ : CWalletTx H K} {j : Nat} (hs : Verified w L wtx j wtx₁)
    (hsame : SameTx wtx₁ wtx₂)
    (hnotes : List.Forall₂ (Renewed w) wtx₁.mapSaplingNoteData wtx₂.mapSaplingNoteData) :
    Verified w L wtx j wtx₂ := by
  refine ⟨hs.toSameTx.trans hsame,fun e he => ?_,fun i hi e he => ?_⟩
  · obtain ⟨i,hi⟩ := List.mem_iff_getElem?.mp he
    obtain ⟨x,hx,hren⟩ := forall₂_getElem? hnotes hi
    exact hren.keyed (hs.keyed x (List.mem_of_getElem? hx))
  · obtain ⟨x,hx,hren⟩ := forall₂_getElem? hnotes he
    rw [hren.witnesses,hren.ivk]
    exact hs.done i hi x hx

theorem verifyNote_spec {wtx : CWalletTx H K} {h : Nat} {b : CBlockIndex H}
    (hb : N.chainActive[h]?=some b) (htx : wtx.hash∈L.vtx b.hash)
    (howned : ∀e∈wtx.mapSaplingNoteData,Owned L wtx.hash e.1) (height : Int) (witnessOnly : Bool)
    {j : Nat} {s : CWalletTx H K × Int} (hs : Verified w L wtx j s.1) :
    Meets (fun f => f.Absent ∧ ∀e∈wtx.mapSaplingNoteData,w.Holds e.2.ivk)
      (fun s' => Verified w L wtx (j+1) s'.1) (verifyNote C O L N w height witnessOnly h s j) := by
  unfold verifyNote
  cases hj : s.1.mapSaplingNoteData[j]? with
  | none =>
    refine ⟨hs.toSameTx,hs.keyed,fun i hi e he => hs.done i ?_ e he⟩
    have hlen := List.getElem?_eq_none_iff.mp hj
    have hlt := (List.getElem?_eq_some_iff.mp he).1
    omega
  | some e =>
    obtain ⟨op,found⟩ := e
    have hkeyed : Keyed w found := hs.keyed _ (List.mem_of_getElem? hj)
    obtain ⟨nd,hnd,hivk,hnone,hkeyed'⟩ : ∃nd,
        (if found.nullifier.isNone then found.clear else found)=nd ∧ nd.ivk=found.ivk ∧
          (nd.nullifier=none → nd.witnesses=[]) ∧ Keyed w nd := by
      refine ⟨_,rfl,?_⟩
      cases hnull : found.nullifier with
      | none => exact ⟨rfl,fun _ => rfl,fun h => by simp [SaplingNoteData.clear,hnull] at h⟩
      | some nullifier => exact ⟨rfl,fun h => by simp [hnull] at h,hkeyed⟩
    obtain ⟨x,hx,hsame⟩ := forall₂_getElem? hs.notes hj
    dsimp only
    rw [hnd]
    refine Meets.bind ((checkWitness_spec height witnessOnly hnone s.2).mono (fun f hf => hf.1)
      fun _ h => h) fun r hr => ?_
    cases r with
    | some p =>
      obtain ⟨hws,hws',hi,hn⟩ := hr p rfl
      have hholds : w.Holds nd.ivk :=
        hkeyed' (Option.isSome_iff_ne_none.mpr fun hnull => hws (hnone hnull))
      refine hs.set hj (hi.trans hivk) (fun _ => hi ▸ hholds) (hws' ▸ hws) (hi ▸ hholds)
    | none =>
      have hop : Owned L wtx.hash op := by
        rw [show op=x.1 from hsame.op]
        exact howned x (List.mem_of_getElem? hx)
      refine Meets.bind ((setInitialWitness_spec hb htx hop nd).mono (fun f hf => hf.1)
        fun _ h => h) fun nd' hnd' => ?_
      obtain ⟨hi,hn,hws⟩ := hnd'
      have hkeyed'' : Keyed w nd' := by
        rw [Keyed,hi,hn]
        exact hkeyed'
      refine Meets.bind ((updateTx_spec w _).mono (fun f hf => hf.1) fun _ h => h)
        fun wtx' hwtx' => ?_
      obtain ⟨hsameTx,hnotes⟩ := hwtx'
      have hlt := (List.getElem?_eq_some_iff.mp hj).1
      obtain ⟨e',he'⟩ : ∃e',wtx'.mapSaplingNoteData[j]?=some e' := by
        have hlen := hnotes.length_eq
        rw [CWalletTx.setNote,List.length_set] at hlen
        exact ⟨_,List.getElem?_eq_getElem (hlen ▸ hlt)⟩
      obtain ⟨y,hy,hren⟩ := forall₂_getElem? hnotes he'
      obtain rfl : (op,nd')=y := by
        dsimp only [CWalletTx.setNote] at hy
        rw [List.getElem?_set_self hlt] at hy
        exact Option.some.inj hy
      rw [he',Option.bind_some]
      by_cases hholds : w.Holds nd'.ivk
      · have hnull : e'.2.nullifier≠none := Option.isSome_iff_ne_none.mp (hren.nullifier hws hholds)
        refine ((deref_meets hnull).mono (fun f hf => hf.1) fun _ h => h).bind fun nullifier _ => ?_
        exact (hs.set hj (hi.trans hivk) hkeyed'' hws hholds).renewed hsameTx hnotes
      · have hnull : e'.2.nullifier=none := by
          by_contra hne
          have hkey := hren.keyed hkeyed'' (Option.isSome_iff_ne_none.mpr hne)
          rw [hren.ivk] at hkey
          exact hholds hkey
        rw [hnull]
        refine fun hf => hholds ?_
        rw [hi,hivk,show found.ivk=x.2.ivk from hsame.ivk]
        exact hf.2 x (List.mem_of_getElem? hx)

/-- What the loop over the wallet leaves of a transaction. -/
structure Checked (L : Ledger H) (N : Node H) (w : CWallet H K A F) (wtx wtx' : CWalletTx H K) :
    Prop extends SameTx wtx wtx' where
  keyed : ∀e∈wtx'.mapSaplingNoteData,Keyed w e.2
  confirmed : (N.heightOf L wtx).isSome →
    ∀e∈wtx'.mapSaplingNoteData,e.2.witnesses≠[] ∧ w.Holds e.2.ivk

/-- All notes of a confirmed transaction have their full viewing keys in the wallet. -/
def Viewable (L : Ledger H) (N : Node H) (w : CWallet H K A F) (wtx : CWalletTx H K) : Prop :=
  (N.heightOf L wtx).isSome → ∀e∈wtx.mapSaplingNoteData,w.Holds e.2.ivk

omit [LinearOrder H] [LinearOrder K] in
theorem SameTx.refl (wtx : CWalletTx H K) : SameTx wtx wtx :=
  ⟨rfl,rfl,rfl,List.forall₂_same.mpr fun _ _ => ⟨rfl,rfl⟩⟩

theorem verifyTx_spec {wtx : CWalletTx H K} (hkeyed : ∀e∈wtx.mapSaplingNoteData,Keyed w e.2)
    (howned : ∀e∈wtx.mapSaplingNoteData,Owned L wtx.hash e.1) (height : Int) (witnessOnly : Bool)
    (m : Int) :
    Meets (fun f => f.Absent ∧ Viewable L N w wtx) (fun s => Checked L N w wtx s.1)
      (verifyTx C O L N w height witnessOnly wtx m) := by
  unfold verifyTx
  cases hh : N.heightOf L wtx with
  | none => exact ⟨.refl wtx,hkeyed,fun h => by simp [hh] at h⟩
  | some h =>
    obtain ⟨b,hb,htx⟩ := Node.heightOf_spec hh
    have hloop := Meets.foldlM_range (B := fun f => f.Absent ∧ Viewable L N w wtx)
      (f := verifyNote C O L N w height witnessOnly h) (s := (wtx,m))
      (n := wtx.mapSaplingNoteData.length)
      (I := fun j s => Verified w L wtx j s.1) ⟨.refl wtx,hkeyed,fun i hi => by omega⟩
      (fun j _ s hs => (verifyNote_spec hb htx howned height witnessOnly hs).mono
        (fun f hf => ⟨hf.1,hf.2 (by simp [hh])⟩) fun _ h => h)
    refine hloop.post fun s hs => ⟨hs.toSameTx,hs.keyed,fun _ e he => ?_⟩
    obtain ⟨i,hi⟩ := List.mem_iff_getElem?.mp he
    refine hs.done i ?_ e hi
    rw [hs.notes.length_eq]
    exact (List.getElem?_eq_some_iff.mp hi).1

/-- One transaction of the wallet and what stands in its place afterwards. -/
def Kept (R : CWalletTx H K → CWalletTx H K → Prop) (e e' : H × CWalletTx H K) : Prop :=
  e'.1=e.1 ∧ R e.2 e'.2

theorem verifyLoop_spec (height : Int) (witnessOnly : Bool) {l : List (H × CWalletTx H K)}
    (hkeyed : ∀p∈l,∀e∈p.2.mapSaplingNoteData,Keyed w e.2)
    (howned : ∀p∈l,∀e∈p.2.mapSaplingNoteData,Owned L p.2.hash e.1) (m : Int) :
    Meets (fun f => f.Absent ∧ ∀p∈l,Viewable L N w p.2)
      (fun s => List.Forall₂ (Kept (Checked L N w)) l s.1)
      (verifyLoop C O L N w height witnessOnly l m) := by
  induction l generalizing m with
  | nil => exact .nil
  | cons p l ih =>
    obtain ⟨k,wtx⟩ := p
    rw [verifyLoop]
    refine Meets.bind ((verifyTx_spec (hkeyed _ List.mem_cons_self) (howned _ List.mem_cons_self)
      height witnessOnly m).mono (fun f hf => ⟨hf.1,hf.2 _ List.mem_cons_self⟩)
      fun _ h => h) fun s hs => ?_
    refine Meets.bind ((ih (fun p hp => hkeyed p (List.mem_cons_of_mem _ hp))
      (fun p hp => howned p (List.mem_cons_of_mem _ hp)) s.2).mono
      (fun f hf => ⟨hf.1,fun p hp => hf.2 p (List.mem_cons_of_mem _ hp)⟩)
      fun _ h => h) fun s' hs' => ?_
    exact .cons ⟨rfl,hs⟩ hs'

omit [LinearOrder H] [LinearOrder K] in
/-- The block loop meets witnesses only. -/
theorem extendNote_spec (block : H) (nHeight : Int) {nd : SaplingNoteData K}
    (hws : nd.witnesses≠[]) :
    Meets Fault.Absent (fun nd' => nd'.ivk=nd.ivk ∧ nd'.nullifier=nd.nullifier ∧ nd'.witnesses≠[])
      (extendNote O L N block nHeight nd) := by
  unfold extendNote
  cases hn : nd.nullifier with
  | none => exact ⟨rfl,hn,hws⟩
  | some nullifier =>
    dsimp only
    split_ifs
    · refine (front_meets hws).bind fun witness hwitness => ?_
      have hstart : (witness::nd.witnesses).take N.WITNESS_CACHE_SIZE≠[] := by
        rw [Node.WITNESS_CACHE_SIZE,List.take_succ_cons]
        exact List.cons_ne_nil _ _
      refine Meets.bind (Meets.foldlM_keeps hstart fun cm _ ws hws => appendFront_spec hws cm)
        fun ws hws => ?_
      exact ⟨rfl,rfl,hws⟩
    · exact ⟨rfl,hn,hws⟩

theorem extendTx_spec (block : H) (nHeight : Int) {wtx : CWalletTx H K}
    (hkeyed : ∀e∈wtx.mapSaplingNoteData,Keyed w e.2)
    (hws : (N.heightOf L wtx).isSome → ∀e∈wtx.mapSaplingNoteData,e.2.witnesses≠[]) :
    Meets Fault.Absent (fun wtx' => SameTx wtx wtx' ∧
        (∀e∈wtx'.mapSaplingNoteData,Keyed w e.2) ∧
        ((N.heightOf L wtx).isSome → ∀e∈wtx'.mapSaplingNoteData,e.2.witnesses≠[]))
      (extendTx O L N block nHeight wtx) := by
  unfold extendTx
  split_ifs with hh
  · refine Meets.bind (Meets.mapM (R := fun e e' => SameNote e e' ∧ Keyed w e'.2 ∧
      e'.2.witnesses≠[]) fun e he => ?_) fun notes hnotes => ?_
    · refine Meets.bind (extendNote_spec block nHeight (hws hh e he)) fun nd hnd => ?_
      refine ⟨⟨rfl,hnd.1⟩,?_,hnd.2.2⟩
      rw [Keyed,hnd.1,hnd.2.1]
      exact hkeyed e he
    · have hall : ∀e'∈notes,Keyed w e'.2 ∧ e'.2.witnesses≠[] := by
        intro e' he'
        obtain ⟨i,hi⟩ := List.mem_iff_getElem?.mp he'
        obtain ⟨x,-,hx⟩ := forall₂_getElem? hnotes hi
        exact hx.2
      exact ⟨⟨rfl,rfl,rfl,hnotes.imp fun _ _ h => h.1⟩,fun e he => (hall e he).1,
        fun _ e he => (hall e he).2⟩
  · exact ⟨.refl wtx,hkeyed,fun h => absurd h hh⟩

/-- A transaction of the wallet that kept its notes, with nullifiers of known keys only. -/
structure Stays (w : CWallet H K A F) (wtx wtx' : CWalletTx H K) : Prop
    extends SameTx wtx wtx' where
  keyed : ∀e∈wtx'.mapSaplingNoteData,Keyed w e.2

omit [LinearOrder K] in
theorem Node.heightOf_same {wtx wtx' : CWalletTx H K} (h : SameTx wtx wtx') :
    N.heightOf L wtx'=N.heightOf L wtx := by
  unfold heightOf
  rw [h.hash,h.hashBlock,h.nIndex]

/-- In the block loop every confirmed note has a witness. -/
def Witnessed (L : Ledger H) (N : Node H) (w : CWallet H K A F) (wtx wtx' : CWalletTx H K) : Prop :=
  Stays w wtx wtx' ∧
    ((N.heightOf L wtx).isSome → ∀e∈wtx'.mapSaplingNoteData,e.2.witnesses≠[])

theorem extendAll_spec (block : H) (nHeight : Nat) {l₀ l : List (H × CWalletTx H K)}
    (hl : List.Forall₂ (Kept (Witnessed L N w)) l₀ l) :
    Meets Fault.Absent (fun l' => List.Forall₂ (Kept (Witnessed L N w)) l₀ l')
      (l.mapM fun e => do
        let wtx ← extendTx O L N block nHeight e.2
        return (e.1,wtx)) := by
  refine (Meets.mapM (R := Kept (fun wtx wtx' => ∀wtx₀,Witnessed L N w wtx₀ wtx →
    Witnessed L N w wtx₀ wtx')) fun p hp => ?_).post fun l' hl' =>
      forall₂_trans (fun p p₁ p₂ h h' => ⟨h'.1.trans h.1,h'.2 p.2 h.2⟩) hl hl'
  obtain ⟨i,hi⟩ := List.mem_iff_getElem?.mp hp
  obtain ⟨x,-,hx⟩ := forall₂_getElem? hl hi
  have hh := Node.heightOf_same (N := N) (L := L) hx.2.1.toSameTx
  refine Meets.bind (extendTx_spec block nHeight hx.2.1.keyed (by rw [hh]; exact hx.2.2))
    fun wtx' hwtx' => ⟨rfl,fun wtx₀ h₀ => ?_⟩
  refine ⟨⟨h₀.1.toSameTx.trans hwtx'.1,hwtx'.2.1⟩,fun hc => hwtx'.2.2 ?_⟩
  rw [Node.heightOf_same h₀.1.toSameTx]
  exact hc

theorem buildLoop_spec (pindex : H) (blocks : List (CBlockIndex H)) (nHeight : Nat)
    {l₀ l : List (H × CWalletTx H K)} (hl : List.Forall₂ (Kept (Witnessed L N w)) l₀ l) :
    Meets Fault.Absent (fun l' => List.Forall₂ (Kept (Witnessed L N w)) l₀ l')
      (buildLoop O L N pindex blocks nHeight l) := by
  induction blocks generalizing nHeight l with
  | nil => exact hl
  | cons b rest ih =>
    have hstep := extendAll_spec (O := O) b.hash nHeight hl
    rw [buildLoop]
    split_ifs
    · exact hl
    · exact Meets.error (by decide)
    · exact hstep.bind fun l' hl' => hl'
    · exact hstep.bind fun l' hl' => ih (nHeight+1) hl'
    · exact Meets.error (by decide)

/-- What the calls keep: notes stand among the outputs of their transactions, and
nullifiers were computed with full viewing keys of the wallet. -/
structure Inv (L : Ledger H) (w : CWallet H K A F) : Prop where
  keys : ∀p∈w.mapWallet,p.2.hash=p.1
  keyed : ∀p∈w.mapWallet,∀e∈p.2.mapSaplingNoteData,Keyed w e.2
  owned : ∀p∈w.mapWallet,∀e∈p.2.mapSaplingNoteData,Owned L p.2.hash e.1

omit [LinearOrder H] in
theorem Inv.of_stays (hw : Inv L w) {l : List (H × CWalletTx H K)}
    (hl : List.Forall₂ (Kept (Stays w)) w.mapWallet l) : Inv L {w with mapWallet := l} := by
  have hback : ∀p'∈l,∃p∈w.mapWallet,Kept (Stays w) p p' := by
    intro p' hp'
    obtain ⟨i,hi⟩ := List.mem_iff_getElem?.mp hp'
    obtain ⟨p,hp,h⟩ := forall₂_getElem? hl hi
    exact ⟨p,List.mem_of_getElem? hp,h⟩
  refine ⟨fun p' hp' => ?_,fun p' hp' e he => ?_,fun p' hp' e he => ?_⟩
  · obtain ⟨p,hp,hkey,h⟩ := hback p' hp'
    rw [h.hash,hkey,hw.keys p hp]
  · obtain ⟨p,hp,hkey,h⟩ := hback p' hp'
    exact h.keyed e he
  · obtain ⟨p,hp,hkey,h⟩ := hback p' hp'
    obtain ⟨i,hi⟩ := List.mem_iff_getElem?.mp he
    obtain ⟨x,hx,hsame⟩ := forall₂_getElem? h.notes hi
    rw [h.hash,hsame.op]
    exact hw.owned p hp x (List.mem_of_getElem? hx)

/-- All notes of confirmed transactions have their full viewing keys in the wallet. -/
def AllViewable (L : Ledger H) (N : Node H) (w : CWallet H K A F) : Prop :=
  ∀p∈w.mapWallet,Viewable L N w p.2

theorem buildWitnessCache_spec (hw : Inv L w) (pindex : H) (height : Int) (witnessOnly : Bool) :
    Meets (fun f => f.Absent ∧ AllViewable L N w) (fun w' => AllViewable L N w ∧ Inv L w')
      (buildWitnessCache C O L N pindex height witnessOnly w) := by
  unfold buildWitnessCache verifyAndSetInitialWitness
  rw [bind_assoc]
  refine Meets.bind (verifyLoop_spec height witnessOnly hw.keyed hw.owned height) fun s hs => ?_
  have hview : AllViewable L N w := by
    intro p hp hc e he
    obtain ⟨i,hi⟩ := List.mem_iff_getElem?.mp hp
    obtain ⟨p',-,hkept⟩ := forall₂_getElem? hs.flip hi
    obtain ⟨j,hj⟩ := List.mem_iff_getElem?.mp he
    obtain ⟨e',he',hsame⟩ := forall₂_getElem? hkept.2.notes.flip hj
    have hdone := hkept.2.confirmed hc e' (List.mem_of_getElem? he')
    rw [← show e'.2.ivk=e.2.ivk from hsame.ivk]
    exact hdone.2
  have hwitnessed : List.Forall₂ (Kept (Witnessed L N w)) w.mapWallet s.1 := by
    refine hs.imp fun p p' h => ⟨h.1,⟨h.2.toSameTx,h.2.keyed⟩,fun hc e he => ?_⟩
    exact (h.2.confirmed hc e he).1
  have hinv : ∀l,List.Forall₂ (Kept (Witnessed L N w)) w.mapWallet l →
      Inv L {w with mapWallet := l} :=
    fun l hl => hw.of_stays (hl.imp fun p p' h => ⟨h.1,h.2.1⟩)
  rw [pure_bind]
  dsimp only
  split_ifs
  · exact ⟨hview,hinv _ hwitnessed⟩
  · refine ((buildLoop_spec pindex _ _ hwitnessed).mono (fun f hf => hf.1) fun _ h => h).bind
      fun l hl => ⟨hview,?_⟩
    exact hinv l hl

omit [LinearOrder H] in
theorem stays_mapNotes {f : SaplingNoteData K → SaplingNoteData K} (hw : Inv L w)
    (hf : ∀nd,(f nd).ivk=nd.ivk ∧ (f nd).nullifier=nd.nullifier) : Inv L (w.mapNotes f) := by
  refine hw.of_stays (List.forall₂_map_right_iff.mpr (List.forall₂_same.mpr fun p hp => ?_))
  refine ⟨rfl,⟨rfl,rfl,rfl,?_⟩,fun e he => ?_⟩
  · exact List.forall₂_map_right_iff.mpr (List.forall₂_same.mpr fun e _ => ⟨rfl,(hf e.2).1⟩)
  · obtain ⟨e₀,he₀,rfl⟩ := List.mem_map.mp he
    rw [Keyed,(hf e₀.2).1,(hf e₀.2).2]
    exact hw.keyed p hp e₀ he₀

omit [LinearOrder H] in
theorem decrementNoteWitnesses_spec (hw : Inv L w) (height : Int) :
    Meets Fault.Absent (Inv L) (decrementNoteWitnesses N height w) := by
  unfold decrementNoteWitnesses
  split_ifs
  · refine stays_mapNotes hw fun nd => ?_
    unfold decrementNote
    cases hn : nd.nullifier with
    | none => exact ⟨rfl,hn⟩
    | some nullifier =>
      dsimp only
      split_ifs
      · exact ⟨rfl,rfl⟩
      · exact ⟨rfl,hn⟩
  · exact Meets.error (by decide)

theorem updateWalletTx_spec (hw : Inv L w) (hash : H) :
    Meets Fault.Absent (Inv L) (updateWalletTx C L w hash) := by
  refine Meets.bind (Meets.mapM (R := Kept (Stays w)) fun p hp => ?_) fun l hl => hw.of_stays hl
  split_ifs
  · refine (updateTx_spec w p.2).bind fun wtx hwtx => ⟨rfl,hwtx.1,fun e he => ?_⟩
    obtain ⟨i,hi⟩ := List.mem_iff_getElem?.mp he
    obtain ⟨x,hx,hren⟩ := forall₂_getElem? hwtx.2 hi
    exact hren.keyed (hw.keyed p hp x (List.mem_of_getElem? hx))
  · exact ⟨rfl,.refl p.2,hw.keyed p hp⟩

end Verify

section Events

variable {H K A F P : Type} [LinearOrder H] [LinearOrder K] [LinearOrder A]
variable {C : NoteCrypto K A F P} {O : HashClass Uint256} {L : Ledger H} {w : CWallet H K A F}

omit [LinearOrder H] [LinearOrder A] in
theorem Holds.assign {ivk : K} (h : w.Holds ivk) (k : K) (fvk : F) :
    CWallet.Holds
      {w with mapSaplingFullViewingKeys := assign k fvk w.mapSaplingFullViewingKeys} ivk := by
  unfold CWallet.Holds at h ⊢
  rw [List.lookup_isSome_iff] at h ⊢
  obtain ⟨e,he,hkey⟩ := h
  have hnew : ∀e∈w.mapSaplingFullViewingKeys.filter fun e => decide (e.1≠k),e.1≠k :=
    fun e he => of_decide_eq_true (List.mem_filter.mp he).2
  have hperm := OrderedMap.insertNew_perm fvk hnew
  by_cases hk : e.1=k
  · exact ⟨(k,fvk),hperm.mem_iff.mpr List.mem_cons_self,hk ▸ hkey⟩
  · have hold : e∈w.mapSaplingFullViewingKeys.filter fun e => decide (e.1≠k) :=
      List.mem_filter.mpr ⟨he,decide_eq_true hk⟩
    exact ⟨e,hperm.mem_iff.mpr (List.mem_cons_of_mem _ hold),hkey⟩

omit [LinearOrder H] [LinearOrder K] in
theorem mem_findMySaplingNotes {stray : Bool} {tx : H} {e : SaplingOutPoint H × SaplingNoteData K}
    (he : e∈(findMySaplingNotes C L w stray tx).1) : Owned L tx e.1 ∧ e.2.nullifier=none := by
  obtain ⟨f,hf,hsome⟩ := List.mem_filterMap.mp he
  obtain ⟨o,ho,rfl⟩ := List.mem_map.mp hf
  obtain ⟨ivk,hivk,rfl⟩ := Option.map_eq_some_iff.mp hsome
  refine ⟨⟨rfl,?_⟩,rfl⟩
  exact List.snd_lt_of_mem_zipIdx ho

omit [LinearOrder K] in
theorem keepWitnesses_spec {tmp notes : List (SaplingOutPoint H × SaplingNoteData K)}
    {Q : SaplingOutPoint H → K → Option Uint256 → Prop}
    (htmp : ∀e∈tmp,Q e.1 e.2.ivk e.2.nullifier) :
    Meets Fault.Absent (fun l => ∀e∈l,Q e.1 e.2.ivk e.2.nullifier) (keepWitnesses tmp notes) := by
  induction notes generalizing tmp with
  | nil => exact htmp
  | cons n rest ih =>
    obtain ⟨op,nd⟩ := n
    rw [keepWitnesses]
    by_cases hop : op∈tmp.map Prod.fst
    · rw [if_pos hop]
      refine ih fun e he => ?_
      obtain ⟨e₀,he₀,rfl⟩ := List.mem_map.mp he
      have hq := htmp e₀ he₀
      by_cases heq : e₀.1=op
      · rw [if_pos heq]
        exact heq ▸ hq
      · rw [if_neg heq]
        exact hq
    · rw [if_neg hop]
      exact Meets.error (by decide)

omit [LinearOrder A] in
theorem addToWallet_spec (hw : Inv L w) {wtxIn : CWalletTx H K}
    (hin : ∀e∈wtxIn.mapSaplingNoteData,Owned L wtxIn.hash e.1 ∧ e.2.nullifier=none) :
    Meets Fault.Absent (Inv L) (addToWallet wtxIn w) := by
  have hunkeyed : ∀e∈wtxIn.mapSaplingNoteData,Owned L wtxIn.hash e.1 ∧ Keyed w e.2 := by
    intro e he
    refine ⟨(hin e he).1,fun h => ?_⟩
    rw [(hin e he).2] at h
    cases h
  unfold addToWallet
  cases hl : w.mapWallet.lookup wtxIn.hash with
  | none =>
    have hmem : ∀p∈OrderedMap.insertNew wtxIn.hash wtxIn w.mapWallet,
        p=(wtxIn.hash,wtxIn) ∨ p∈w.mapWallet := fun p hp => OrderedMap.mem_insertNew hp
    refine ⟨fun p hp => ?_,fun p hp e he => ?_,fun p hp e he => ?_⟩
    · rcases hmem p hp with rfl | hp
      · rfl
      · exact hw.keys p hp
    · rcases hmem p hp with rfl | hp
      · exact (hunkeyed e he).2
      · exact hw.keyed p hp e he
    · rcases hmem p hp with rfl | hp
      · exact (hunkeyed e he).1
      · exact hw.owned p hp e he
  | some wtx =>
    have hmem := OrderedMap.mem_of_lookup hl
    have hhash : wtx.hash=wtxIn.hash := hw.keys _ hmem
    have hnotes : Meets Fault.Absent (fun notes => ∀e∈notes,Owned L wtx.hash e.1 ∧ Keyed w e.2)
        (updatedNoteData wtxIn wtx) := by
      unfold updatedNoteData
      split_ifs
      · exact fun e he => ⟨hw.owned _ hmem e he,hw.keyed _ hmem e he⟩
      · rw [hhash]
        exact keepWitnesses_spec (Q := fun op ivk nullifier => Owned L wtxIn.hash op ∧
          (nullifier.isSome → w.Holds ivk)) hunkeyed
    refine hnotes.bind fun notes hnotes => ⟨fun p hp => ?_,fun p hp e he => ?_,fun p hp e he => ?_⟩
    all_goals
      obtain ⟨p₀,hp₀,rfl⟩ := List.mem_map.mp hp
      by_cases hkey : p₀.1=wtxIn.hash
    · rw [if_pos hkey,hkey]
      exact hhash
    · rw [if_neg hkey]
      exact hw.keys p₀ hp₀
    · rw [if_pos hkey] at he
      exact (hnotes e he).2
    · rw [if_neg hkey] at he
      exact hw.keyed p₀ hp₀ e he
    · rw [if_pos hkey] at he ⊢
      exact (hnotes e he).1
    · rw [if_neg hkey] at he ⊢
      exact hw.owned p₀ hp₀ e he

theorem syncTransaction_spec (hw : Inv L w) (tx : H) (pblock : Option H) (i : Involvement)
    (stray : Bool) :
    Meets Fault.Absent (Inv L) (addToWalletIfInvolvingMe C L tx pblock i stray w) := by
  unfold addToWalletIfInvolvingMe
  split_ifs
  · exact hw
  · dsimp only
    split_ifs
    · have hkeys : ∀keys : List (A × K),Inv L {w with mapSaplingIncomingViewingKeys := keys} :=
        fun keys => ⟨hw.keys,hw.keyed,hw.owned⟩
      exact addToWallet_spec (hkeys _) fun e he => mem_findMySaplingNotes he
    · exact ⟨hw.keys,hw.keyed,hw.owned⟩

/-- When a block is connected, the notes of all confirmed transactions must be viewable. -/
def Admitted (L : Ledger H) (w : CWallet H K A F) : Event H K A F → Prop
  | .connected N _ _ _ => AllViewable L N w
  | _ => True

theorem step_spec (hw : Inv L w) (event : Event H K A F) :
    Meets (fun f => f.Absent ∧ Admitted L w event) (fun w' => Admitted L w event ∧ Inv L w')
      (step C O L w event) := by
  have hplain : ∀x : Except Fault (CWallet H K A F),Meets Fault.Absent (Inv L) x →
      Meets (fun f => f.Absent ∧ True) (fun w' => True ∧ Inv L w') x :=
    fun x hx => hx.mono (fun f hf => hf.1) fun w' hw' => ⟨trivial,hw'⟩
  cases event with
  | addFullViewingKey ivk fvk =>
    exact hplain _ ⟨hw.keys,fun p hp e he h => Holds.assign (hw.keyed p hp e he h) ivk fvk,hw.owned⟩
  | addIncomingViewingKey address ivk => exact hplain _ ⟨hw.keys,hw.keyed,hw.owned⟩
  | syncTransaction tx pblock i stray => exact hplain _ (syncTransaction_spec hw tx pblock i stray)
  | connected N pindex height witnessOnly =>
    exact buildWitnessCache_spec hw pindex height witnessOnly
  | disconnected N pblock height =>
    refine hplain _ ((decrementNoteWitnesses_spec hw height).bind fun w' hw' => ?_)
    exact Meets.foldlM_keeps hw' fun hash _ w'' hw'' => updateWalletTx_spec hw'' hash
  | clearNoteWitnessCache => exact hplain _ (stays_mapNotes hw fun nd => ⟨rfl,rfl⟩)
  | eraseFromWallet hash =>
    refine hplain _ ⟨fun p hp => ?_,fun p hp => ?_,fun p hp => ?_⟩
    · exact hw.keys p (List.mem_of_mem_filter hp)
    · exact hw.keyed p (List.mem_of_mem_filter hp)
    · exact hw.owned p (List.mem_of_mem_filter hp)

/-- The run of the calls that return. -/
abbrev returns (C : NoteCrypto K A F P) (O : HashClass Uint256) (L : Ledger H)
    (w : CWallet H K A F) (event : Event H K A F) : Option (CWallet H K A F) :=
  (step C O L w event).toOption

theorem run_spec (hw : Inv L w) (events : List (Event H K A F)) :
    Meets (fun f => f.Absent ∧ Guarded (returns C O L) (Admitted L) events w)
      (fun _ => Guarded (returns C O L) (Admitted L) events w) (run C O L events w) := by
  induction events generalizing w with
  | nil => exact trivial
  | cons event events ih =>
    have hstep := step_spec (C := C) (O := O) hw event
    have hrun : run C O L (event::events) w=step C O L w event>>=run C O L events :=
      List.foldlM_cons
    rw [hrun]
    cases hs : step C O L w event with
    | error f => exact fun h => hstep.of_error hs ⟨h.1,h.2.1⟩
    | ok w' =>
      obtain ⟨hadmitted,hw'⟩ := hstep.of_ok hs
      have hreturns : returns C O L w event=some w' := by
        rw [returns,hs]
        rfl
      refine (ih hw').mono (fun f hf => ⟨hf.1,hf.2.2 w' hreturns⟩) fun _ hg => ⟨hadmitted,?_⟩
      intro w'' hw''
      obtain rfl := Option.some.inj (hreturns.symm.trans hw'')
      exact hg

/-- A run in which all confirmed notes are viewable when a block is connected uses no absent
value, and one that meets another note there does not return. -/
theorem absent_values_iff (C : NoteCrypto K A F P) (O : HashClass Uint256) (L : Ledger H)
    (events : List (Event H K A F)) :
    (Guarded (returns C O L) (Admitted L) events .empty →
      ∀f,run C O L events .empty=.error f → ¬f.Absent) ∧
    ∀w,run C O L events .empty=.ok w → Guarded (returns C O L) (Admitted L) events .empty := by
  have hempty : Inv L (CWallet.empty : CWallet H K A F) :=
    ⟨fun p hp => absurd hp List.not_mem_nil,fun p hp => absurd hp List.not_mem_nil,
      fun p hp => absurd hp List.not_mem_nil⟩
  have hrun := run_spec (C := C) (O := O) hempty events
  exact ⟨fun hg f hf habsent => hrun.of_error hf ⟨habsent,hg⟩,fun w hw => hrun.of_ok hw⟩

end Events

/-- Keys, addresses and hashes are numbers here, and everything decrypts. -/
def openCrypto : NoteCrypto Nat Nat Nat Unit where
  decrypt _ _ _ _ := some ()
  address ivk _ := some ivk
  nullifier _ ivk fvk position := some (BitVec.ofNat 256 (ivk+fvk)+position.setWidth 256)

/-- One transaction with a note in the block 1. -/
def noteLedger : Ledger Nat where
  vtx block := if block=1 then [7] else []
  vShieldedOutput tx := if tx=7 then [⟨42,0,[]⟩] else []

def tipNode : Node Nat where
  chainActive := [⟨0,Merkle.addHash.empty 32⟩,⟨1,0⟩]
  getSaplingAnchorAt _ := some .new
  getSaplingSpendDepth _ := 0
  readable _ := true
  interrupted _ := false
  MAX_REORG_LENGTH := 99
  HUSH_REWIND := 0

/-- The address was imported with an incoming viewing key, and its note is confirmed. -/
def watchedNote : List (Event Nat Nat Nat Nat) :=
  [.addIncomingViewingKey 5 5,.syncTransaction 7 (some 1) ⟨false,false,false⟩ false,
    .connected tipNode 1 1 false]

theorem watched_note_faults :
    run openCrypto Merkle.addHash noteLedger watchedNote .empty=.error .noNullifier := by
  rfl

end Zdeex.Wallet.WitnessCache
