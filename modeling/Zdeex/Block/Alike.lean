import Mathlib.Data.Set.Basic
import Zdeex.Block.ConnectBlock
import Zdeex.Block.Entries

namespace Zdeex.Block

open Zdeex.Coins

variable {Tree : Type}

/-- The coins and nullifiers of two views look alike to a reader, except at the
transactions of a set. -/
structure View.Alike (B : Set Uint256) (v w : View Tree) : Prop where
  coins : ∀txid∉B,seen (some (v.entry txid))=seen (some (w.entry txid))
  nullifiers : v.nullifiers=w.nullifiers

/-- The anchors and the best block are the same. -/
structure View.SameTip (v w : View Tree) : Prop where
  anchors : v.anchors=w.anchors
  bestSaplingAnchor : v.bestSaplingAnchor=w.bestSaplingAnchor
  bestSproutAnchor : v.bestSproutAnchor=w.bestSproutAnchor
  bestBlock : v.bestBlock=w.bestBlock

def View.Stored (v : View Tree) : Prop := ∀txid,Block.Stored (v.entry txid)

namespace View

variable {B : Set Uint256}

theorem Alike.refl (v : View Tree) : Alike B v v := ⟨fun _ _ => rfl,rfl⟩

theorem Alike.symm {v w : View Tree} (h : Alike B v w) : Alike B w v :=
  ⟨fun txid htxid => (h.coins txid htxid).symm,h.nullifiers.symm⟩

theorem Alike.trans {u v w : View Tree} (h : Alike B u v) (k : Alike B v w) : Alike B u w :=
  ⟨fun txid htxid => (h.coins txid htxid).trans (k.coins txid htxid),
    h.nullifiers.trans k.nullifiers⟩

theorem SameTip.refl (v : View Tree) : SameTip v v := ⟨rfl,rfl,rfl,rfl⟩

theorem SameTip.symm {v w : View Tree} (h : SameTip v w) : SameTip w v :=
  ⟨h.anchors.symm,h.bestSaplingAnchor.symm,h.bestSproutAnchor.symm,h.bestBlock.symm⟩

theorem SameTip.trans {u v w : View Tree} (h : SameTip u v) (k : SameTip v w) : SameTip u w :=
  ⟨h.anchors.trans k.anchors,h.bestSaplingAnchor.trans k.bestSaplingAnchor,
    h.bestSproutAnchor.trans k.bestSproutAnchor,h.bestBlock.trans k.bestBlock⟩

theorem entry_modifyCoins (v : View Tree) (txid t : Uint256) (edit : CCoins → CCoins) :
    (v.modifyCoins txid edit).entry t=
      if t=txid then (edit (v.entry txid)).cleanup else v.entry t := by
  unfold entry modifyCoins
  by_cases ht : t=txid
  · subst ht
    simp [entry]
  · simp [ht]

@[simp] theorem entry_setNullifiers (v : View Tree) (tx : CTransaction) (spent : Bool)
    (t : Uint256) : (v.setNullifiers tx spent).entry t=v.entry t := rfl

theorem Stored.modifyCoins {v : View Tree} (hv : v.Stored) (txid : Uint256)
    {edit : CCoins → CCoins} (hedit : Block.Stored (edit (v.entry txid)).cleanup) :
    (v.modifyCoins txid edit).Stored := by
  intro t
  rw [entry_modifyCoins]
  split_ifs
  · exact hedit
  · exact hv t

theorem Stored.clearCoins {v : View Tree} (hv : v.Stored) (txid : Uint256) :
    (v.modifyCoins txid fun _ => CCoins.clear).Stored :=
  hv.modifyCoins txid stored_clear

/-- One entry is edited on both sides. -/
theorem Alike.modifyCoins {v w : View Tree} (h : Alike B v w) (txid : Uint256)
    {edit edit' : CCoins → CCoins}
    (hedit : txid∉B → seen (some (edit (v.entry txid)))=seen (some (edit' (w.entry txid)))) :
    Alike B (v.modifyCoins txid edit) (w.modifyCoins txid edit') := by
  refine ⟨?_,h.nullifiers⟩
  intro t ht
  rw [entry_modifyCoins,entry_modifyCoins]
  split_ifs with heq
  · subst heq
    rw [seen_cleanup,seen_cleanup]
    exact hedit ht
  · exact h.coins t ht

/-- An edit on the right side is undone on the left side. -/
theorem Alike.undo {v w : View Tree} {txid : Uint256} {edit' : CCoins → CCoins}
    (h : Alike B w (v.modifyCoins txid edit')) {edit : CCoins → CCoins}
    (hedit : txid∉B → seen (some (edit (w.entry txid)))=seen (some (v.entry txid))) :
    Alike B (w.modifyCoins txid edit) v := by
  refine ⟨?_,h.nullifiers⟩
  intro t ht
  rw [entry_modifyCoins]
  split_ifs with heq
  · subst heq
    rw [seen_cleanup]
    exact hedit ht
  · have hcoins := h.coins t ht
    rwa [entry_modifyCoins,if_neg heq] at hcoins

/-- Edits inside the set do not show. -/
theorem alike_modifyCoins {v : View Tree} {txid : Uint256} (htxid : txid∈B)
    (edit : CCoins → CCoins) : Alike B (v.modifyCoins txid edit) v := by
  refine ⟨?_,rfl⟩
  intro t ht
  rw [entry_modifyCoins,if_neg]
  rintro rfl
  exact ht htxid

end View

section Spend

theorem spendInputs_cons {txin : CTxIn} {l : List CTxIn} {v v' : View Tree}
    {undos : List CTxInUndo} (h : spendInputs (txin::l) v=some (v',undos)) :
    ∃o rest,(v.entry txin.prevout.hash).unspentOutput txin.prevout.n=some o ∧
      spendInputs l (v.modifyCoins txin.prevout.hash fun c => c.spend txin.prevout.n)=
        some (v',rest) ∧
      undos=undoRecord (v.entry txin.prevout.hash)
        ((v.entry txin.prevout.hash).spend txin.prevout.n) o::rest := by
  simp only [spendInputs] at h
  split at h
  · cases h
  · rename_i o ho
    split at h
    · cases h
    · rename_i v₁ rest hrest
      obtain ⟨rfl,rfl⟩ := Prod.mk.inj (Option.some.inj h)
      exact ⟨o,rest,ho,hrest,rfl⟩

theorem spendInputs_frame {l : List CTxIn} {v v' : View Tree} {undos : List CTxInUndo}
    (h : spendInputs l v=some (v',undos)) : v'.nullifiers=v.nullifiers ∧ v'.SameTip v := by
  induction l generalizing v undos with
  | nil =>
    obtain ⟨rfl,-⟩ := Prod.mk.inj (Option.some.inj h)
    exact ⟨rfl,.refl v⟩
  | cons txin l ih =>
    obtain ⟨o,rest,-,hrest,-⟩ := spendInputs_cons h
    obtain ⟨hnf,htip⟩ := ih hrest
    exact ⟨hnf,htip.anchors,htip.bestSaplingAnchor,htip.bestSproutAnchor,htip.bestBlock⟩

theorem spendInputs_length {l : List CTxIn} {v v' : View Tree} {undos : List CTxInUndo}
    (h : spendInputs l v=some (v',undos)) : undos.length=l.length := by
  induction l generalizing v undos with
  | nil =>
    obtain ⟨-,rfl⟩ := Prod.mk.inj (Option.some.inj h)
    rfl
  | cons txin l ih =>
    obtain ⟨o,rest,-,hrest,rfl⟩ := spendInputs_cons h
    rw [List.length_cons,List.length_cons,ih hrest]

theorem spendInputs_stored {l : List CTxIn} {v v' : View Tree} {undos : List CTxInUndo}
    (h : spendInputs l v=some (v',undos)) (hv : v.Stored) :
    v'.Stored ∧ ∀u∈undos,SoundUndo u := by
  induction l generalizing v undos with
  | nil =>
    obtain ⟨rfl,rfl⟩ := Prod.mk.inj (Option.some.inj h)
    exact ⟨hv,by simp⟩
  | cons txin l ih =>
    obtain ⟨o,rest,ho,hrest,rfl⟩ := spendInputs_cons h
    have hspend := (hv txin.prevout.hash).spend txin.prevout.n
    obtain ⟨hv',hsound⟩ := ih hrest
      (hv.modifyCoins txin.prevout.hash (by rwa [hspend.trimmed]))
    refine ⟨hv',?_⟩
    intro u hu
    rcases List.mem_cons.mp hu with rfl | hu
    · exact soundUndo_undoRecord (hv txin.prevout.hash) ho
    · exact hsound u hu

theorem spendInputs_pruned {l : List CTxIn} {v v' : View Tree} {undos : List CTxInUndo}
    (h : spendInputs l v=some (v',undos)) {t : Uint256} (ht : (v.entry t).isPruned=true) :
    (v'.entry t).isPruned=true := by
  induction l generalizing v undos with
  | nil =>
    obtain ⟨rfl,-⟩ := Prod.mk.inj (Option.some.inj h)
    exact ht
  | cons txin l ih =>
    obtain ⟨o,rest,-,hrest,-⟩ := spendInputs_cons h
    apply ih hrest
    rw [View.entry_modifyCoins]
    split_ifs with heq
    · rw [CCoins.isPruned_cleanup]
      exact CCoins.isPruned_spend _ (heq ▸ ht)
    · exact ht

theorem spendInputs_entry {l : List CTxIn} {v v' : View Tree} {undos : List CTxInUndo}
    (h : spendInputs l v=some (v',undos)) {t : Uint256} (ht : ∀txin∈l,txin.prevout.hash≠t) :
    v'.entry t=v.entry t := by
  induction l generalizing v undos with
  | nil =>
    obtain ⟨rfl,-⟩ := Prod.mk.inj (Option.some.inj h)
    rfl
  | cons txin l ih =>
    obtain ⟨o,rest,-,hrest,-⟩ := spendInputs_cons h
    rw [ih hrest fun txin' hin => ht txin' (by simp [hin]),View.entry_modifyCoins,
      if_neg (Ne.symm (ht txin (by simp)))]

end Spend

end Zdeex.Block
