import Mathlib.Algebra.Order.BigOperators.Group.List
import Zdeex.Block.Alike
import Zdeex.Block.DisconnectBlock

namespace Zdeex.Block

open Zdeex.Coins

variable {Tree : Type} (R : BlockRules Tree) {B : Set Uint256}

/-- A record that fits puts its output back. -/
theorem restoreInput_ok (nHeight : Int) (i : Nat) (txhash : Uint256) (j : Nat)
    {prevout : COutPoint} {u : CTxInUndo} {c : CCoins} {o : CTxOut} {s : DisconnectState Tree}
    (hok : (restoreOutput u prevout.n (s.view.entry prevout.hash)).2=true)
    (hback : seen (some (restoreOutput u prevout.n (s.view.entry prevout.hash)).1)=seen (some c))
    (ho : c.unspentOutput prevout.n=some o) :
    ∃s',restoreInput R nHeight i txhash j prevout u s=some s' ∧
      s'.view=s.view.modifyCoins prevout.hash (fun c => (restoreOutput u prevout.n c).1) ∧
      s'.fClean=s.fClean := by
  have hfound : (s.view.modifyCoins prevout.hash
      (fun c => (restoreOutput u prevout.n c).1)).getOutputFor prevout=some o := by
    rw [View.getOutputFor,View.entry_modifyCoins,if_pos rfl,CCoins.unspentOutput_cleanup,
      CCoins.unspentOutput_eq_of_seen hback,ho]
  refine ⟨_,if_neg ?_,rfl,?_⟩
  · intro h
    exact absurd (hfound.symm.trans h.2) (by simp)
  · dsimp only [applyTxInUndo]
    rw [hok,Bool.and_true]

/-- The inputs that were spent are put back in the opposite order. -/
theorem restoreInputs_spendInputs {l : List CTxIn} {v v' : View Tree} {undos : List CTxInUndo}
    (h : spendInputs l v=some (v',undos)) (hv : v.Stored)
    (hB : ∀txin∈l,txin.prevout.hash∉B) (nHeight : Int) (i : Nat) (txhash : Uint256) (j : Nat)
    {s : DisconnectState Tree} (hs : s.view.Alike B v') (hstored : s.view.Stored) :
    ∃s',restoreInputs R nHeight i txhash j (l.zip undos) s=some s' ∧ s'.view.Alike B v ∧
      s'.view.Stored ∧ s'.fClean=s.fClean := by
  induction l generalizing v undos j with
  | nil =>
    obtain ⟨rfl,rfl⟩ := Prod.mk.inj (Option.some.inj h)
    exact ⟨s,rfl,hs,hstored,rfl⟩
  | cons txin l ih =>
    obtain ⟨o,rest,ho,hrest,rfl⟩ := spendInputs_cons h
    have hspend := (hv txin.prevout.hash).spend txin.prevout.n
    have hhash : txin.prevout.hash∉B := hB txin (by simp)
    obtain ⟨s₁,hs₁,halike,hstored₁,hclean⟩ := ih hrest
      (hv.modifyCoins txin.prevout.hash (by rwa [hspend.trimmed]))
      (fun txin' hin => hB txin' (by simp [hin])) (j+1)
    have hseen := halike.coins txin.prevout.hash hhash
    rw [View.entry_modifyCoins,if_pos rfl,seen_cleanup] at hseen
    obtain ⟨hok,hback⟩ := restoreOutput_spend (hv txin.prevout.hash) ho hseen
    have hsound : SoundUndo (undoRecord (v.entry txin.prevout.hash)
        ((v.entry txin.prevout.hash).spend txin.prevout.n) o) :=
      soundUndo_undoRecord (hv txin.prevout.hash) ho
    obtain ⟨s₂,hs₂,hview,hfound⟩ := restoreInput_ok R nHeight i txhash j
      (s := s₁) (u := undoRecord (v.entry txin.prevout.hash)
        ((v.entry txin.prevout.hash).spend txin.prevout.n) o) hok hback ho
    refine ⟨s₂,by rw [List.zip_cons_cons,restoreInputs,hs₁]; exact hs₂,?_,?_,hfound.trans hclean⟩
    · rw [hview]
      exact halike.undo fun _ => hback
    · rw [hview]
      exact hstored₁.modifyCoins _ (stored_restoreOutput hsound (hstored₁ _) hok)

/-- The burns that are imported are apart from the coins of the chain, and only the
first input of an import has the marker. -/
structure Apart (B : Set Uint256) (tx : CTransaction) : Prop where
  hash : tx.hash∉B
  burn : (tx.isCoinImport || tx.isPegsImport R.pegscc)=true → burnHash tx∈B
  inputs : ∀txin∈View.lookedUp R.pegscc tx,txin.prevout.hash∉B
  marker : spentInputs R.pegscc tx=View.lookedUp R.pegscc tx

theorem updateCoins_eq {pegscc : Bool} {tx : CTransaction} {nHeight : Int} {v v' : View Tree}
    {undo : CTxUndo} (h : updateCoins pegscc tx nHeight v=some (v',undo)) :
    ∃v₁ undos,spendInputs (spentInputs pegscc tx) v=some (v₁,undos) ∧
      v'=addOutputs pegscc tx nHeight v₁ ∧ undo=⟨undos⟩ := by
  unfold updateCoins at h
  split at h
  · cases h
  · rename_i v₁ undos hspend
    obtain ⟨rfl,rfl⟩ := Prod.mk.inj (Option.some.inj h)
    exact ⟨v₁,undos,hspend,rfl,rfl⟩

theorem undoneInputs_eq {tx : CTransaction} {undos : List CTxInUndo} (hmint : tx.isMint=false)
    (hlen : undos.length=(View.lookedUp R.pegscc tx).length) :
    undoneInputs R tx ⟨undos⟩=some (if tx.isPegsImport R.pegscc then 1 else 0,
      (View.lookedUp R.pegscc tx).zip undos) := by
  unfold undoneInputs View.lookedUp at *
  rw [hmint] at hlen ⊢
  cases hpegs : tx.isPegsImport R.pegscc with
  | false =>
    rw [hpegs] at hlen
    exact if_pos hlen
  | true =>
    rw [hpegs] at hlen
    have hvin : 0<tx.vin.length := by
      unfold CTransaction.isPegsImport at hpegs
      split at hpegs
      · cases hpegs
      · simp [*]
    have hlen' : undos.length+1=tx.vin.length := by
      simp only [Bool.false_eq_true,if_false,if_true,List.length_drop] at hlen
      omega
    exact if_pos hlen'

/-- The outputs of a transaction are recognised, and its nullifiers are free again. -/
theorem removeOutputs_addOutputs {nHeight : Int} {tx : CTransaction} {v w : View Tree}
    (hB : Apart R B tx) (htx : Storables tx) (hheight : 0<nHeight ∧ nHeight<2^31)
    (hfresh : (v.entry tx.hash).isPruned=true)
    (hnf : ∀nf∈tx.vShieldedSpend.map SpendDescription.nullifier,v.nullifiers nf=false)
    (hw : w.Alike B (addOutputs R.pegscc tx nHeight v)) (hstored : w.Stored) :
    (removeOutputs nHeight tx w).2=true ∧
      ((removeOutputs nHeight tx w).1.setNullifiers tx false).Alike B v ∧
      ((removeOutputs nHeight tx w).1.setNullifiers tx false).Stored := by
  have hadded : w.Alike B ((v.setNullifiers tx true).modifyCoins tx.hash
      fun _ => CCoins.fromTx tx nHeight) := by
    unfold addOutputs at hw
    dsimp only at hw
    split_ifs at hw with himport
    · exact hw.trans (View.alike_modifyCoins (hB.burn himport) _)
    · exact hw
  have hseen := hadded.coins tx.hash hB.hash
  rw [View.entry_modifyCoins,if_pos rfl,seen_cleanup] at hseen
  have hversion : ¬(CCoins.fromTx tx nHeight).nVersion<0 := by
    have := htx.version.1
    exact not_lt.mpr this
  refine ⟨?_,?_,?_⟩
  · dsimp only [removeOutputs]
    rw [if_neg hversion,clearUnspendable_eq_self (hstored tx.hash)]
    cases hpruned : (w.entry tx.hash).isPruned with
    | true =>
      rw [CCoins.same,← CCoins.isPruned_eq_of_seen hseen,hpruned]
      rfl
    | false =>
      rw [(hstored tx.hash).eq_of_seen (stored_fromTx htx hheight) hseen hpruned]
      simp [CCoins.same]
  · have hback : (w.modifyCoins tx.hash fun _ => CCoins.clear).Alike B (v.setNullifiers tx true) := by
      apply hadded.undo
      intro _
      rw [seen_of_pruned CCoins.isPruned_clear]
      exact (seen_of_pruned hfresh).symm
    refine ⟨hback.coins,?_⟩
    funext nf
    have hsame := congrFun hback.nullifiers nf
    simp only [View.setNullifiers,removeOutputs] at hsame ⊢
    rw [hsame]
    split_ifs with hmem
    · exact (hnf nf hmem).symm
    · rfl
  · exact hstored.clearCoins tx.hash

/-- One transaction is undone. -/
theorem disconnectTx_updateCoins {nHeight : Int} (i : Nat) {tx : CTransaction} {v v' : View Tree}
    {undo : CTxUndo} (h : updateCoins R.pegscc tx nHeight v=some (v',undo)) (hv : v.Stored)
    (hB : Apart R B tx) (htx : Storables tx) (hheight : 0<nHeight ∧ nHeight<2^31)
    (hfresh : (v.entry tx.hash).isPruned=true)
    (hnf : ∀nf∈tx.vShieldedSpend.map SpendDescription.nullifier,v.nullifiers nf=false)
    {s : DisconnectState Tree} (hs : s.view.Alike B v') (hstored : s.view.Stored) :
    ∃s',disconnectTx R nHeight i tx undo s=some s' ∧ s'.view.Alike B v ∧ s'.view.Stored ∧
      s'.fClean=s.fClean := by
  obtain ⟨v₁,undos,hspend,rfl,rfl⟩ := updateCoins_eq h
  have hframe := spendInputs_frame hspend
  obtain ⟨hok,halike,hst⟩ := removeOutputs_addOutputs R hB htx hheight
    (spendInputs_pruned hspend hfresh) (by rw [hframe.1]; exact hnf) hs hstored
  unfold disconnectTx undoInputs
  dsimp only
  rw [hok,Bool.and_true]
  cases hmint : tx.isMint with
  | false =>
    rw [hB.marker] at hspend
    rw [if_pos rfl,undoneInputs_eq R hmint (spendInputs_length hspend)]
    exact restoreInputs_spendInputs R hspend hv hB.inputs nHeight i tx.hash _ halike hst
  | true =>
    have hnone : v₁=v := by
      rw [spentInputs,if_pos hmint] at hspend
      exact (Prod.mk.inj (Option.some.inj hspend)).1.symm
    rw [if_neg (by decide)]
    subst hnone
    split_ifs with himport
    · have hremoved := View.alike_modifyCoins (v := View.setNullifiers tx false
        (removeOutputs nHeight tx s.view).1) (hB.burn himport) fun _ => CCoins.clear
      refine ⟨_,rfl,hremoved.trans halike,?_,rfl⟩
      exact hst.clearCoins (burnHash tx)
    · exact ⟨_,rfl,halike,hst,rfl⟩

/-- What the undo data rely on in a transaction of a block. -/
structure Undoable (B : Set Uint256) (tx : CTransaction) : Prop where
  checked : Checked R.toTxRules tx
  version : tx.nVersion<2^31
  apart : Apart R B tx

section Step

variable {nHeight : Int} {i : Nat} {tx : CTransaction} {s s' : ConnectState Tree} {valueout : Int}
  {undo : CTxUndo}

theorem TxConnected.storables (h : TxConnected R nHeight i tx s s' valueout undo)
    (hchecked : Checked R.toTxRules tx) (hversion : tx.nVersion<2^31) : Storables tx := by
  have hlow := hchecked.version
  refine ⟨⟨by omega,hversion⟩,?_⟩
  intro o ho
  obtain ⟨hvalue,hbig⟩ := h.valueOut
  refine ⟨(hchecked.vout o ho).1,?_⟩
  have hmem : o.nValue∈tx.vout.map CTxOut.nValue++
      (if tx.valueBalance≤0 then [-tx.valueBalance] else [])++
      tx.vjoinsplit.map JSDescription.vpubOld := by
    simp only [List.mem_append,List.mem_map]
    exact .inl (.inl ⟨o,ho,rfl⟩)
  have hsum := CTransaction.sumInRange_eq hvalue
  have hle := List.single_le_sum (fun x hx => (CTransaction.sumInRange_mem hvalue x hx).1) _ hmem
  unfold COIN at hbig
  omega

theorem stored_addImportTombstone {v : View Tree} (hv : v.Stored) (tx : CTransaction)
    (hheight : 0<nHeight ∧ nHeight<2^31) : (addImportTombstone tx nHeight v).Stored := by
  apply hv.modifyCoins
  apply stored_cleanup
  · intro o ho
    rcases List.mem_append.mp ho with ho | ho
    · exact (hv (burnHash tx)).outputs o ho
    · rw [List.mem_singleton.mp ho]
      exact .inr ⟨⟨by decide,by decide⟩,by decide⟩
  · exact fun _ => hheight
  · exact fun _ => by simp

theorem TxConnected.stored (h : TxConnected R nHeight i tx s s' valueout undo)
    (hchecked : Checked R.toTxRules tx) (hversion : tx.nVersion<2^31)
    (hheight : 0<nHeight ∧ nHeight<2^31) (hv : s.view.Stored) :
    s'.view.Stored ∧ ∀u∈undo.vprevout,SoundUndo u := by
  obtain ⟨v₁,undos,hspend,hview,rfl⟩ := updateCoins_eq h.coins
  obtain ⟨hv₁,hsound⟩ := spendInputs_stored hspend hv
  refine ⟨?_,hsound⟩
  have hfrom := stored_fromTx (h.storables R hchecked hversion) hheight
  have hadded : ((v₁.setNullifiers tx true).modifyCoins tx.hash
      fun _ => CCoins.fromTx tx nHeight).Stored := by
    have hnf : (v₁.setNullifiers tx true).Stored := hv₁
    apply hnf.modifyCoins
    rwa [hfrom.trimmed]
  rw [hview]
  unfold addOutputs
  dsimp only
  split_ifs
  · exact stored_addImportTombstone hadded tx hheight
  · exact hadded

theorem TxConnected.length (h : TxConnected R nHeight i tx s s' valueout undo)
    (hchecked : Checked R.toTxRules tx) : undo.vprevout.length≤MAX_TX_SIZE_AFTER_SAPLING := by
  obtain ⟨v₁,undos,hspend,-,rfl⟩ := updateCoins_eq h.coins
  have hlen := spendInputs_length hspend
  have hspent : (spentInputs R.pegscc tx).length≤tx.vin.length := by
    unfold spentInputs
    split_ifs
    · simp
    · exact List.length_filter_le ..
  have hvin := hchecked.vin
  dsimp only
  omega

/-- Other transactions that have no entry still have none. -/
theorem TxConnected.pruned (h : TxConnected R nHeight i tx s s' valueout undo)
    (hB : Apart R B tx) {t : Uint256} (ht : t≠tx.hash) (htB : t∉B)
    (hpruned : (s.view.entry t).isPruned=true) : (s'.view.entry t).isPruned=true := by
  obtain ⟨v₁,undos,hspend,hview,-⟩ := updateCoins_eq h.coins
  have hv₁ := spendInputs_pruned hspend hpruned
  rw [hview]
  unfold addOutputs
  dsimp only
  split_ifs with himport
  · rw [addImportTombstone,View.entry_modifyCoins,if_neg,View.entry_modifyCoins,if_neg ht]
    · exact hv₁
    · rintro rfl
      exact htB (hB.burn himport)
  · rw [View.entry_modifyCoins,if_neg ht]
    exact hv₁

theorem TxConnected.undone (h : TxConnected R nHeight i tx s s' valueout undo)
    (htx : Undoable R B tx) (hheight : 0<nHeight ∧ nHeight<2^31) (hv : s.view.Stored)
    (hfresh : (s.view.entry tx.hash).isPruned=true) {d : DisconnectState Tree}
    (hd : d.view.Alike B s'.view) (hstored : d.view.Stored) :
    ∃d',disconnectTx R nHeight i tx undo d=some d' ∧ d'.view.Alike B s.view ∧ d'.view.Stored ∧
      d'.fClean=d.fClean := by
  have hnf : ∀nf∈tx.vShieldedSpend.map SpendDescription.nullifier,s.view.nullifiers nf=false := by
    cases hmint : tx.isMint with
    | true =>
      rw [(htx.checked.mint hmint).2.1]
      simp
    | false =>
      have hreq := h.shielded hmint
      intro nf hmem
      obtain ⟨spend,hspend,rfl⟩ := List.mem_map.mp hmem
      have hone := (List.all_eq_true.mp hreq) spend hspend
      rw [Bool.and_eq_true] at hone
      simpa using hone.1
  exact disconnectTx_updateCoins R i h.coins hv htx.apart
    (h.storables R htx.checked htx.version) hheight hfresh hnf hd hstored

end Step

/-- Records are sound and not longer than their transaction. -/
def SoundRecord (t : CTxUndo) : Prop :=
  t.vprevout.length≤MAX_TX_SIZE_AFTER_SAPLING ∧ ∀u∈t.vprevout,SoundUndo u

theorem TxsConnected.stored {nHeight : Int} {i : Nat} {txs : List CTransaction}
    {undos : List CTxUndo} {s s' : ConnectState Tree}
    (h : TxsConnected R nHeight i txs undos s s') (hchecked : ∀tx∈txs,Checked R.toTxRules tx)
    (hversion : ∀tx∈txs,tx.nVersion<2^31) (hheight : 0<nHeight ∧ nHeight<2^31)
    (hv : s.view.Stored) : s'.view.Stored ∧ ∀t∈undos,SoundRecord t := by
  induction h with
  | nil i s => exact ⟨hv,by simp⟩
  | @cons i tx txs undo undos s s₁ s' valueout htx hrest ih =>
    obtain ⟨hv₁,hsound⟩ := htx.stored R (hchecked tx (by simp)) (hversion tx (by simp)) hheight hv
    obtain ⟨hv',hrecords⟩ := ih (fun t ht => hchecked t (by simp [ht]))
      (fun t ht => hversion t (by simp [ht])) hv₁
    refine ⟨hv',?_⟩
    intro t ht
    rcases List.mem_cons.mp ht with rfl | ht
    · exact ⟨htx.length R (hchecked tx (by simp)),hsound⟩
    · exact hrecords t ht

/-- The transactions of a block are undone from the last one to the first. -/
theorem TxsConnected.undone {nHeight : Int} {i : Nat} {txs : List CTransaction}
    {undos : List CTxUndo} {s s' : ConnectState Tree}
    (h : TxsConnected R nHeight i txs undos s s') (htxs : ∀tx∈txs,Undoable R B tx)
    (hheight : 0<nHeight ∧ nHeight<2^31) (hnodup : (txs.map CTransaction.hash).Nodup)
    (hv : s.view.Stored) (hfresh : ∀tx∈txs,(s.view.entry tx.hash).isPruned=true)
    {d : DisconnectState Tree} (hd : d.view.Alike B s'.view) (hstored : d.view.Stored) :
    ∃d',disconnectTxs R nHeight i (txs.zip undos) d=some d' ∧ d'.view.Alike B s.view ∧
      d'.view.Stored ∧ d'.fClean=d.fClean := by
  induction h with
  | nil i s => exact ⟨d,rfl,hd,hstored,rfl⟩
  | @cons i tx txs undo undos s s₁ s' valueout htx hrest ih =>
    have hok := htxs tx (by simp)
    rw [List.map_cons,List.nodup_cons] at hnodup
    have hfresh₁ : ∀tx'∈txs,(s₁.view.entry tx'.hash).isPruned=true := by
      intro tx' hin
      apply htx.pruned R hok.apart ?_ (htxs tx' (by simp [hin])).apart.hash
        (hfresh tx' (by simp [hin]))
      intro heq
      exact hnodup.1 (heq ▸ List.mem_map_of_mem hin)
    obtain ⟨d₁,hd₁,halike,hst,hclean⟩ := ih (fun tx' hin => htxs tx' (by simp [hin])) hnodup.2
      (htx.stored R hok.checked hok.version hheight hv).1 hfresh₁ hd
    obtain ⟨d₂,hd₂,halike₂,hst₂,hclean₂⟩ := htx.undone R hok hheight hv (hfresh tx (by simp))
      halike hst
    refine ⟨d₂,?_,halike₂,hst₂,hclean₂.trans hclean⟩
    rw [List.zip_cons_cons,disconnectTxs,hd₁]
    exact hd₂

section Frame

theorem updateCoins_sameTip {pegscc : Bool} {tx : CTransaction} {nHeight : Int} {v v' : View Tree}
    {undo : CTxUndo} (h : updateCoins pegscc tx nHeight v=some (v',undo)) : v'.SameTip v := by
  obtain ⟨v₁,undos,hspend,rfl,-⟩ := updateCoins_eq h
  have htip := (spendInputs_frame hspend).2
  unfold addOutputs
  dsimp only
  split_ifs
  · exact ⟨htip.anchors,htip.bestSaplingAnchor,htip.bestSproutAnchor,htip.bestBlock⟩
  · exact ⟨htip.anchors,htip.bestSaplingAnchor,htip.bestSproutAnchor,htip.bestBlock⟩

theorem TxsConnected.sameTip {nHeight : Int} {i : Nat} {txs : List CTransaction}
    {undos : List CTxUndo} {s s' : ConnectState Tree}
    (h : TxsConnected R nHeight i txs undos s s') : s'.view.SameTip s.view := by
  induction h with
  | nil i s => exact .refl s.view
  | cons htx hrest ih => exact ih.trans (updateCoins_sameTip htx.coins)

theorem restoreInputs_sameTip {nHeight : Int} {i : Nat} {txhash : Uint256} {j : Nat}
    {l : List (CTxIn × CTxInUndo)} {s s' : DisconnectState Tree}
    (h : restoreInputs R nHeight i txhash j l s=some s') : s'.view.SameTip s.view := by
  induction l generalizing j s' with
  | nil =>
    obtain rfl := Option.some.inj h
    exact .refl s.view
  | cons x l ih =>
    rw [restoreInputs,Option.bind_eq_some_iff] at h
    obtain ⟨s₁,h₁,h⟩ := h
    have htip := ih h₁
    unfold restoreInput at h
    dsimp only at h
    split_ifs at h
    obtain rfl := Option.some.inj h
    exact ⟨htip.anchors,htip.bestSaplingAnchor,htip.bestSproutAnchor,htip.bestBlock⟩

theorem disconnectTx_sameTip {nHeight : Int} {i : Nat} {tx : CTransaction} {undo : CTxUndo}
    {s s' : DisconnectState Tree} (h : disconnectTx R nHeight i tx undo s=some s') :
    s'.view.SameTip s.view := by
  unfold disconnectTx undoInputs at h
  dsimp only at h
  split_ifs at h
  · split at h
    · cases h
    · have htip := restoreInputs_sameTip R h
      exact ⟨htip.anchors,htip.bestSaplingAnchor,htip.bestSproutAnchor,htip.bestBlock⟩
  · obtain rfl := Option.some.inj h
    exact ⟨rfl,rfl,rfl,rfl⟩
  · obtain rfl := Option.some.inj h
    exact ⟨rfl,rfl,rfl,rfl⟩

theorem disconnectTxs_sameTip {nHeight : Int} {i : Nat} {l : List (CTransaction × CTxUndo)}
    {s s' : DisconnectState Tree} (h : disconnectTxs R nHeight i l s=some s') :
    s'.view.SameTip s.view := by
  induction l generalizing i s' with
  | nil =>
    obtain rfl := Option.some.inj h
    exact .refl s.view
  | cons x l ih =>
    rw [disconnectTxs,Option.bind_eq_some_iff] at h
    obtain ⟨s₁,h₁,h⟩ := h
    exact (disconnectTx_sameTip R h).trans (ih h₁)

theorem appendCommitments_append (T : TreeOps Tree) (l m : List OutputDescription) (tree : Tree) :
    appendCommitments T (l++m) tree=
      (appendCommitments T l tree).bind (appendCommitments T m) := by
  induction l generalizing tree with
  | nil => rfl
  | cons output l ih =>
    simp only [List.cons_append,appendCommitments]
    cases T.append tree output.cm with
    | none => rfl
    | some tree' => exact ih tree'

theorem TxsConnected.tree {nHeight : Int} {i : Nat} {txs : List CTransaction}
    {undos : List CTxUndo} {s s' : ConnectState Tree}
    (h : TxsConnected R nHeight i txs undos s s') :
    appendCommitments R.trees (txs.flatMap CTransaction.vShieldedOutput) s.saplingTree=
      some s'.saplingTree := by
  induction h with
  | nil i s => rfl
  | cons htx hrest ih =>
    rw [List.flatMap_cons,appendCommitments_append,htx.tree]
    exact ih

end Frame

section Block

/-- The view at a block of the chain: its best Sapling anchor is the final root of the
block, or the empty root before Sapling. -/
structure AtBlock (pindex : CBlockIndex) (v : View Tree) : Prop where
  stored : v.Stored
  anchor : v.bestSaplingAnchor=parentAnchor R pindex

/-- The root that a block leads to is the current one, or not among the anchors: trees
of different sizes have different roots. -/
def FreshRoot (block : CBlock) (v : View Tree) : Prop :=
  ∀tree tree',v.anchors v.bestSaplingAnchor=some tree →
    appendCommitments R.trees (block.vtx.flatMap CTransaction.vShieldedOutput) tree=some tree' →
    R.trees.root tree'=v.bestSaplingAnchor ∨ v.anchors (R.trees.root tree')=none

theorem View.SameTip.pushAnchor {v w : View Tree} (h : v.SameTip w) (T : TreeOps Tree)
    (tree : Tree) : (v.pushAnchor T tree).SameTip (w.pushAnchor T tree) := by
  unfold View.pushAnchor
  rw [h.bestSaplingAnchor]
  split_ifs
  · exact h
  · refine ⟨?_,rfl,h.bestSproutAnchor,h.bestBlock⟩
    dsimp only
    rw [h.anchors]

variable {R} in
theorem entry_finishBlock (block : CBlock) (v : View Tree) (cs : ConnectState Tree) (t : Uint256) :
    (finishBlock R block v cs).view.entry t=cs.view.entry t := by
  dsimp only [finishBlock,View.pushAnchor]
  split_ifs <;> rfl

variable {R} in
theorem nullifiers_finishBlock (block : CBlock) (v : View Tree) (cs : ConnectState Tree) :
    (finishBlock R block v cs).view.nullifiers=cs.view.nullifiers := by
  dsimp only [finishBlock,View.pushAnchor]
  split_ifs <;> rfl

theorem popAnchor_pushAnchor {T : TreeOps Tree} {v : View Tree} {tree : Tree}
    (h : T.root tree=v.bestSaplingAnchor ∨ v.anchors (T.root tree)=none) {w : View Tree}
    (hanchors : w.anchors=(v.pushAnchor T tree).anchors)
    (hbest : w.bestSaplingAnchor=(v.pushAnchor T tree).bestSaplingAnchor) :
    ∃w',w.popAnchor v.bestSaplingAnchor=some w' ∧ w'.anchors=v.anchors ∧
      w'.bestSaplingAnchor=v.bestSaplingAnchor ∧ w'.coins=w.coins ∧ w'.nullifiers=w.nullifiers ∧
      w'.bestSproutAnchor=w.bestSproutAnchor := by
  unfold View.pushAnchor at hanchors hbest
  by_cases hsame : v.bestSaplingAnchor=T.root tree
  · rw [if_pos hsame] at hanchors hbest
    exact ⟨w,if_pos hbest,hanchors,hbest,rfl,rfl,rfl⟩
  · rw [if_neg hsame] at hanchors hbest
    dsimp only at hanchors hbest
    have hnone := h.resolve_left (Ne.symm hsame)
    have hne : w.bestSaplingAnchor≠v.bestSaplingAnchor := by
      rw [hbest]
      exact Ne.symm hsame
    have hfound : w.anchors w.bestSaplingAnchor=some tree := by
      rw [hanchors,hbest,Function.update_self]
    refine ⟨{w with
      anchors := Function.update w.anchors w.bestSaplingAnchor none
      bestSaplingAnchor := v.bestSaplingAnchor},?_,?_,rfl,rfl,rfl,rfl⟩
    · rw [View.popAnchor,if_neg hne,hfound]
    · dsimp only
      rw [hanchors,hbest,Function.update_idem,← hnone,Function.update_eq_self]

variable {p : CBlockIndex} {block : CBlock} {v : View Tree} {a : Connected Tree}
  {undo : CBlockUndo}

theorem connectBlock_undo (h : connectBlock R (some p) block v=.ok a)
    (hgenesis : block.hash≠R.hashGenesisBlock) : ∃undo,a.undo=some undo := by
  obtain ⟨-,-,notarypay,-,⟨heq,-⟩ | ⟨-,hconn⟩⟩ := connectBlock_ok R h
  · exact absurd heq hgenesis
  · obtain ⟨-,tree,s,-,rfl⟩ := connectTransactions_ok R hconn
    exact ⟨_,rfl⟩

/-- The loop of an accepted block with its undo records. -/
theorem connectBlock_trace (h : connectBlock R (some p) block v=.ok a) (hundo : a.undo=some undo) :
    BlockChecked R block ∧ p.hashBlock=v.bestBlock ∧
      ∃tree s coinbase txs undos,v.anchors v.bestSaplingAnchor=some tree ∧
        block.vtx=coinbase::txs ∧ coinbase.isMint=true ∧
        (∀tx∈block.vtx,(v.entry tx.hash).isPruned=true) ∧
        TxsConnected R (p.nHeight+1) 0 block.vtx (⟨[]⟩::undos)
          ⟨v,0,0,tree,[],IndexDelta.empty⟩ s ∧
        undo=⟨undos,v.bestSproutAnchor⟩ ∧ a=finishBlock R block v s := by
  obtain ⟨hchecked,hbest,notarypay,-,⟨-,rfl⟩ | ⟨-,hconn⟩⟩ := connectBlock_ok R h
  · cases hundo
  obtain ⟨-,tree,s,hblock,rfl⟩ := connectTransactions_ok R hconn
  obtain ⟨coinbase,txs,hvtx,hcb,-⟩ := hchecked.coinbase
  have hmint : coinbase.isMint=true := by simp [CTransaction.isMint,hcb]
  refine ⟨hchecked,hbest,tree,s,coinbase,txs,?_⟩
  obtain ⟨undos,htrace⟩ := connectTxs_ok R hblock.txs
  have hfresh := hblock.fresh
  rw [hvtx] at htrace hfresh ⊢
  cases htrace with
  | @cons _ _ _ undo₀ undos _ s₁ _ _ htx hrest =>
    obtain ⟨v₁,records,hspend,-,rfl⟩ := updateCoins_eq htx.coins
    rw [spentInputs,if_pos hmint] at hspend
    obtain ⟨-,rfl⟩ := Prod.mk.inj (Option.some.inj hspend)
    have hvtxundo : s.vtxundo=undos := by
      rw [hrest.vtxundo R (by decide),htx.vtxundo]
      rfl
    refine ⟨undos,hblock.anchor,rfl,hmint,hfresh,.cons htx hrest,?_,rfl⟩
    rw [← hvtxundo]
    exact (Option.some.inj hundo).symm

/-- A block that was connected can be taken back from any view that looks like the
result. -/
theorem disconnectBlock_connectBlock (h : connectBlock R (some p) block v=.ok a)
    (hundo : a.undo=some undo) (hv : AtBlock R p v) (hheight : 0≤p.nHeight ∧ p.nHeight+1<2^31)
    (htxs : ∀tx∈block.vtx,tx.nVersion<2^31 ∧ Apart R B tx)
    (hnodup : (block.vtx.map CTransaction.hash).Nodup) (hroot : FreshRoot R block v)
    {w : View Tree} (hw : w.Alike B a.view) (htip : w.SameTip a.view) (hstored : w.Stored) :
    ∃d,disconnectBlock R p block undo w=some d ∧ d.fClean=true ∧ d.view.Alike B v ∧
      d.view.SameTip v ∧ d.view.Stored := by
  obtain ⟨hchecked,hbest,tree,s,coinbase,txs,undos,hanchor,hvtx,-,hfresh,htrace,rfl,rfl⟩ :=
    connectBlock_trace R h hundo
  have hundoable : ∀tx∈block.vtx,Undoable R B tx :=
    fun tx htx => ⟨hchecked.txs tx htx,(htxs tx htx).1,(htxs tx htx).2⟩
  have hlen : (⟨[]⟩::undos : List CTxUndo).length=block.vtx.length := htrace.length R
  have hview : w.Alike B s.view := by
    refine hw.trans ⟨?_,nullifiers_finishBlock block v s⟩
    intro t _
    rw [entry_finishBlock]
  obtain ⟨d,hd,halike,hst,hclean⟩ := htrace.undone R hundoable (by omega) hnodup hv.stored hfresh
    (d := ⟨w,true,IndexDelta.empty⟩) hview hstored
  have hdtip := disconnectTxs_sameTip R hd
  have hstip := htrace.sameTip R
  have htree := hroot tree s.saplingTree hanchor (htrace.tree R)
  have hpush := hstip.pushAnchor R.trees s.saplingTree
  have hsprout : d.view.bestSproutAnchor=w.bestSproutAnchor := hdtip.bestSproutAnchor
  obtain ⟨d',hpop,hanchors,hsapling,hcoins,hnf,hold⟩ := popAnchor_pushAnchor htree
    (w := d.view.popSproutAnchor v.bestSproutAnchor)
    (hdtip.anchors.trans (htip.anchors.trans hpush.anchors))
    (hdtip.bestSaplingAnchor.trans (htip.bestSaplingAnchor.trans hpush.bestSaplingAnchor))
  have hhash : block.hash=w.bestBlock := htip.bestBlock.symm
  have hentry : ∀t,({d' with bestBlock := p.hashBlock} : View Tree).entry t=d.view.entry t := by
    intro t
    unfold View.entry
    rw [hcoins]
    rfl
  refine ⟨{d with view := {d' with bestBlock := p.hashBlock}},?_,hclean,⟨?_,?_⟩,
    ⟨hanchors,hsapling,hold,hbest⟩,?_⟩
  · rw [disconnectBlock,if_pos ⟨hhash,hlen⟩,hd]
    dsimp only
    rw [← hv.anchor,hpop]
  · intro t ht
    rw [hentry]
    exact halike.coins t ht
  · exact hnf.trans halike.nullifiers
  · intro t
    rw [hentry]
    exact hst t

/-- The undo data of a block survive the file, and the new view can be stored. -/
theorem connectBlock_stored (h : connectBlock R (some p) block v=.ok a)
    (hundo : a.undo=some undo) (hv : v.Stored) (hheight : 0≤p.nHeight ∧ p.nHeight+1<2^31)
    (hversion : ∀tx∈block.vtx,tx.nVersion<2^31) :
    a.view.Stored ∧ undo.Storable ∧ ∀t∈undo.vtxundo,SoundRecord t := by
  obtain ⟨hchecked,-,tree,s,coinbase,txs,undos,-,hvtx,-,-,htrace,rfl,rfl⟩ :=
    connectBlock_trace R h hundo
  obtain ⟨hst,hsound⟩ := htrace.stored R hchecked.txs hversion (by omega) hv
  have hlen := htrace.length R
  have hmax := hchecked.length
  have hrecords : ∀t∈undos,SoundRecord t := fun t ht => hsound t (by simp [ht])
  refine ⟨?_,⟨?_,?_⟩,hrecords⟩
  · intro t
    rw [entry_finishBlock]
    exact hst t
  · rw [List.length_cons] at hlen
    have hsize : MAX_SIZE=33554432 := rfl
    dsimp only
    omega
  · intro t ht
    obtain ⟨hshort,hunits⟩ := hrecords t ht
    have hsize : MAX_TX_SIZE_AFTER_SAPLING≤MAX_SIZE := by decide
    exact ⟨hshort.trans hsize,fun u hu => (hunits u hu).storable⟩

end Block

end Zdeex.Block
