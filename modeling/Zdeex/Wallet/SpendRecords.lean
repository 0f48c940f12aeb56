import Zdeex.Wallet.DeleteTransactions

namespace Zdeex.Wallet

open Zdeex.Block
open Zdeex.Framework

section Entries

variable {w w' : CWallet} {wtxid : Uint256}

/-- Metadata is copied between entries, the maps of spends stay. -/
theorem syncMetaData_maps {range : List Uint256} (h : syncMetaData range w=some w') :
    w'.mapTxSpends=w.mapTxSpends ∧ w'.mapTxSaplingNullifiers=w.mapTxSaplingNullifiers := by
  unfold syncMetaData at h
  rcases hfrom : (findOldest range w.mapWallet INT_MAX none).2 with _ | copyFrom
  · simp [hfrom] at h
  · simp only [hfrom,Option.some.injEq] at h
    rw [← h]
    exact ⟨rfl,rfl⟩

theorem each_transparent (xs : List CTxIn)
    (h : each (fun txin => addToTransparentSpends txin.prevout wtxid) xs w=some w') :
    w'.mapTxSpends=w.mapTxSpends++xs.map (fun txin => (txin.prevout,wtxid)) ∧
      w'.mapTxSaplingNullifiers=w.mapTxSaplingNullifiers := by
  induction xs generalizing w with
  | nil =>
    obtain rfl := Option.some.inj h
    simp
  | cons txin xs ih =>
    obtain ⟨w₁,h₁,hrest⟩ := Option.bind_eq_some_iff.mp h
    obtain ⟨hspends,hnullifiers⟩ := ih hrest
    obtain ⟨hspends₁,hnullifiers₁⟩ := syncMetaData_maps h₁
    rw [hspends,hspends₁,List.append_assoc,hnullifiers,hnullifiers₁]
    exact ⟨rfl,rfl⟩

theorem each_sapling (xs : List SpendDescription)
    (h : each (fun spend => addToSaplingSpends spend.nullifier wtxid) xs w=some w') :
    w'.mapTxSpends=w.mapTxSpends ∧ w'.mapTxSaplingNullifiers=
      w.mapTxSaplingNullifiers++xs.map (fun spend => (spend.nullifier,wtxid)) := by
  induction xs generalizing w with
  | nil =>
    obtain rfl := Option.some.inj h
    simp
  | cons spend xs ih =>
    obtain ⟨w₁,h₁,hrest⟩ := Option.bind_eq_some_iff.mp h
    obtain ⟨hspends,hnullifiers⟩ := ih hrest
    obtain ⟨hspends₁,hnullifiers₁⟩ := syncMetaData_maps h₁
    rw [hspends,hspends₁,hnullifiers,hnullifiers₁,List.append_assoc]
    exact ⟨rfl,rfl⟩

/-- What `AddToSpends` records of a transaction. -/
theorem addToSpends_maps {thisTx : CWalletTx} (hthis : w.mapWallet wtxid=some thisTx)
    (h : addToSpends wtxid w=some w') :
    w'.mapTxSpends=w.mapTxSpends++(if thisTx.tx.isCoinBase=true then []
      else thisTx.tx.vin.map fun txin => (txin.prevout,wtxid)) ∧
    w'.mapTxSaplingNullifiers=w.mapTxSaplingNullifiers++(if thisTx.tx.isCoinBase=true then []
      else thisTx.tx.vShieldedSpend.map fun spend => (spend.nullifier,wtxid)) := by
  unfold addToSpends at h
  simp only [hthis] at h
  by_cases hcb : thisTx.tx.isCoinBase=true
  · rw [if_pos hcb] at h
    obtain rfl := Option.some.inj h
    simp [hcb]
  · rw [if_neg hcb] at h
    obtain ⟨w₁,hvin,hspend⟩ := Option.bind_eq_some_iff.mp h
    obtain ⟨hspends₁,hnullifiers₁⟩ := each_transparent _ hvin
    obtain ⟨hspends,hnullifiers⟩ := each_sapling _ hspend
    rw [if_neg hcb,if_neg hcb,hspends,hspends₁,hnullifiers,hnullifiers₁]
    exact ⟨rfl,rfl⟩

end Entries

section Records

variable {fFileBacked : Bool} {body : Uint256 → CTransaction} {w w' : CWallet}

/-- What the maps of spends say about the transactions of the wallet; `body` is what a hash
stands for, also of a transaction that was erased. -/
structure Recorded (body : Uint256 → CTransaction) (w : CWallet) : Prop where
  txs : ∀h wtx,w.mapWallet h=some wtx → wtx.tx=body h
  spends : ∀e∈w.mapTxSpends,∃txin∈(body e.2).vin,txin.prevout=e.1
  nullifiers : ∀e∈w.mapTxSaplingNullifiers,∃spend∈(body e.2).vShieldedSpend,spend.nullifier=e.1
  recorded : ∀h,(w.mapWallet h).isSome → (body h).isCoinBase=false → ∀txin∈(body h).vin,
    (txin.prevout,h)∈w.mapTxSpends

/-- An added transaction is the one that its hash stands for. -/
def Genuine (body : Uint256 → CTransaction) : Call → Prop
  | .load wtxIn => wtxIn.tx=body wtxIn.getHash
  | .live wtxIn _ _ => wtxIn.tx=body wtxIn.getHash
  | _ => True

theorem recorded_empty : Recorded body .empty :=
  ⟨fun _ _ h => by simp [CWallet.empty] at h,fun _ h => by simp [CWallet.empty] at h,
    fun _ h => by simp [CWallet.empty] at h,fun _ h => by simp [CWallet.empty] at h⟩

/-- The maps of spends are kept when transactions are erased. -/
theorem Recorded.erase (h : Recorded body w) (hash : Uint256) :
    Recorded body {w with mapWallet := Function.update w.mapWallet hash none} where
  txs k wtx hk := by
    by_cases heq : k=hash
    · simp [heq] at hk
    · exact h.txs k wtx (by simpa [Function.update_of_ne heq] using hk)
  spends := h.spends
  nullifiers := h.nullifiers
  recorded k hk := by
    by_cases heq : k=hash
    · simp [heq] at hk
    · exact h.recorded k (by simpa [Function.update_of_ne heq] using hk)

theorem Recorded.delete (h : Recorded body w) (removeTxs : List Uint256) :
    Recorded body (deleteTransactions removeTxs w) := by
  induction removeTxs generalizing w with
  | nil => exact h
  | cons hash removeTxs ih =>
    rw [deleteTransactions]
    split_ifs
    · exact ih (h.erase hash)
    · exact h

/-- A transaction of the wallet that takes over something of another copy of it. -/
theorem Recorded.merged (h : Recorded body w) {wtxIn wtx : CWalletTx} {hash : Uint256}
    (hold : w.mapWallet hash=some wtx) :
    Recorded body
      {w with mapWallet := Function.update w.mapWallet hash (some (merge wtxIn wtx))} where
  txs k wtx' hk := by
    by_cases heq : k=hash
    · subst heq
      simp only [Function.update_self,Option.some.injEq] at hk
      rw [← hk,tx_merge]
      exact h.txs k wtx hold
    · exact h.txs k wtx' (by simpa [Function.update_of_ne heq] using hk)
  spends := h.spends
  nullifiers := h.nullifiers
  recorded k hk := by
    by_cases heq : k=hash
    · exact h.recorded k (by simp [heq,hold])
    · exact h.recorded k (by simpa [Function.update_of_ne heq] using hk)

/-- A transaction is put into the map and its spends are recorded. -/
theorem Recorded.add (h : Recorded body w) (wtx : CWalletTx) (nOrderPosNext : Int)
    (hbody : wtx.tx=body wtx.getHash) (hpresent : SpendersPresent w wtx.tx)
    (hadd : addToSpends wtx.getHash
      {w with mapWallet := Function.update w.mapWallet wtx.getHash (some wtx),nOrderPosNext}=
        some w') : Recorded body w' := by
  have hsync := added_synced nOrderPosNext hpresent hadd
  obtain ⟨hspends,hnullifiers⟩ := addToSpends_maps (Function.update_self ..) hadd
  have hold : ∀k,k≠wtx.getHash → (w'.mapWallet k).map CWalletTx.tx=
      (w.mapWallet k).map CWalletTx.tx := by
    intro k hk
    rw [hsync.txs k]
    dsimp only
    rw [Function.update_of_ne hk]
  refine ⟨?_,?_,?_,?_⟩
  · intro k wtx' hk
    by_cases heq : k=wtx.getHash
    · subst heq
      have htx := hsync.txs wtx.getHash
      dsimp only at htx
      rw [hk,Function.update_self] at htx
      rw [← hbody]
      exact Option.some.inj htx
    · have htx := hold k heq
      rw [hk] at htx
      obtain ⟨old,hin,hsame⟩ := Option.map_eq_some_iff.mp htx.symm
      rw [← hsame]
      exact h.txs k old hin
  · intro e he
    rw [hspends] at he
    rcases List.mem_append.mp he with hin | hnew
    · exact h.spends e hin
    · split_ifs at hnew
      · cases hnew
      · obtain ⟨txin,htxin,rfl⟩ := List.mem_map.mp hnew
        rw [hbody] at htxin
        exact ⟨txin,htxin,rfl⟩
  · intro e he
    rw [hnullifiers] at he
    rcases List.mem_append.mp he with hin | hnew
    · exact h.nullifiers e hin
    · split_ifs at hnew
      · cases hnew
      · obtain ⟨spend,hspend,rfl⟩ := List.mem_map.mp hnew
        rw [hbody] at hspend
        exact ⟨spend,hspend,rfl⟩
  · intro k hk hcb txin htxin
    rw [hspends]
    by_cases heq : k=wtx.getHash
    · subst heq
      rw [← hbody] at hcb htxin
      apply List.mem_append_right
      rw [if_neg (by simp [hcb])]
      exact List.mem_map.mpr ⟨txin,htxin,rfl⟩
    · have hsome := congrArg Option.isSome (hold k heq)
      rw [Option.isSome_map,Option.isSome_map] at hsome
      exact List.mem_append_left _ (h.recorded k (hsome.symm.trans hk) hcb txin htxin)

theorem step_recorded (w : CWallet) (call : Call) (w' : CWallet)
    (hcall : NoErasedSpender w call ∧ Genuine body call) (h : Recorded body w)
    (hstep : step fFileBacked w call=some w') : Recorded body w' := by
  have hclear : Recorded body {w with copies := []} := ⟨h.txs,h.spends,h.nullifiers,h.recorded⟩
  obtain ⟨hpresent,hbody⟩ := hcall
  cases call with
  | load wtxIn => exact hclear.add wtxIn w.nOrderPosNext hbody hpresent hstep
  | live wtxIn now smartTime =>
    simp only [step,addLive] at hstep
    rcases hold : w.mapWallet wtxIn.getHash with _ | wtx
    · simp only [hold] at hstep
      exact hclear.add {wtxIn with
        nTimeReceived := now
        nOrderPos := w.nOrderPosNext
        data := {wtxIn.data with nTimeSmart := smartTime}} _ hbody (hpresent hold) hstep
    · simp only [hold,Option.some.injEq] at hstep
      rw [← hstep]
      exact hclear.merged hold
  | eraseFromWallet hash =>
    simp only [step,eraseFromWallet,Option.some.injEq] at hstep
    subst hstep
    split_ifs
    · exact hclear.erase hash
    · exact hclear
  | deleteTransactions removeTxs =>
    simp only [step,Option.some.injEq] at hstep
    subst hstep
    exact hclear.delete removeTxs

/-- Over every run of the wallet that brings no erased spender back. -/
theorem run_recorded {calls : List Call} (hrun : run (step fFileBacked) calls .empty=some w)
    (hspenders : Guarded (step fFileBacked) NoErasedSpender calls .empty)
    (hcalls : ∀call∈calls,Genuine body call) : Recorded body w :=
  run_keeps step_recorded hrun (hspenders.and hcalls) recorded_empty

/-- An erased transaction leaves its spends behind. -/
theorem laterErased_recorded : ∃w,run (step true) laterErased .empty=some w ∧
    Recorded (fun h => (spendOf h).tx) w ∧ w.mapWallet 2=none ∧ (⟨7,0⟩,2)∈w.mapTxSpends := by
  have hreturns : (run (step true) laterErased .empty).isSome=true := by decide +kernel
  have hspenders : Guarded (step true) NoErasedSpender laterErased .empty := by decide +kernel
  have herased : (run (step true) laterErased .empty).map (fun w => w.mapWallet 2)=some none := by
    decide +kernel
  have hspends : (run (step true) laterErased .empty).map CWallet.mapTxSpends=
      some [(⟨7,0⟩,1),(⟨7,0⟩,2)] := by decide +kernel
  obtain ⟨w,hw⟩ := Option.isSome_iff_exists.mp hreturns
  rw [hw] at herased hspends
  refine ⟨w,hw,run_recorded hw hspenders ?_,Option.some.inj herased,?_⟩
  · simp [laterErased,Genuine,spendOf,CWalletTx.getHash]
  · rw [Option.some.inj hspends]
    decide

end Records

namespace Positions.Deletion

variable {v : View} {body : Uint256 → CTransaction} {w : Wallet.CWallet}
  {u : SpendWallet}

/-- The transactions and the records of spends of the map, as the deletion reads them. -/
structure Shows (w : Wallet.CWallet) (u : SpendWallet) : Prop where
  txs : ∀tx∈u.mapWallet,∃wtx,w.mapWallet tx.hash=some wtx ∧ tx.isCoinBase=wtx.tx.isCoinBase ∧
    tx.vin=wtx.tx.vin.map CTxIn.prevout ∧
    tx.vShieldedSpend=wtx.tx.vShieldedSpend.map SpendDescription.nullifier
  mapTxSpends : u.mapTxSpends=w.mapTxSpends
  mapTxSaplingNullifiers : u.mapTxSaplingNullifiers=w.mapTxSaplingNullifiers

/-- What the nullifiers of the notes record, and what chain and mempool rule out. -/
structure ChainRules (v : View) (u : SpendWallet) : Prop where
  notes : ∀tx∈u.mapWallet,∀nd∈tx.mapSaplingNoteData,∀nullifier,nd.nullifier=some nullifier →
    u.mapSaplingNullifiersToNotes nullifier=some ⟨tx.hash,nd.n⟩
  coinBase : ∀tx∈u.mapWallet,tx.isCoinBase=true → ∀o∈tx.vin,∀parent∈u.mapWallet,
    parent.hash≠o.hash
  parents : ∀tx∈u.mapWallet,0≤v.depth tx.hash → ∀o∈tx.vin,∀parent∈u.mapWallet,
    parent.hash=o.hash → 0≤v.depth parent.hash
  single : ∀a∈u.mapWallet,∀b∈u.mapWallet,a.isCoinBase=false → b.isCoinBase=false →
    0≤v.depth a.hash → 0≤v.depth b.hash → ∀o∈a.vin,o∈b.vin → a=b

/-- The records of spends are those of the transactions that are there. -/
theorem consistent_of_recorded (h : Recorded body w) (hshows : Shows w u)
    (hrules : ChainRules v u) : Consistent v u where
  spends e he tx htx hhash := by
    obtain ⟨wtx,hin,-,hvin,-⟩ := hshows.txs tx htx
    rw [hshows.mapTxSpends] at he
    obtain ⟨txin,htxin,hprevout⟩ := h.spends e he
    rw [hvin,h.txs _ _ hin,hhash]
    exact List.mem_map.mpr ⟨txin,htxin,hprevout⟩
  recorded tx htx hcb o ho := by
    obtain ⟨wtx,hin,hcoinBase,hvin,-⟩ := hshows.txs tx htx
    rw [h.txs _ _ hin] at hcoinBase hvin
    rw [hvin] at ho
    obtain ⟨txin,htxin,rfl⟩ := List.mem_map.mp ho
    rw [hshows.mapTxSpends]
    exact h.recorded tx.hash (by simp [hin]) (hcoinBase.symm.trans hcb) txin htxin
  nullifiers e he tx htx hhash := by
    obtain ⟨wtx,hin,-,-,hspend⟩ := hshows.txs tx htx
    rw [hshows.mapTxSaplingNullifiers] at he
    obtain ⟨spend,hmem,hnullifier⟩ := h.nullifiers e he
    rw [hspend,h.txs _ _ hin,hhash]
    exact List.mem_map.mpr ⟨spend,hmem,hnullifier⟩
  notes := hrules.notes
  coinBase := hrules.coinBase
  parents := hrules.parents
  single := hrules.single

/-- A wallet that comes from a run of calls is consistent. -/
theorem consistent_after_run {fFileBacked : Bool} {calls : List Call}
    (hrun : run (step fFileBacked) calls .empty=some w)
    (hspenders : Guarded (step fFileBacked) NoErasedSpender calls .empty)
    (hcalls : ∀call∈calls,Genuine body call) (hshows : Shows w u) (hrules : ChainRules v u) :
    Consistent v u :=
  consistent_of_recorded (run_recorded hrun hspenders hcalls) hshows hrules

end Positions.Deletion

end Zdeex.Wallet
