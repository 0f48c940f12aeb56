import Zdeex.Block.Reorg

namespace Zdeex.Block

open Zdeex.Framework
open Zdeex.Coins

variable {Tree : Type} (R : BlockRules Tree) {B : Set Uint256}

/-- Two views of one chain, which may keep different traces of what was spent. -/
structure Twins (B : Set Uint256) (v w : View Tree) : Prop where
  alike : v.Alike B w
  tip : v.SameTip w
  left : v.Stored
  right : w.Stored

theorem Twins.entry_eq {v w : View Tree} (h : Twins B v w) {prevout : COutPoint}
    (hB : prevout.hash∉B) (ha : (v.entry prevout.hash).isAvailable prevout.n=true) :
    v.entry prevout.hash=w.entry prevout.hash := by
  obtain ⟨o,ho⟩ := (CCoins.isAvailable_iff _ _).mp ha
  exact (h.left _).eq_of_seen (h.right _) (h.alike.coins _ hB) (CCoins.not_pruned_of_unspent ho)

/-- The entries that a transaction spends from are the same on both sides. -/
theorem Twins.inputs_eq {v w : View Tree} (h : Twins B v w) {tx : CTransaction}
    (hB : ∀txin∈View.lookedUp R.pegscc tx,txin.prevout.hash∉B)
    (hin : v.haveInputs R.pegscc tx=true) :
    ∀txin∈View.lookedUp R.pegscc tx,v.entry txin.prevout.hash=w.entry txin.prevout.hash := by
  intro txin hmem
  exact h.entry_eq (hB txin hmem) (List.all_eq_true.mp hin txin hmem)

section Reads

variable {v w : View Tree} {tx : CTransaction}
  (heq : ∀txin∈View.lookedUp R.pegscc tx,v.entry txin.prevout.hash=w.entry txin.prevout.hash)

include heq

theorem haveInputs_twin (hin : v.haveInputs R.pegscc tx=true) : w.haveInputs R.pegscc tx=true := by
  apply List.all_eq_true.mpr
  intro txin hmem
  rw [← heq txin hmem]
  exact List.all_eq_true.mp hin txin hmem

theorem spentOutputs_twin : spentOutputs R tx w=spentOutputs R tx v := by
  apply List.map_congr_left
  intro txin hmem
  unfold View.getOutputFor
  rw [heq txin hmem]

theorem getValueIn_twin : getValueIn R tx w=getValueIn R tx v := by
  unfold getValueIn
  rw [spentOutputs_twin R heq]

theorem tallyFees_twin (nFees valueout : Int) :
    tallyFees R nFees valueout tx w=tallyFees R nFees valueout tx v := by
  unfold tallyFees
  rw [getValueIn_twin R heq]

theorem spendDeltas_twin (nHeight : Int) (i : Nat) :
    spendDeltas R nHeight i tx w=spendDeltas R nHeight i tx v := by
  unfold spendDeltas
  congr 2
  apply List.map_congr_left
  intro input hmem
  have hin : input.1∈View.lookedUp R.pegscc tx := (List.mem_zipIdx hmem).2.2 ▸ List.getElem_mem _
  unfold View.getOutputFor
  rw [heq input.1 hin]

end Reads

theorem checkTxIns_twin {v w : View Tree} (nSpendHeight : Int) {l : List CTxIn}
    (heq : ∀txin∈l,v.entry txin.prevout.hash=w.entry txin.prevout.hash) (nValueIn : Int) :
    checkTxIns R nSpendHeight w l nValueIn=checkTxIns R nSpendHeight v l nValueIn := by
  induction l generalizing nValueIn with
  | nil => rfl
  | cons txin l ih =>
    have hone : ∀n,checkTxIn R nSpendHeight w txin.prevout n=
        checkTxIn R nSpendHeight v txin.prevout n := by
      intro n
      unfold checkTxIn View.getOutputFor
      rw [heq txin (by simp)]
    simp only [checkTxIns]
    rw [hone]
    congr 1
    funext n
    exact ih (fun t ht => heq t (by simp [ht])) n

theorem checkInView_twin {v w : View Tree} {tx : CTransaction} (h : Twins B v w)
    (hB : ∀txin∈View.lookedUp R.pegscc tx,txin.prevout.hash∉B)
    (hin : v.haveInputs R.pegscc tx=true) (nHeight : Int) :
    checkInView R nHeight tx w=checkInView R nHeight tx v := by
  have heq := h.inputs_eq R hB hin
  have hshielded : w.haveShieldedRequirements tx=v.haveShieldedRequirements tx := by
    unfold View.haveShieldedRequirements
    rw [h.alike.nullifiers,h.tip.anchors]
  unfold checkInView contextualCheckInputs checkSpends checkTxInputs
  rw [haveInputs_twin R heq hin,hin,hshielded,checkTxIns_twin R nHeight heq,spentOutputs_twin R heq]

theorem Alike.spendInputs_twin {l : List CTxIn} {v w v' : View Tree} {undos : List CTxInUndo}
    (hv : v.Stored) (hw : w.Stored) (h : v.Alike B w) (hB : ∀txin∈l,txin.prevout.hash∉B)
    (hspend : spendInputs l v=some (v',undos)) :
    ∃w',spendInputs l w=some (w',undos) ∧ v'.Alike B w' := by
  induction l generalizing v w undos with
  | nil =>
    obtain ⟨rfl,rfl⟩ := Prod.mk.inj (Option.some.inj hspend)
    exact ⟨w,rfl,h⟩
  | cons txin l ih =>
    obtain ⟨o,rest,ho,hrest,rfl⟩ := spendInputs_cons hspend
    have hentry := (hv txin.prevout.hash).eq_of_seen (hw _) (h.coins _ (hB txin (by simp)))
      (CCoins.not_pruned_of_unspent ho)
    have hstored : ∀u : View Tree,u.Stored →
        (u.modifyCoins txin.prevout.hash fun c => c.spend txin.prevout.n).Stored := by
      intro u hu
      have hc := (hu txin.prevout.hash).spend txin.prevout.n
      exact hu.modifyCoins _ (by rwa [hc.trimmed])
    have hnext : (v.modifyCoins txin.prevout.hash fun c => c.spend txin.prevout.n).Alike B
        (w.modifyCoins txin.prevout.hash fun c => c.spend txin.prevout.n) := by
      apply h.modifyCoins
      intro _
      rw [hentry]
    obtain ⟨w',hw',halike⟩ := ih (hstored v hv) (hstored w hw) hnext
      (fun t ht => hB t (by simp [ht])) hrest
    refine ⟨w',?_,halike⟩
    rw [hentry] at ho
    simp only [spendInputs,ho,hw',hentry]

theorem Alike.addOutputs_twin {v w : View Tree} (h : v.Alike B w) {tx : CTransaction}
    (hB : Apart R B tx) (nHeight : Int) :
    (addOutputs R.pegscc tx nHeight v).Alike B (addOutputs R.pegscc tx nHeight w) := by
  have hnf : (v.setNullifiers tx true).Alike B (w.setNullifiers tx true) := by
    refine ⟨h.coins,?_⟩
    unfold View.setNullifiers
    rw [h.nullifiers]
  have hadded : ((v.setNullifiers tx true).modifyCoins tx.hash
      fun _ => CCoins.fromTx tx nHeight).Alike B
        ((w.setNullifiers tx true).modifyCoins tx.hash fun _ => CCoins.fromTx tx nHeight) :=
    hnf.modifyCoins tx.hash fun _ => rfl
  unfold addOutputs
  dsimp only
  split_ifs with himport
  · exact (View.alike_modifyCoins (hB.burn himport) _).trans
      (hadded.trans (View.alike_modifyCoins (hB.burn himport) _).symm)
  · exact hadded

theorem updateCoins_twin {tx : CTransaction} {nHeight : Int} {v w v' : View Tree} {undo : CTxUndo}
    (h : Twins B v w) (hB : Apart R B tx)
    (hupdate : updateCoins R.pegscc tx nHeight v=some (v',undo)) :
    ∃w',updateCoins R.pegscc tx nHeight w=some (w',undo) ∧ v'.Alike B w' ∧ v'.SameTip w' := by
  obtain ⟨v₁,undos,hspend,hview,rfl⟩ := updateCoins_eq hupdate
  obtain ⟨w₁,hw₁,halike⟩ := Alike.spendInputs_twin h.left h.right h.alike
    (by rw [hB.marker]; exact hB.inputs) hspend
  have hw : updateCoins R.pegscc tx nHeight w=
      some (addOutputs R.pegscc tx nHeight w₁,⟨undos⟩) := by
    rw [updateCoins,hw₁]
  refine ⟨_,hw,?_,?_⟩
  · rw [hview]
    exact Alike.addOutputs_twin R halike hB nHeight
  · exact (updateCoins_sameTip hupdate).trans (h.tip.trans (updateCoins_sameTip hw).symm)

/-- Two states of the loop that only differ in their views. -/
structure TwinStates (B : Set Uint256) (s t : ConnectState Tree) : Prop where
  views : Twins B s.view t.view
  fees : s.nFees=t.nFees
  sigOps : s.nSigOps=t.nSigOps
  tree : s.saplingTree=t.saplingTree
  vtxundo : s.vtxundo=t.vtxundo
  delta : s.delta=t.delta

section Loop

variable {nHeight : Int} {i : Nat}

theorem connectTx_twin {tx : CTransaction} {s t s' : ConnectState Tree} (h : TwinStates B s t)
    (htx : Undoable R B tx) (hheight : 0<nHeight ∧ nHeight<2^31)
    (hs : connectTx R nHeight i tx s=.ok s') :
    ∃t',connectTx R nHeight i tx t=.ok t' ∧ TwinStates B s' t' := by
  obtain ⟨valueout,undo,hconn⟩ := connectTx_ok R hs
  have heq := h.views.inputs_eq R htx.apart.inputs hconn.inputs
  obtain ⟨w',hw',halike,htip⟩ := updateCoins_twin R h.views htx.apart hconn.coins
  have hinputs := haveInputs_twin R heq hconn.inputs
  have hshielded : t.view.haveShieldedRequirements tx=s.view.haveShieldedRequirements tx := by
    unfold View.haveShieldedRequirements
    rw [h.views.alike.nullifiers,h.views.tip.anchors]
  simp only [connectTx,bind_ok,reject_ok,expect_ok] at hs
  obtain ⟨_,hsig,_,-,_,hreq,_,hsig',valueout',hvalue,_,hbig,nFees,hfees,_,hchecks,
    ⟨view,undo'⟩,hcoins,saplingTree,htree,hs⟩ := hs
  obtain rfl := Except.ok.inj hs
  obtain rfl : undo'=undo := (Prod.mk.inj (Option.some.inj (hcoins.symm.trans hconn.coins))).2
  have ht : connectTx R nHeight i tx t=.ok {
      view := w'
      nFees := nFees
      nSigOps := s.nSigOps+R.legacySigOps tx+
        (if tx.isMint then 0 else R.p2shSigOps tx (spentOutputs R tx s.view))
      saplingTree := saplingTree
      vtxundo := s.vtxundo++(if 0 < i then [undo'] else [])
      delta := s.delta.append
        ((spendDeltas R nHeight i tx s.view).append (receiveDeltas R nHeight i tx))} := by
    simp only [connectTx,bind_ok,reject_ok,expect_ok]
    rw [hshielded,spentOutputs_twin R heq,← h.sigOps,← h.fees,← h.tree,← h.vtxundo,← h.delta,
      spendDeltas_twin R heq]
    refine ⟨(),hsig,(),by simp [hinputs],(),hreq,(),hsig',valueout',hvalue,(),hbig,nFees,?_,(),?_,
      (w',undo'),hw',saplingTree,htree,rfl⟩
    · rw [tallyFees_twin R heq]
      exact hfees
    · rw [checkInView_twin R h.views htx.apart.inputs hconn.inputs]
      exact hchecks
  obtain ⟨_,_,htconn⟩ := connectTx_ok R ht
  have hleft := hconn.stored R htx.checked htx.version hheight h.views.left
  have hright := htconn.stored R htx.checked htx.version hheight h.views.right
  exact ⟨_,ht,⟨halike,htip,hleft.1,hright.1⟩,rfl,rfl,rfl,rfl,rfl⟩

theorem connectTxs_twin {txs : List CTransaction} {s t s' : ConnectState Tree}
    (h : TwinStates B s t) (htxs : ∀tx∈txs,Undoable R B tx) (hheight : 0<nHeight ∧ nHeight<2^31)
    (hs : connectTxs R nHeight i txs s=.ok s') :
    ∃t',connectTxs R nHeight i txs t=.ok t' ∧ TwinStates B s' t' := by
  induction txs generalizing i s t with
  | nil =>
    obtain rfl := Except.ok.inj hs
    exact ⟨t,rfl,h⟩
  | cons tx txs ih =>
    rw [connectTxs,bind_ok] at hs
    obtain ⟨s₁,hs₁,hrest⟩ := hs
    obtain ⟨t₁,ht₁,h₁⟩ := connectTx_twin R h (htxs tx (by simp)) hheight hs₁
    obtain ⟨t',ht',h'⟩ := ih h₁ (fun tx' hin => htxs tx' (by simp [hin])) hrest
    refine ⟨t',?_,h'⟩
    rw [connectTxs,bind_ok]
    exact ⟨t₁,ht₁,ht'⟩

end Loop

/-- A block that is connected to one of two twin views can be connected to the other,
with the same undo data and index entries. -/
theorem connectBlock_twin {pprev : Option CBlockIndex} {block : CBlock} {v w : View Tree}
    {a : Connected Tree} (h : Twins B v w)
    (htxs : ∀tx∈block.vtx,tx.nVersion<2^31 ∧ Apart R B tx)
    (hheight : block.hash≠R.hashGenesisBlock → 0<childHeight pprev ∧ childHeight pprev<2^31)
    (ha : connectBlock R pprev block v=.ok a) :
    ∃c,connectBlock R pprev block w=.ok c ∧ c.undo=a.undo ∧ c.delta=a.delta ∧
      Twins B a.view c.view := by
  obtain ⟨hchecked,-,-⟩ := connectBlock_ok R ha
  simp only [connectBlock,bind_ok,reject_ok,not_not] at ha ⊢
  rw [← h.tip.bestBlock]
  obtain ⟨_,hstop,_,hcheck,_,hcontext,notarypay,hpay,_,hbest,ha⟩ := ha
  by_cases hgenesis : block.hash=R.hashGenesisBlock
  · rw [if_pos hgenesis] at ha
    obtain rfl := Except.ok.inj ha
    refine ⟨⟨{w with bestBlock := block.hash},none,IndexDelta.empty⟩,
      ⟨(),hstop,(),hcheck,(),hcontext,notarypay,hpay,(),hbest,if_pos hgenesis⟩,rfl,rfl,?_⟩
    exact ⟨⟨h.alike.coins,h.alike.nullifiers⟩,
      ⟨h.tip.anchors,h.tip.bestSaplingAnchor,h.tip.bestSproutAnchor,rfl⟩,h.left,h.right⟩
  rw [if_neg hgenesis] at ha
  have hundoable : ∀tx∈block.vtx,Undoable R B tx :=
    fun tx htx => ⟨hchecked.txs tx htx,(htxs tx htx).1,(htxs tx htx).2⟩
  simp only [connectTransactions,bind_ok,reject_ok,checkAll_ok,expect_ok] at ha
  obtain ⟨_,hprev,_,hfresh,tree,hanchor,s,hs,_,hroot,_,hcb,ha⟩ := ha
  obtain rfl := Except.ok.inj ha
  have hinit : TwinStates B (⟨v,0,0,tree,[],IndexDelta.empty⟩ : ConnectState Tree)
      ⟨w,0,0,tree,[],IndexDelta.empty⟩ := ⟨h,rfl,rfl,rfl,rfl,rfl⟩
  obtain ⟨t,ht,htwin⟩ := connectTxs_twin R hinit hundoable (hheight hgenesis) hs
  have hconn : connectTransactions R pprev block notarypay w=.ok (finishBlock R block w t) := by
    simp only [connectTransactions,bind_ok,reject_ok,checkAll_ok,expect_ok]
    rw [← h.tip.bestSaplingAnchor,← h.tip.anchors]
    refine ⟨(),hprev,(),?_,tree,hanchor,t,ht,(),?_,(),?_,rfl⟩
    · intro tx htx
      rw [← CCoins.isPruned_eq_of_seen (h.alike.coins tx.hash (htxs tx htx).2.hash)]
      exact hfresh tx htx
    · rw [← htwin.tree]
      exact hroot
    · rw [← htwin.fees]
      exact hcb
  refine ⟨finishBlock R block w t,
    ⟨(),hstop,(),hcheck,(),hcontext,notarypay,hpay,(),hbest,(if_neg hgenesis).trans hconn⟩,?_,
    htwin.delta.symm,?_⟩
  · dsimp only [finishBlock]
    rw [htwin.vtxundo,h.tip.bestSproutAnchor]
  · have hpush := htwin.views.tip.pushAnchor R.trees s.saplingTree
    rw [show s.saplingTree=t.saplingTree from htwin.tree] at hpush
    refine ⟨⟨?_,?_⟩,⟨?_,?_,?_,rfl⟩,?_,?_⟩
    · intro txid htxid
      refine (congrArg (fun c => seen (some c)) (entry_finishBlock block v s txid)).trans ?_
      rw [entry_finishBlock]
      exact htwin.views.alike.coins txid htxid
    · exact (nullifiers_finishBlock block v s).trans (htwin.views.alike.nullifiers.trans
        (nullifiers_finishBlock block w t).symm)
    · dsimp only [finishBlock]
      rw [htwin.tree]
      exact hpush.anchors
    · dsimp only [finishBlock]
      rw [htwin.tree]
      exact hpush.bestSaplingAnchor
    · dsimp only [finishBlock]
      rw [htwin.tree]
      exact hpush.bestSproutAnchor
    · intro txid
      have hleft := htwin.views.left txid
      rwa [← entry_finishBlock block v s txid] at hleft
    · intro txid
      rw [entry_finishBlock]
      exact htwin.views.right txid

end Zdeex.Block
