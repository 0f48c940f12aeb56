import Mathlib.Algebra.BigOperators.Group.Finset.Basic
import Mathlib.Data.FinEnum
import Zdeex.Block.IndexRuns
import Zdeex.Block.SafeValues
import Zdeex.Block.UndoBlock

namespace Zdeex.Coins

open Zdeex.Block

/-- The value of an output, nothing when it is spent. -/
def CTxOut.amount (o : CTxOut) : Int := if o.isNull then 0 else o.nValue

theorem CTxOut.amount_of_not_null {o : CTxOut} (h : o.isNull=false) : o.amount=o.nValue := by
  rw [amount,h,if_neg (by decide)]

namespace CCoins

/-- The value of what is unspent of a transaction. -/
def unspentValue (c : CCoins) : Int := (c.vout.map CTxOut.amount).sum

/-- No output is worth less than nothing. -/
def Solvent (c : CCoins) : Prop := ∀o∈c.vout,0≤o.amount

theorem amount_rdropWhile (l : List CTxOut) :
    ((l.rdropWhile CTxOut.isNull).map CTxOut.amount).sum=(l.map CTxOut.amount).sum := by
  induction l using List.reverseRecOn with
  | nil => rfl
  | append_singleton l o ih =>
    rw [List.rdropWhile_concat]
    split_ifs with hnull
    · have hzero : o.amount=0 := if_pos hnull
      rw [ih,List.map_append,List.sum_append,List.map_singleton,List.sum_singleton,hzero,add_zero]
    · rfl

@[simp] theorem unspentValue_cleanup (c : CCoins) : c.cleanup.unspentValue=c.unspentValue :=
  amount_rdropWhile c.vout

theorem Solvent.cleanup {c : CCoins} (h : c.Solvent) : c.cleanup.Solvent :=
  fun o ho => h o ((List.rdropWhile_prefix CTxOut.isNull c.vout).subset ho)

theorem Solvent.unspentValue {c : CCoins} (h : c.Solvent) : 0 ≤ c.unspentValue := by
  apply List.sum_nonneg
  intro x hx
  obtain ⟨o,ho,rfl⟩ := List.mem_map.mp hx
  exact h o ho

theorem unspentValue_of_pruned {c : CCoins} (h : c.isPruned=true) : c.unspentValue=0 := by
  apply List.sum_eq_zero
  intro x hx
  obtain ⟨o,ho,rfl⟩ := List.mem_map.mp hx
  exact if_pos (List.all_eq_true.mp h o ho)

theorem solvent_of_pruned {c : CCoins} (h : c.isPruned=true) : c.Solvent := by
  intro o ho
  rw [CTxOut.amount,if_pos (List.all_eq_true.mp h o ho)]

theorem unspentValue_spend {c : CCoins} {n : Nat} {o : CTxOut} (ho : c.unspentOutput n=some o) :
    (c.spend n).unspentValue+o.nValue=c.unspentValue := by
  rw [unspentOutput_eq_filter,Option.filter_eq_some_iff] at ho
  obtain ⟨hget,hnull⟩ := ho
  obtain ⟨hlen,rfl⟩ := List.getElem?_eq_some_iff.mp hget
  rw [Bool.not_eq_true'] at hnull
  rw [spend,unspentValue_cleanup,unspentValue,unspentValue,← CTxOut.amount_of_not_null hnull,
    List.map_set,List.sum_set',dif_pos (by rwa [List.length_map]),List.getElem_map]
  have hspent : CTxOut.setNull.amount=0 := rfl
  omega

theorem Solvent.spend {c : CCoins} (h : c.Solvent) (n : Nat) : (c.spend n).Solvent := by
  apply Solvent.cleanup
  intro o ho
  rcases List.mem_or_eq_of_mem_set ho with hmem | rfl
  · exact h o hmem
  · decide

end CCoins

end Zdeex.Coins

namespace Zdeex.Block

open Zdeex.Framework
open Zdeex.Coins

namespace CTransaction

/-- The value of the outputs that nobody can spend. -/
def unspendableValue (tx : CTransaction) : Int :=
  ((tx.vout.filter fun txout => isUnspendable txout.scriptPubKey).map CTxOut.nValue).sum

def transparentOut (tx : CTransaction) : Int := (tx.vout.map CTxOut.nValue).sum

/-- What the JoinSplits give to the transparent values, less what they take. -/
def netJoinSplits (tx : CTransaction) : Int :=
  (tx.vjoinsplit.map JSDescription.vpubNew).sum-(tx.vjoinsplit.map JSDescription.vpubOld).sum

end CTransaction

/-- The outputs of a transaction become coins, but for the unspendable ones. -/
theorem unspentValue_fromTx {tx : CTransaction} (h : ∀o∈tx.vout,0≤o.nValue) (nHeight : Int) :
    (CCoins.fromTx tx nHeight).unspentValue+tx.unspendableValue=tx.transparentOut := by
  rw [CCoins.fromTx,CCoins.clearUnspendable,CCoins.unspentValue_cleanup,CCoins.unspentValue,
    CTransaction.unspendableValue,CTransaction.transparentOut]
  dsimp only
  generalize tx.vout=vout at h ⊢
  induction vout with
  | nil => rfl
  | cons o rest ih =>
    have hrest := ih fun o ho => h o (List.mem_cons_of_mem _ ho)
    have ho : o.isNull=false := by
      have hpos := h o List.mem_cons_self
      simp only [CTxOut.isNull,beq_eq_false_iff_ne,ne_eq]
      omega
    rw [List.map_cons,List.map_cons,List.sum_cons,List.map_cons,List.sum_cons,List.filter_cons]
    by_cases hscript : isUnspendable o.scriptPubKey=true
    · have hzero : CTxOut.setNull.amount=0 := rfl
      rw [if_pos hscript,if_pos hscript,List.map_cons,List.sum_cons]
      omega
    · rw [if_neg hscript,if_neg hscript,CTxOut.amount_of_not_null ho]
      omega

theorem solvent_fromTx {tx : CTransaction} (h : ∀o∈tx.vout,0≤o.nValue) (nHeight : Int) :
    (CCoins.fromTx tx nHeight).Solvent := by
  apply CCoins.Solvent.cleanup
  intro o ho
  obtain ⟨txout,htxout,rfl⟩ := List.mem_map.mp ho
  have hpos := h txout htxout
  split_ifs
  · decide
  · unfold CTxOut.amount
    split_ifs
    · exact le_rfl
    · exact hpos

namespace View

variable {Tree : Type}

/-- The sum of all unspent values. -/
def totalValue (v : View Tree) : Int := ∑txid : Uint256,(v.entry txid).unspentValue

theorem totalValue_modifyCoins (v : View Tree) (txid : Uint256) (edit : CCoins → CCoins) :
    (v.modifyCoins txid edit).totalValue+(v.entry txid).unspentValue=
      v.totalValue+(edit (v.entry txid)).unspentValue := by
  have hothers : ∑t∈Finset.univ.erase txid,((v.modifyCoins txid edit).entry t).unspentValue=
      ∑t∈Finset.univ.erase txid,(v.entry t).unspentValue := by
    apply Finset.sum_congr rfl
    intro t ht
    rw [entry_modifyCoins,if_neg (Finset.ne_of_mem_erase ht)]
  rw [totalValue,totalValue,← Finset.add_sum_erase _ _ (Finset.mem_univ txid),hothers,
    ← Finset.add_sum_erase Finset.univ (fun t => (v.entry t).unspentValue) (Finset.mem_univ txid),
    entry_modifyCoins,if_pos rfl,CCoins.unspentValue_cleanup]
  ring

end View

section Connect

variable {Tree : Type} (R : BlockRules Tree)

/-- What is spent leaves the total. -/
theorem totalValue_spendInputs {l : List CTxIn} {v v' : View Tree} {undos : List CTxInUndo}
    (h : spendInputs l v=some (v',undos)) :
    v'.totalValue+(undos.map fun u => u.txout.nValue).sum=v.totalValue := by
  induction l generalizing v undos with
  | nil =>
    obtain ⟨rfl,rfl⟩ := Prod.mk.inj (Option.some.inj h)
    simp
  | cons txin l ih =>
    obtain ⟨o,rest,ho,hrest,rfl⟩ := spendInputs_cons h
    have hih := ih hrest
    have hspend := CCoins.unspentValue_spend ho
    have hmodify := v.totalValue_modifyCoins txin.prevout.hash fun c => c.spend txin.prevout.n
    have htxout : (undoRecord (v.entry txin.prevout.hash)
        ((v.entry txin.prevout.hash).spend txin.prevout.n) o).txout=o := by
      unfold undoRecord
      split_ifs <;> rfl
    rw [List.map_cons,List.sum_cons,htxout]
    omega

theorem solvent_spendInputs {l : List CTxIn} {v v' : View Tree} {undos : List CTxInUndo}
    (h : spendInputs l v=some (v',undos)) {t : Uint256} (ht : (v.entry t).Solvent) :
    (v'.entry t).Solvent := by
  induction l generalizing v undos with
  | nil =>
    obtain ⟨rfl,-⟩ := Prod.mk.inj (Option.some.inj h)
    exact ht
  | cons txin l ih =>
    obtain ⟨o,rest,-,hrest,-⟩ := spendInputs_cons h
    apply ih hrest
    rw [View.entry_modifyCoins]
    split_ifs with heq
    · exact ((heq ▸ ht).spend txin.prevout.n).cleanup
    · exact ht

/-- What a transaction pays as its fee. -/
def feeOf (tx : CTransaction) (v : View Tree) : Int :=
  if tx.isMint then 0
  else ((spentOutputs R tx v).map CTxOut.nValue).sum+tx.valueBalance+tx.netJoinSplits-
    tx.transparentOut

/-- What a coinbase pays out. -/
def mintedBy (tx : CTransaction) : Int := if tx.isMint then tx.transparentOut else 0

variable {R} {nHeight : Int} {tx : CTransaction} {v v' : View Tree} {undo : CTxUndo}

theorem addOutputs_of_plain {pegscc : Bool} (himport : tx.isCoinImport=false)
    (hpegs : tx.isPegsImport pegscc=false) (nHeight : Int) (v : View Tree) :
    addOutputs pegscc tx nHeight v=
      (v.setNullifiers tx true).modifyCoins tx.hash fun _ => CCoins.fromTx tx nHeight := by
  simp [addOutputs,himport,hpegs]

/-- What a transaction does to the total, and how much it writes over. -/
theorem totalValue_updateCoins (hchecked : Checked R.toTxRules tx)
    (himport : tx.isCoinImport=false) (hpegs : tx.isPegsImport R.pegscc=false)
    (h : updateCoins R.pegscc tx nHeight v=some (v',undo)) (hsolvent : (v.entry tx.hash).Solvent) :
    ∃lost : Int,0≤lost ∧ ((v.entry tx.hash).isPruned=true → lost=0) ∧
      v'.totalValue-v.totalValue-tx.valueBalance+tx.unspendableValue+lost=
        mintedBy tx+tx.netJoinSplits-feeOf R tx v := by
  obtain ⟨v₁,undos,hspend,rfl,rfl⟩ := updateCoins_eq h
  have hspent := totalValue_spendInputs hspend
  have hfrom : (CCoins.fromTx tx nHeight).unspentValue+tx.unspendableValue=tx.transparentOut :=
    unspentValue_fromTx (fun o ho => (hchecked.vout o ho).1) nHeight
  have hadd := (v₁.setNullifiers tx true).totalValue_modifyCoins tx.hash
    fun _ => CCoins.fromTx tx nHeight
  have hcoins := addOutputs_of_plain himport hpegs nHeight v₁
  have hnullifiers : (v₁.setNullifiers tx true).totalValue=v₁.totalValue := rfl
  refine ⟨(v₁.entry tx.hash).unspentValue,(solvent_spendInputs hspend hsolvent).unspentValue,
    fun hpruned => CCoins.unspentValue_of_pruned (spendInputs_pruned hspend hpruned),?_⟩
  have hentry : (v₁.setNullifiers tx true).entry tx.hash=v₁.entry tx.hash := rfl
  rw [hentry,hnullifiers] at hadd
  rw [hcoins,mintedBy,feeOf]
  by_cases hmint : tx.isMint=true
  · obtain ⟨hjs,hspends,houtputs⟩ := hchecked.mint hmint
    have hbalance := hchecked.balance hspends houtputs
    have hnet : tx.netJoinSplits=0 := by simp [CTransaction.netJoinSplits,hjs]
    have hnone : spentInputs R.pegscc tx=[] := if_pos hmint
    rw [hnone] at hspend
    obtain ⟨rfl,rfl⟩ := Prod.mk.inj (Option.some.inj hspend)
    rw [if_pos hmint,if_pos hmint,hbalance,hnet]
    rw [List.map_nil,List.sum_nil] at hspent
    omega
  · have hmarker : spentInputs R.pegscc tx=View.lookedUp R.pegscc tx := by
      simp [spentInputs,View.lookedUp,hpegs]
    rw [hmarker] at hspend
    have houts := spendInputs_outputs hspend (nodup_lookedUp hchecked.prevouts)
    have hsum : (undos.map fun u => u.txout.nValue).sum=
        ((spentOutputs R tx v).map CTxOut.nValue).sum := by
      rw [spentOutputs,← houts,List.map_map]
      rfl
    rw [if_neg hmint,if_neg hmint]
    omega

theorem solvent_updateCoins (hchecked : Checked R.toTxRules tx) (himport : tx.isCoinImport=false)
    (hpegs : tx.isPegsImport R.pegscc=false)
    (h : updateCoins R.pegscc tx nHeight v=some (v',undo)) {t : Uint256}
    (ht : (v.entry t).Solvent) : (v'.entry t).Solvent := by
  obtain ⟨v₁,undos,hspend,rfl,-⟩ := updateCoins_eq h
  rw [addOutputs_of_plain himport hpegs,View.entry_modifyCoins]
  split_ifs
  · exact (solvent_fromTx (fun o ho => (hchecked.vout o ho).1) nHeight).cleanup
  · exact solvent_spendInputs hspend ht

/-- Only the entry of the transaction comes into being. -/
theorem pruned_updateCoins (himport : tx.isCoinImport=false)
    (hpegs : tx.isPegsImport R.pegscc=false)
    (h : updateCoins R.pegscc tx nHeight v=some (v',undo)) {t : Uint256} (hne : t≠tx.hash)
    (ht : (v.entry t).isPruned=true) : (v'.entry t).isPruned=true := by
  obtain ⟨v₁,undos,hspend,rfl,-⟩ := updateCoins_eq h
  rw [addOutputs_of_plain himport hpegs,View.entry_modifyCoins,if_neg hne]
  exact spendInputs_pruned hspend ht

variable (R nHeight)

/-- The fees of transactions that are applied one after the other. -/
def feesOf : List CTransaction → View Tree → Int
  | [],_ => 0
  | tx::txs,v =>
      feeOf R tx v+
        match updateCoins R.pegscc tx nHeight v with
        | none => 0
        | some (v',_) => feesOf txs v'

variable {R nHeight}

/-- The books of a block: what it adds to the total beyond the Sapling values. -/
theorem totalValue_connectTxs {i : Nat} {txs : List CTransaction} {undos : List CTxUndo}
    {s s' : ConnectState Tree} (h : TxsConnected R nHeight i txs undos s s')
    (hchecked : ∀tx∈txs,Checked R.toTxRules tx)
    (himport : ∀tx∈txs,tx.isCoinImport=false ∧ tx.isPegsImport R.pegscc=false)
    (hsolvent : ∀tx∈txs,(s.view.entry tx.hash).Solvent) :
    ∃lost : Int,0≤lost ∧ ((txs.map CTransaction.hash).Nodup →
        (∀tx∈txs,(s.view.entry tx.hash).isPruned=true) → lost=0) ∧
      s'.view.totalValue-s.view.totalValue-(txs.map CTransaction.valueBalance).sum+
          (txs.map CTransaction.unspendableValue).sum+lost=
        (txs.map mintedBy).sum+(txs.map CTransaction.netJoinSplits).sum-
          feesOf R nHeight txs s.view := by
  induction h with
  | nil i s => exact ⟨0,le_rfl,fun _ _ => rfl,by simp [feesOf]⟩
  | @cons i tx txs undo undos s s₁ s' valueout htx hrest ih =>
    rw [List.forall_mem_cons] at hchecked himport hsolvent
    obtain ⟨lost,hlost,hnone,hstep⟩ := totalValue_updateCoins hchecked.1 himport.1.1 himport.1.2
      htx.coins hsolvent.1
    obtain ⟨lost',hlost',hnone',hrun⟩ := ih hchecked.2 himport.2 fun t ht =>
      solvent_updateCoins hchecked.1 himport.1.1 himport.1.2 htx.coins (hsolvent.2 t ht)
    refine ⟨lost+lost',by omega,?_,?_⟩
    · intro hnodup hpruned
      rw [List.map_cons,List.nodup_cons] at hnodup
      rw [List.forall_mem_cons] at hpruned
      rw [hnone hpruned.1,hnone' hnodup.2 fun t ht => ?_,add_zero]
      refine pruned_updateCoins himport.1.1 himport.1.2 htx.coins ?_ (hpruned.2 t ht)
      rintro heq
      exact hnodup.1 (heq ▸ List.mem_map_of_mem ht)
    · simp only [List.map_cons,List.sum_cons,feesOf,htx.coins]
      omega

section Sums

variable (R nHeight)

/-- The sums that are formed over the inputs of a transaction. -/
def inputSums (v : View Tree) : List CTxIn → Int → List Int
  | [],_ => []
  | txin::rest,nValueIn =>
      let nValueIn := nValueIn+((v.getOutputFor txin.prevout).getD CTxOut.setNull).nValue
      nValueIn::inputSums v rest nValueIn

/-- The sums of a transaction, its fee, and the fees up to it. -/
def txSums (tx : CTransaction) (v : View Tree) (nFees : Int) : List Int :=
  if tx.isMint then []
  else inputSums v (View.lookedUp R.pegscc tx) 0++
    [((spentOutputs R tx v).map CTxOut.nValue).sum+tx.valuesIn.sum,feeOf R tx v,
      nFees+feeOf R tx v]

def blockSums : List CTransaction → View Tree → Int → List Int
  | [],_,_ => []
  | tx::txs,v,nFees =>
      txSums R tx v nFees++
        match updateCoins R.pegscc tx nHeight v with
        | none => []
        | some (v',_) => blockSums txs v' (nFees+feeOf R tx v)

variable {R nHeight}

open CTransaction (IsAmount)

theorem toCAmount_of_isAmount {x : Int} (h : IsAmount x) : toCAmount x=x := by
  unfold IsAmount at h
  rw [toCAmount,Int.bmod_def]
  split_ifs <;> omega

theorem isAmount_of_le {x m : Int} (hm : m≤10^18) (h : 0≤x ∧ x ≤ m) : IsAmount x := by
  unfold IsAmount
  omega

/-- Inputs whose sums stay in range are added without overflow. -/
theorem checkTxIns_ok (hmax : R.MAX_MONEY≤10^18) {l : List CTxIn} {a b : Int}
    (ha : 0≤a ∧ a≤R.MAX_MONEY) (h : checkTxIns R nHeight v l a=.ok b) :
    b=a+(l.map fun txin => ((v.getOutputFor txin.prevout).getD CTxOut.setNull).nValue).sum ∧
      (0≤b ∧ b≤R.MAX_MONEY) ∧ ∀x∈inputSums v l a,0≤x ∧ x≤R.MAX_MONEY := by
  induction l generalizing a with
  | nil =>
    obtain rfl := Except.ok.inj h
    exact ⟨by simp,ha,fun x hx => absurd hx List.not_mem_nil⟩
  | cons txin l ih =>
    simp only [checkTxIns,checkTxIn,bind_ok,reject_ok] at h
    obtain ⟨c,⟨_,-,_,-,_,hrange,hc⟩,hrest⟩ := h
    obtain rfl := Except.ok.inj hc
    simp only [not_or,Bool.not_eq_false,moneyRange,decide_eq_true_eq] at hrange
    obtain ⟨hvalue,hsum⟩ := hrange
    have hexact := toCAmount_of_isAmount
      (x := a+((v.getOutputFor txin.prevout).getD CTxOut.setNull).nValue)
      (by unfold IsAmount; omega)
    rw [hexact] at hsum hrest
    obtain ⟨hb,hrangeb,hsums⟩ := ih hsum hrest
    refine ⟨?_,hrangeb,?_⟩
    · rw [hb,List.map_cons,List.sum_cons]
      ring
    · rw [inputSums,List.forall_mem_cons]
      exact ⟨hsum,hsums⟩

theorem valuesIn_sub_valuesOut (tx : CTransaction) :
    tx.valuesIn.sum-tx.valuesOut.sum=tx.valueBalance+tx.netJoinSplits-tx.transparentOut := by
  unfold CTransaction.valuesIn CTransaction.valuesOut CTransaction.netJoinSplits
    CTransaction.transparentOut
  simp only [List.sum_append]
  split_ifs <;> simp <;> omega

/-- What was checked of a transaction that is not the coinbase. -/
theorem TxConnected.inputs_ok {i : Nat} {s s' : ConnectState Tree} {valueout : Int}
    (hmax : R.MAX_MONEY≤10^18) (hmint : tx.isMint=false) (hpegs : tx.isPegsImport R.pegscc=false)
    (h : TxConnected R nHeight i tx s s' valueout undo) :
    (∀x∈inputSums s.view (View.lookedUp R.pegscc tx) 0,0≤x ∧ x≤R.MAX_MONEY) ∧
      tx.getShieldedValueIn R.MAX_MONEY=some tx.valuesIn.sum ∧ valueout=tx.valuesOut.sum ∧
      (0≤((spentOutputs R tx s.view).map CTxOut.nValue).sum+tx.valuesIn.sum ∧
        ((spentOutputs R tx s.view).map CTxOut.nValue).sum+tx.valuesIn.sum≤R.MAX_MONEY) ∧
      0≤feeOf R tx s.view ∧ feeOf R tx s.view≤R.MAX_MONEY := by
  have hcb : tx.isCoinBase=false := by
    rw [CTransaction.isMint,Bool.or_eq_false_iff] at hmint
    exact hmint.2
  have hchecks := h.checks
  rw [checkInView,if_neg (by rw [hcb]; decide)] at hchecks
  simp only [contextualCheckInputs,checkSpends,hmint,Bool.false_eq_true,if_false,bind_ok,
    reject_ok] at hchecks
  obtain ⟨_,⟨_,hinputs,-⟩,-⟩ := hchecks
  simp only [checkTxInputs,bind_ok,reject_ok,expect_ok] at hinputs
  obtain ⟨_,-,_,-,nValueIn,hvalue,shieldedIn,hshielded,_,hrange,out,hout,_,-,_,-,hfee⟩ := hinputs
  have himportValue : importValue R tx=0 := by
    rw [importValue,hpegs]
    rfl
  rw [Bool.not_eq_false,moneyRange,decide_eq_true_eq] at hrange hfee
  have hzero : 0≤(0 : Int) ∧ (0 : Int)≤R.MAX_MONEY := ⟨le_rfl,by omega⟩
  rw [himportValue] at hvalue
  obtain ⟨hsum,hrangeIn,hsums⟩ := checkTxIns_ok hmax hzero hvalue
  have hspent : nValueIn=((spentOutputs R tx s.view).map CTxOut.nValue).sum := by
    rw [hsum,zero_add,spentOutputs,List.map_map]
    rfl
  have hshieldedSum : shieldedIn=tx.valuesIn.sum := by
    rw [CTransaction.sumInRange_eq hshielded,zero_add]
    rfl
  have houtSum : out=tx.valuesOut.sum := by
    rw [CTransaction.sumInRange_eq hout,zero_add]
    rfl
  have hshieldedRange := CTransaction.sumInRange_le hzero hshielded
  have houtRange := CTransaction.sumInRange_le hzero hout
  have hexact : toCAmount (nValueIn+shieldedIn)=nValueIn+shieldedIn :=
    toCAmount_of_isAmount (by unfold IsAmount; omega)
  rw [hexact] at hrange hfee
  have hexactFee : toCAmount (nValueIn+shieldedIn-out)=nValueIn+shieldedIn-out :=
    toCAmount_of_isAmount (by unfold IsAmount; omega)
  rw [hexactFee] at hfee
  have hnet := valuesIn_sub_valuesOut tx
  have hfeeOf : feeOf R tx s.view=nValueIn+shieldedIn-out := by
    rw [feeOf,if_neg (by rw [hmint]; decide)]
    omega
  have hsame : valueout=out := Option.some.inj (h.valueOut.1.symm.trans hout)
  rw [hfeeOf,← hspent,← hshieldedSum,hsame]
  exact ⟨hsums,hshielded,houtSum,hrange,hfee⟩

/-- The sums of an accepted transaction, and the fees after it. -/
theorem TxConnected.sums {i : Nat} {s s' : ConnectState Tree} {valueout : Int}
    (hmax : R.MAX_MONEY≤10^18) (himport : tx.isCoinImport=false)
    (hpegs : tx.isPegsImport R.pegscc=false)
    (h : TxConnected R nHeight i tx s s' valueout undo) :
    0≤feeOf R tx s.view ∧ (IsAmount s.nFees → s'.nFees=toCAmount (s.nFees+feeOf R tx s.view)) ∧
      ∀nFees,(∀x∈txSums R tx s.view nFees,IsAmount x) ↔
        (tx.isMint=false → IsAmount (nFees+feeOf R tx s.view)) := by
  by_cases hmint : tx.isMint=true
  · have hcb : tx.isCoinBase=true := by simpa [CTransaction.isMint,himport] using hmint
    have hfees := h.fees
    rw [tallyFees,if_pos hcb] at hfees
    have hzero : feeOf R tx s.view=0 := if_pos hmint
    refine ⟨hzero.ge,fun hamount => ?_,fun nFees => ?_⟩
    · rw [hzero,add_zero,toCAmount_of_isAmount hamount]
      exact (Except.ok.inj hfees).symm
    · simp [txSums,hmint]
  · rw [Bool.not_eq_true] at hmint
    obtain ⟨hsums,hshielded,hout,hin,hfee⟩ := h.inputs_ok hmax hmint hpegs
    have hcb : tx.isCoinBase=false := by
      rw [CTransaction.isMint,Bool.or_eq_false_iff] at hmint
      exact hmint.2
    refine ⟨hfee.1,fun _ => ?_,fun nFees => ?_⟩
    · have hfees := h.fees
      simp only [tallyFees,hcb,Bool.false_eq_true,if_false,getValueIn,himport,hshielded,
        Option.map_some,bind_ok,expect_ok] at hfees
      obtain ⟨valueIn,hvalueIn,hs'⟩ := hfees
      have himportValue : importValue R tx=0 := by
        rw [importValue,hpegs]
        rfl
      have hexact := toCAmount_of_isAmount (isAmount_of_le hmax hin)
      rw [himportValue,zero_add,hexact] at hvalueIn
      have hfeeOf : feeOf R tx s.view=valueIn-valueout := by
        have hnet := valuesIn_sub_valuesOut tx
        rw [feeOf,if_neg (by rw [hmint]; decide),← Option.some.inj hvalueIn,hout]
        omega
      rw [hfeeOf]
      exact (Except.ok.inj hs').symm
    · rw [txSums,if_neg (by rw [hmint]; decide)]
      simp only [List.forall_mem_append,List.forall_mem_cons]
      constructor
      · intro hall _
        exact hall.2.2.2.1
      · intro hnew
        refine ⟨fun x hx => isAmount_of_le hmax (hsums x hx),isAmount_of_le hmax hin,
          isAmount_of_le hmax hfee,hnew hmint,fun x hx => absurd hx List.not_mem_nil⟩

theorem feesOf_nonneg (hmax : R.MAX_MONEY≤10^18) {i : Nat} {txs : List CTransaction}
    {undos : List CTxUndo} {s s' : ConnectState Tree} (h : TxsConnected R nHeight i txs undos s s')
    (himport : ∀tx∈txs,tx.isCoinImport=false ∧ tx.isPegsImport R.pegscc=false) :
    0≤feesOf R nHeight txs s.view := by
  induction h with
  | nil i s => exact le_rfl
  | cons htx hrest ih =>
    rw [List.forall_mem_cons] at himport
    have hfee := (htx.sums hmax himport.1.1 himport.1.2).1
    have hfees := ih himport.2
    simp only [feesOf,htx.coins]
    omega

/-- The sums of a block fit exactly when the fees do at the end; then they are exact. -/
theorem blockSums_iff (hmax : R.MAX_MONEY≤10^18) {i : Nat} {txs : List CTransaction}
    {undos : List CTxUndo} {s s' : ConnectState Tree} (h : TxsConnected R nHeight i txs undos s s')
    (himport : ∀tx∈txs,tx.isCoinImport=false ∧ tx.isPegsImport R.pegscc=false)
    (hfees : 0 ≤ s.nFees ∧ s.nFees<2^63) :
    ((∀x∈blockSums R nHeight txs s.view s.nFees,IsAmount x) ↔
        s.nFees+feesOf R nHeight txs s.view<2^63) ∧
      (s.nFees+feesOf R nHeight txs s.view<2^63 →
        s'.nFees=s.nFees+feesOf R nHeight txs s.view) := by
  induction h with
  | nil i s =>
    rw [feesOf,add_zero]
    exact ⟨⟨fun _ => hfees.2,fun _ x hx => absurd hx List.not_mem_nil⟩,fun _ => rfl⟩
  | @cons i tx txs undo undos s s₁ s' valueout htx hrest ih =>
    rw [List.forall_mem_cons] at himport
    obtain ⟨hfee,hnew,hsums⟩ := htx.sums hmax himport.1.1 himport.1.2
    have hlater := feesOf_nonneg hmax hrest himport.2
    have hamount : IsAmount s.nFees := by unfold IsAmount; omega
    simp only [blockSums,feesOf,htx.coins,List.forall_mem_append,hsums]
    by_cases hfit : s.nFees+feeOf R tx s.view<2^63
    · have hfirst : IsAmount (s.nFees+feeOf R tx s.view) := by unfold IsAmount; omega
      have hnFees : s₁.nFees=s.nFees+feeOf R tx s.view := by
        rw [hnew hamount,toCAmount_of_isAmount hfirst]
      obtain ⟨hiff,hexact⟩ := ih himport.2 (by omega)
      rw [hnFees,add_assoc] at hiff hexact
      exact ⟨⟨fun hall => hiff.mp hall.2,fun hlt => ⟨fun _ => hfirst,hiff.mpr hlt⟩⟩,hexact⟩
    · refine ⟨⟨fun hall => ?_,fun hlt => by omega⟩,fun hlt => by omega⟩
      by_cases hmint : tx.isMint=true
      · have hzero : feeOf R tx s.view=0 := if_pos hmint
        omega
      · have hover := (hall.1 (Bool.not_eq_true _ ▸ hmint)).2
        exact absurd hover hfit

variable (R nHeight) (block : CBlock) (notarypay : Nat)

/-- The commission, when the second output of the coinbase pays it. -/
def paidCommission : Int :=
  if R.commission ∧ R.theCommission block nHeight≠0 ∧
      ((block.vtx.take 1).any fun tx => (tx.vout.drop 1).head?.any fun txout =>
        txout.nValue%2^64==(R.theCommission block nHeight : Int)) then
    R.theCommission block nHeight
  else 0

/-- What a block may add to the transparent values. -/
def allowance : Int :=
  R.getBlockSubsidy nHeight+notarypay+paidCommission R nHeight block+R.HUSH_EXTRASATOSHI

def rewardSums (nFees : Int) : List Int :=
  [R.getBlockSubsidy nHeight+notarypay,R.getBlockSubsidy nHeight+notarypay+nFees,
    R.getBlockSubsidy nHeight+notarypay+nFees+paidCommission R nHeight block]

/-- No more transparent value comes into being than the rewards and the Sapling values. -/
def NoInflation (v v' : View Tree) : Prop :=
  v'.totalValue-v.totalValue-(block.vtx.map CTransaction.valueBalance).sum≤
    allowance R nHeight block notarypay

/-- None of the sums overflows. -/
def NoOverflow (v : View Tree) : Prop :=
  (∀x∈blockSums R nHeight block.vtx v 0,IsAmount x) ∧
    ∀x∈rewardSums R nHeight block notarypay (feesOf R nHeight block.vtx v),IsAmount x

/-- What the JoinSplits of the block give beyond what they take is covered by what the
coinbase leaves of its reward, and by outputs that nobody can spend. -/
def JoinSplitsCovered (v : View Tree) : Prop :=
  (block.vtx.map CTransaction.netJoinSplits).sum≤
    allowance R nHeight block notarypay+feesOf R nHeight block.vtx v-
      (block.vtx.map mintedBy).sum+(block.vtx.map CTransaction.unspendableValue).sum

/-- The fees and the reward with them fit into 64 bits. -/
structure RewardFits (v : View Tree) : Prop where
  fees : feesOf R nHeight block.vtx v<2^63
  pay : IsAmount (R.getBlockSubsidy nHeight+notarypay)
  reward : R.getBlockSubsidy nHeight+notarypay+feesOf R nHeight block.vtx v+
    paidCommission R nHeight block<2^63

variable {R nHeight block notarypay}

theorem paidCommission_nonneg : 0≤paidCommission R nHeight block := by
  unfold paidCommission
  split_ifs
  · exact Int.natCast_nonneg _
  · exact le_rfl

theorem rewardSums_iff {nFees : Int} (hfees : 0≤nFees) :
    (∀x∈rewardSums R nHeight block notarypay nFees,IsAmount x) ↔
      IsAmount (R.getBlockSubsidy nHeight+notarypay) ∧
        R.getBlockSubsidy nHeight+notarypay+nFees+paidCommission R nHeight block<2^63 := by
  have hcommission : 0≤paidCommission R nHeight block := paidCommission_nonneg
  simp only [rewardSums,List.forall_mem_cons]
  constructor
  · rintro ⟨hpay,-,hreward,-⟩
    exact ⟨hpay,hreward.2⟩
  · rintro ⟨hpay,hreward⟩
    have hlow := hpay.1
    refine ⟨hpay,?_,?_,fun x hx => absurd hx List.not_mem_nil⟩
    · unfold IsAmount
      omega
    · unfold IsAmount
      omega

/-- The reward is what it should be as long as nothing overflows. -/
theorem blockReward_eq {nFees : Int}
    (h : ∀x∈rewardSums R nHeight block notarypay nFees,IsAmount x) :
    blockReward R nHeight block notarypay nFees=
      R.getBlockSubsidy nHeight+notarypay+nFees+paidCommission R nHeight block := by
  simp only [rewardSums,List.forall_mem_cons] at h
  obtain ⟨hpay,hfees,hreward,-⟩ := h
  unfold blockReward
  rw [toCAmount_of_isAmount hpay,toCAmount_of_isAmount hfees]
  dsimp only
  unfold paidCommission at hreward ⊢
  split_ifs at hreward ⊢ with hpaid
  · exact toCAmount_of_isAmount hreward
  · exact (add_zero _).symm

theorem totalValue_finishBlock (v : View Tree) (s : ConnectState Tree) :
    (finishBlock R block v s).view.totalValue=s.view.totalValue := by
  unfold finishBlock View.pushAnchor
  dsimp only
  split_ifs <;> rfl

/-- Only the coinbase of a checked block mints. -/
theorem sum_mintedBy (hblock : BlockChecked R block)
    (himport : ∀tx∈block.vtx,tx.isCoinImport=false) :
    ∃coinbase,block.vtx.head?=some coinbase ∧ coinbase.isMint=true ∧ coinbase∈block.vtx ∧
      (block.vtx.map mintedBy).sum=coinbase.transparentOut := by
  obtain ⟨coinbase,txs,hvtx,hcb,hrest⟩ := hblock.coinbase
  have hmint : coinbase.isMint=true := by simp [CTransaction.isMint,hcb]
  have hothers : (txs.map mintedBy).sum=0 := by
    apply List.sum_eq_zero
    intro x hx
    obtain ⟨tx,htx,rfl⟩ := List.mem_map.mp hx
    have hno : tx.isMint=false := by
      simp [CTransaction.isMint,hrest tx htx,himport tx (by simp [hvtx,htx])]
    exact if_neg (by rw [hno]; decide)
  have hfirst : mintedBy coinbase=coinbase.transparentOut := if_pos hmint
  refine ⟨coinbase,by rw [hvtx]; rfl,hmint,by simp [hvtx],?_⟩
  rw [hvtx,List.map_cons,List.sum_cons,hothers,hfirst,add_zero]

/-- A coinbase takes no more than its reward. -/
theorem coinbase_le_reward (hsmart : R.isSmartChain=true) (hextra : 0≤R.HUSH_EXTRASATOSHI)
    {reward : Int} (hreward : IsAmount reward) {coinbase : CTransaction}
    (hchecked : Checked R.toTxRules coinbase) (hmint : coinbase.isMint=true)
    (hhead : block.vtx.head?=some coinbase) (h : checkCoinbase R nHeight block reward=.ok ()) :
    coinbase.transparentOut ≤ reward+R.HUSH_EXTRASATOSHI := by
  obtain ⟨hjs,hspends,houtputs⟩ := hchecked.mint hmint
  have hbalance := hchecked.balance hspends houtputs
  simp only [checkCoinbase,bind_ok,reject_ok,expect_ok,hhead,Option.some.injEq] at h
  obtain ⟨_,rfl,valueOut,hvalue,_,-,hlimit⟩ := h
  have hout : valueOut=coinbase.transparentOut := by
    have hsum := CTransaction.sumInRange_eq hvalue
    rw [hjs,hbalance] at hsum
    simpa [CTransaction.transparentOut] using hsum
  have hle : valueOut≤toCAmount (reward+R.HUSH_EXTRASATOSHI) := by
    by_contra hno
    exact hlimit ⟨not_le.mp hno,.inl hsmart⟩
  have hwrap : toCAmount (reward+R.HUSH_EXTRASATOSHI) ≤ reward+R.HUSH_EXTRASATOSHI := by
    have hlow := hreward.1
    rw [toCAmount,Int.bmod_def]
    split_ifs <;> omega
  omega

/-- The books of an accepted block. -/
theorem totalValue_connectBlock {pprev : Option CBlockIndex} {v : View Tree} {a : Connected Tree}
    (h : connectBlock R pprev block v=.ok a) (hgenesis : block.hash≠R.hashGenesisBlock)
    (himport : ∀tx∈block.vtx,tx.isCoinImport=false ∧ tx.isPegsImport R.pegscc=false) :
    ∃lost : Int,0≤lost ∧ ((block.vtx.map CTransaction.hash).Nodup → lost=0) ∧
      a.view.totalValue-v.totalValue-(block.vtx.map CTransaction.valueBalance).sum+
          (block.vtx.map CTransaction.unspendableValue).sum+lost=
        (block.vtx.map mintedBy).sum+(block.vtx.map CTransaction.netJoinSplits).sum-
          feesOf R (childHeight pprev) block.vtx v := by
  obtain ⟨hblock,-,notarypay,-,hcases⟩ := connectBlock_ok R h
  obtain ⟨heq,-⟩ | ⟨-,htxs⟩ := hcases
  · exact absurd heq hgenesis
  · obtain ⟨-,tree,s,hconn,rfl⟩ := connectTransactions_ok R htxs
    obtain ⟨undos,hrun⟩ := connectTxs_ok R hconn.txs
    obtain ⟨lost,hlost,hnone,hsum⟩ := totalValue_connectTxs hrun hblock.txs himport
      fun tx htx => CCoins.solvent_of_pruned (hconn.fresh tx htx)
    refine ⟨lost,hlost,fun hnodup => hnone hnodup hconn.fresh,?_⟩
    rw [totalValue_finishBlock]
    exact hsum

/-- Exactly the JoinSplits can create transparent value, and exactly the fees can
overflow; a block whose JoinSplits give no more than they take creates none. -/
theorem no_inflation_iff (R : BlockRules Tree) {pprev : Option CBlockIndex} {block : CBlock}
    {v : View Tree} {a : Connected Tree} (h : connectBlock R pprev block v=.ok a)
    (hgenesis : block.hash≠R.hashGenesisBlock) (hsmart : R.isSmartChain=true)
    (hmax : R.MAX_MONEY≤10^18) (hextra : 0≤R.HUSH_EXTRASATOSHI)
    (himport : ∀tx∈block.vtx,tx.isCoinImport=false ∧ tx.isPegsImport R.pegscc=false) :
    ∃notarypay,notaryPay R pprev block=.ok notarypay ∧
      (JoinSplitsCovered R (childHeight pprev) block notarypay v ∧
          RewardFits R (childHeight pprev) block notarypay v →
        NoInflation R (childHeight pprev) block notarypay v a.view ∧
          NoOverflow R (childHeight pprev) block notarypay v) ∧
      ((block.vtx.map CTransaction.hash).Nodup →
        NoInflation R (childHeight pprev) block notarypay v a.view ∧
            NoOverflow R (childHeight pprev) block notarypay v →
          JoinSplitsCovered R (childHeight pprev) block notarypay v ∧
            RewardFits R (childHeight pprev) block notarypay v) ∧
      (RewardFits R (childHeight pprev) block notarypay v →
        (block.vtx.map CTransaction.netJoinSplits).sum≤0 →
          JoinSplitsCovered R (childHeight pprev) block notarypay v) := by
  obtain ⟨lost,hlost,hnone,hsum⟩ := totalValue_connectBlock h hgenesis himport
  obtain ⟨hblock,-,notarypay,hpay,hcases⟩ := connectBlock_ok R h
  obtain ⟨heq,-⟩ | ⟨-,htxs⟩ := hcases
  · exact absurd heq hgenesis
  · obtain ⟨-,tree,s,hconn,-⟩ := connectTransactions_ok R htxs
    obtain ⟨undos,hrun⟩ := connectTxs_ok R hconn.txs
    have hzero : (0 : Int)≤0 ∧ (0 : Int)<2^63 := ⟨le_rfl,by decide⟩
    have hfees := feesOf_nonneg hmax hrun himport
    obtain ⟨hiff,hexact⟩ := blockSums_iff hmax hrun himport hzero
    dsimp only at hfees hiff hexact
    rw [zero_add] at hiff hexact
    have hreward : (∀x∈rewardSums R (childHeight pprev) block notarypay
        (feesOf R (childHeight pprev) block.vtx v),IsAmount x) ↔
        IsAmount (R.getBlockSubsidy (childHeight pprev)+notarypay) ∧
          R.getBlockSubsidy (childHeight pprev)+notarypay+feesOf R (childHeight pprev) block.vtx v+
            paidCommission R (childHeight pprev) block<2^63 := rewardSums_iff hfees
    have hoverflow : NoOverflow R (childHeight pprev) block notarypay v ↔
        RewardFits R (childHeight pprev) block notarypay v := by
      rw [NoOverflow,hiff,hreward]
      exact ⟨fun hno => ⟨hno.1,hno.2.1,hno.2.2⟩,fun hfit => ⟨hfit.fees,hfit.pay,hfit.reward⟩⟩
    refine ⟨notarypay,hpay,?_,?_,?_⟩
    · rintro ⟨hcovered,hfit⟩
      refine ⟨?_,hoverflow.mpr hfit⟩
      unfold JoinSplitsCovered at hcovered
      unfold NoInflation
      omega
    · rintro hnodup ⟨hbound,hno⟩
      refine ⟨?_,hoverflow.mp hno⟩
      have hlostZero := hnone hnodup
      unfold NoInflation at hbound
      unfold JoinSplitsCovered
      omega
    · intro hfit hnet
      have hrewards := hreward.mpr ⟨hfit.pay,hfit.reward⟩
      obtain ⟨coinbase,hhead,hmint,hmem,hminted⟩ := sum_mintedBy hblock fun tx htx =>
        (himport tx htx).1
      have hcheck := hconn.coinbase
      rw [hexact hfit.fees,blockReward_eq hrewards] at hcheck
      have hpaid : IsAmount (R.getBlockSubsidy (childHeight pprev)+notarypay+
          feesOf R (childHeight pprev) block.vtx v+
          paidCommission R (childHeight pprev) block) := by
        apply hrewards
        simp [rewardSums]
      have hcoinbase := coinbase_le_reward hsmart hextra hpaid (hblock.txs coinbase hmem) hmint
        hhead hcheck
      have hunspendable : 0≤(block.vtx.map CTransaction.unspendableValue).sum := by
        apply List.sum_nonneg
        intro x hx
        obtain ⟨tx,htx,rfl⟩ := List.mem_map.mp hx
        apply List.sum_nonneg
        intro y hy
        obtain ⟨o,ho,rfl⟩ := List.mem_map.mp hy
        exact ((hblock.txs tx htx).vout o (List.mem_of_mem_filter ho)).1
      unfold JoinSplitsCovered allowance
      omega

end Sums

end Connect

section Mint

/-- A transaction whose JoinSplit gives 1000 for nothing. -/
def generousTx : CTransaction :=
  {plainTx 102 [⟨7,0⟩] [⟨1050,[0x51]⟩] with nVersion := 2,vjoinsplit := [⟨0,1000⟩]}

def joinSplitBlock : CBlock := ⟨10,0,0,[plainCoinbase 101,generousTx]⟩

/-- Nineteen outputs of 10^18. -/
def richView : View Unit :=
  {smallView with coins := fun txid =>
    if 20≤txid.toNat ∧ txid.toNat<39 then some ⟨false,[⟨10^18,[0x51]⟩],1,1⟩ else none}

def richRules : BlockRules Unit := {smallRules false with MAX_MONEY := 10^18}

/-- Each of the outputs but one unit is a fee. -/
def feeBlock : CBlock :=
  ⟨10,0,0,plainCoinbase 101::(List.range 19).map fun i =>
    plainTx (BitVec.ofNat 256 (200+i)) [⟨BitVec.ofNat 256 (20+i),0⟩] [⟨1,[0x51]⟩]⟩

/-- JoinSplits give value for nothing, and the fees of one block pass 2^63. -/
theorem joinSplit_inflates :
    (∃a,connectBlock (smallRules false) (some smallIndex) joinSplitBlock smallView=.ok a ∧
      1<childHeight (some smallIndex) ∧
      ¬NoInflation (smallRules false) (childHeight (some smallIndex)) joinSplitBlock 0 smallView
        a.view) ∧
    richRules.MAX_MONEY≤10^18 ∧
    ∃a,connectBlock richRules (some smallIndex) feeBlock richView=.ok a ∧
      ¬NoOverflow richRules (childHeight (some smallIndex)) feeBlock 0 richView := by
  refine ⟨?_,le_rfl,?_⟩
  · obtain ⟨a,ha⟩ := exists_of_toBool
      (x := connectBlock (smallRules false) (some smallIndex) joinSplitBlock smallView) rfl
    refine ⟨a,ha,by decide,?_⟩
    obtain ⟨lost,-,hlost,hsum⟩ := totalValue_connectBlock ha (by decide) (by decide)
    have hzero : lost=0 := hlost (by decide)
    have hunspendable : (joinSplitBlock.vtx.map CTransaction.unspendableValue).sum=0 := by decide
    have hminted : (joinSplitBlock.vtx.map mintedBy).sum=50 := by decide
    have hnet : (joinSplitBlock.vtx.map CTransaction.netJoinSplits).sum=1000 := by decide
    have hfees : feesOf (smallRules false) (childHeight (some smallIndex)) joinSplitBlock.vtx
        smallView=0 := by decide +kernel
    have hallowance : allowance (smallRules false) (childHeight (some smallIndex)) joinSplitBlock
        0=50 := by decide +kernel
    rw [hzero,hunspendable,hminted,hnet,hfees] at hsum
    unfold NoInflation
    rw [hallowance]
    omega
  · obtain ⟨a,ha⟩ := exists_of_toBool
      (x := connectBlock richRules (some smallIndex) feeBlock richView) (by decide +kernel)
    refine ⟨a,ha,fun hno => ?_⟩
    have hfees : feesOf richRules (childHeight (some smallIndex)) feeBlock.vtx richView=
        19*10^18-19 := by decide +kernel
    have hover := (hno.2 (50+0+(19*10^18-19)) (by rw [hfees]; decide)).2
    exact absurd hover (by decide)

theorem spendBlock_covered : ∃a,
    connectBlock (smallRules false) (some smallIndex) spendBlock smallView=.ok a ∧
      NoInflation (smallRules false) (childHeight (some smallIndex)) spendBlock 0 smallView
        a.view ∧
      NoOverflow (smallRules false) (childHeight (some smallIndex)) spendBlock 0 smallView := by
  obtain ⟨a,ha⟩ := exists_of_toBool
    (x := connectBlock (smallRules false) (some smallIndex) spendBlock smallView) rfl
  obtain ⟨notarypay,hpay,hsound,-,hcovered⟩ := no_inflation_iff (smallRules false) ha (by decide)
    rfl (by decide) (by decide) (by decide)
  have hzero : notaryPay (smallRules false) (some smallIndex) spendBlock=.ok 0 := rfl
  obtain rfl := Except.ok.inj (hzero.symm.trans hpay)
  have hfit : RewardFits (smallRules false) (childHeight (some smallIndex)) spendBlock 0
      smallView := ⟨by decide +kernel,⟨by decide,by decide⟩,by decide +kernel⟩
  exact ⟨a,ha,hsound ⟨hcovered hfit (by decide),hfit⟩⟩

end Mint

end Zdeex.Block
