import Mathlib.Algebra.BigOperators.Group.List.Basic
import Zdeex.Wallet.OrderPositions

namespace Zdeex.Wallet.Positions.Deletion

open Zdeex.Block
open Zdeex.Framework

section Definitions

/-- The chain with what else balance and notes depend on. -/
structure View extends Chain where
  isFinal : Uint256 → Bool
  blocksToMaturity : Uint256 → Int
  bSpendZeroConfChange : Bool

structure SaplingOutPoint where
  hash : Uint256
  n : Nat
  deriving DecidableEq

/-- The wallet with its records of spends; they are kept when a transaction is erased. -/
structure SpendWallet extends CWallet where
  mapTxSpends : List (COutPoint × Uint256)
  mapTxSaplingNullifiers : List (Uint256 × Uint256)
  mapSaplingNullifiersToNotes : Uint256 → Option SaplingOutPoint

def getWalletTx (w : SpendWallet) (hash : Uint256) : Option CWalletTx :=
  w.mapWallet.find? fun tx => tx.hash == hash

/-- A transaction of the wallet that is not conflicted. -/
def counts (v : View) (w : SpendWallet) (wtxid : Uint256) : Bool :=
  (getWalletTx w wtxid).isSome && decide (0≤v.depth wtxid)

def isSpent (v : View) (w : SpendWallet) (hash : Uint256) (n : Nat) : Bool :=
  (equalRange w.mapTxSpends ⟨hash,n⟩).any (counts v w)

def getSpendDepth (v : View) (w : SpendWallet) (hash : Uint256) (n : Nat) : Nat :=
  (((equalRange w.mapTxSpends ⟨hash,n⟩).find? (counts v w)).map fun wtxid =>
    (v.depth wtxid).toNat).getD 0

def isSaplingSpent (v : View) (w : SpendWallet) (nullifier : Uint256) : Bool :=
  (equalRange w.mapTxSaplingNullifiers nullifier).any (counts v w)

def getSaplingSpendDepth (v : View) (w : SpendWallet) (nullifier : Uint256) : Nat :=
  (((equalRange w.mapTxSaplingNullifiers nullifier).find? (counts v w)).map fun wtxid =>
    (v.depth wtxid).toNat).getD 0

def isSaplingNullifierFromMe (w : SpendWallet) (nullifier : Uint256) : Bool :=
  (w.mapSaplingNullifiersToNotes nullifier).any fun op => (getWalletTx w op.hash).isSome

def MAX_DELETE_TX_SIZE : Nat := 50000

structure Settings where
  fTxDeleteEnabled : Bool
  fTxConflictDeleteEnabled : Bool
  fDeleteTransactionsAfterNBlocks : Nat
  fKeepLastNTransactions : Nat
  hasAccountEntries : Bool

section Checks

variable (v : View) (s : Settings) (w : SpendWallet) (tx : CWalletTx)

/-- A note that is unspent, or spent less than N blocks ago. -/
def recentNote : Bool :=
  tx.mapSaplingNoteData.any fun nd => nd.nullifier.all fun nullifier =>
    decide (getSaplingSpendDepth v w nullifier ≤ s.fDeleteTransactionsAfterNBlocks)

/-- A shielded parent in the wallet. -/
def shieldedParent : Bool :=
  tx.vShieldedSpend.any fun nullifier => isSaplingNullifierFromMe w nullifier &&
    (w.mapSaplingNullifiersToNotes nullifier).any fun op =>
      (getWalletTx w op.hash).isSome && op.hash != tx.hash

def recentOutput : Bool :=
  (List.range tx.vout.length).any fun i => (tx.vout[i]?).any (fun out => out.mine != .no) &&
    decide (getSpendDepth v w tx.hash i ≤ s.fDeleteTransactionsAfterNBlocks)

/-- A transparent parent in the wallet. -/
def transparentParent : Bool :=
  tx.vin.any fun prevout => (getWalletTx w prevout.hash).isSome && prevout.hash != tx.hash

end Checks

/-- The counters of the loop, and the transactions to remove. -/
structure Collecting where
  txConflictCount : Nat
  txUnConfirmed : Nat
  txCount : Nat
  removeTxs : List Uint256

def Collecting.collect (t : Collecting) (hash : Uint256) : Collecting :=
  if t.removeTxs.length<MAX_DELETE_TX_SIZE then {t with removeTxs := t.removeTxs++[hash]} else t

def Collecting.count (t : Collecting) (depth : Int) : Collecting :=
  {t with
    txCount := t.txCount+1
    txUnConfirmed := if depth=0 then t.txUnConfirmed+1 else t.txUnConfirmed}

/-- One pass of the loop over the sorted transactions. -/
def collectTx (v : View) (s : Settings) (w : SpendWallet) (size : Nat) (t : Collecting)
    (tx : CWalletTx) : Collecting :=
  let wtxDepth := v.depth tx.hash
  let nDeleteAfter := (s.fDeleteTransactionsAfterNBlocks : Int).bmod (2^32)
  let t := t.count wtxDepth
  if wtxDepth<nDeleteAfter ∧ 0≤wtxDepth then t
  else if wtxDepth = -1 then
    if s.fTxConflictDeleteEnabled=true then
      {t with txConflictCount := t.txConflictCount+1}.collect tx.hash
    else t
  else if recentNote v s w tx=true then t
  else if shieldedParent w tx=true then t
  else if recentOutput v s w tx=true then t
  else if transparentParent w tx=true then t
  else if size-t.txCount < s.fKeepLastNTransactions+t.txConflictCount+t.txUnConfirmed then t
  else t.collect tx.hash

def eraseTx (w : SpendWallet) (hash : Uint256) : SpendWallet :=
  {w with
    mapWallet := w.mapWallet.filter fun tx => tx.hash != hash
    nodup := w.nodup.sublist (List.filter_sublist.map _)}

/-- Stops at a transaction that is not there. -/
def deleteTransactions : List Uint256 → SpendWallet → SpendWallet
  | [],w => w
  | hash::removeTxs,w =>
    if (getWalletTx w hash).isSome then deleteTransactions removeTxs (eraseTx w hash) else w

def deleteWalletTransactions (v : View) (s : Settings) (pindex : Bool) (w : SpendWallet) :
    SpendWallet :=
  if pindex=true ∧ s.fTxDeleteEnabled=true ∧ s.hasAccountEntries=false then
    let r := reorderWalletTransactions v.toChain w.mapWallet 0
    let updated : SpendWallet := {w with
      toCWallet := updateWalletTransactionOrder w.toCWallet r.mapSorted
        (decide (r.mapSorted.length*10 < r.maxOrderPos))}
    let t := (r.mapSorted.map Prod.snd).foldl (collectTx v s updated r.mapSorted.length)
      ⟨0,0,0,[]⟩
    deleteTransactions t.removeTxs updated
  else w

end Definitions

section Funds

variable (v : View) (w : SpendWallet)

/-- The value of the inputs that spend outputs of one kind. -/
def getDebit (filter : IsMineType) (tx : CWalletTx) : Int :=
  (tx.vin.map fun prevout => (((getWalletTx w prevout.hash).bind fun prev =>
    prev.vout[prevout.n]?).map fun out => if out.mine=filter then out.nValue else 0).getD 0).sum

def isFromMe (tx : CWalletTx) : Bool :=
  decide (0<getDebit w .spendable tx+getDebit w .watchOnly tx)

def isTrusted (tx : CWalletTx) : Bool :=
  v.isFinal tx.hash &&
    (decide (1≤v.depth tx.hash) ||
      decide (0≤v.depth tx.hash) && v.bSpendZeroConfChange && isFromMe w tx &&
        tx.vin.all fun prevout => ((getWalletTx w prevout.hash).bind fun parent =>
          parent.vout[prevout.n]?).any fun out => out.mine == .spendable)

def getAvailableCredit (tx : CWalletTx) : Int :=
  if tx.isCoinBase=true ∧ 0<v.blocksToMaturity tx.hash then 0
  else ((List.range tx.vout.length).map fun i =>
    if isSpent v w tx.hash i=true then 0
    else ((tx.vout[i]?).map fun out => if out.mine=.spendable then out.nValue else 0).getD 0).sum

def getBalance : Int :=
  (w.mapWallet.map fun tx => if isTrusted v w tx=true then getAvailableCredit v w tx else 0).sum

/-- `GetFilteredNotes` without spent notes; `admits` stands for keys, addresses and locks. -/
def spendableNotes (minDepth : Nat) (admits : Uint256 → SaplingNoteData → Bool) :
    List SaplingOutPoint :=
  w.mapWallet.flatMap fun tx =>
    if v.isFinal tx.hash=true ∧ v.blocksToMaturity tx.hash≤0 ∧ (minDepth : Int)≤v.depth tx.hash then
      (tx.mapSaplingNoteData.filter fun nd => admits tx.hash nd &&
        !nd.nullifier.any (isSaplingSpent v w)).map fun nd => ⟨tx.hash,nd.n⟩
    else []

end Funds

section Records

/-- What `AddToSpends` and the nullifier maps record, and what chain and mempool rule out. -/
structure Consistent (v : View) (w : SpendWallet) : Prop where
  spends : ∀e∈w.mapTxSpends,∀tx∈w.mapWallet,tx.hash=e.2 → e.1∈tx.vin
  recorded : ∀tx∈w.mapWallet,tx.isCoinBase=false → ∀o∈tx.vin,(o,tx.hash)∈w.mapTxSpends
  nullifiers : ∀e∈w.mapTxSaplingNullifiers,∀tx∈w.mapWallet,tx.hash=e.2 → e.1∈tx.vShieldedSpend
  notes : ∀tx∈w.mapWallet,∀nd∈tx.mapSaplingNoteData,∀nullifier,nd.nullifier=some nullifier →
    w.mapSaplingNullifiersToNotes nullifier=some ⟨tx.hash,nd.n⟩
  coinBase : ∀tx∈w.mapWallet,tx.isCoinBase=true → ∀o∈tx.vin,∀parent∈w.mapWallet,
    parent.hash≠o.hash
  parents : ∀tx∈w.mapWallet,0≤v.depth tx.hash → ∀o∈tx.vin,∀parent∈w.mapWallet,
    parent.hash=o.hash → 0≤v.depth parent.hash
  single : ∀a∈w.mapWallet,∀b∈w.mapWallet,a.isCoinBase=false → b.isCoinBase=false →
    0≤v.depth a.hash → 0≤v.depth b.hash → ∀o∈a.vin,o∈b.vin → a=b

variable {v : View} {s : Settings} {w : SpendWallet} {tx : CWalletTx}

theorem getWalletTx_of_mem (h : tx∈w.mapWallet) : getWalletTx w tx.hash=some tx :=
  OrderedMap.find_key CWalletTx.hash w.nodup h

theorem mem_of_getWalletTx {hash : Uint256} (h : getWalletTx w hash=some tx) :
    tx∈w.mapWallet ∧ tx.hash=hash :=
  ⟨List.mem_of_find?_eq_some h,by simpa using List.find?_some h⟩

theorem counts_iff {wtxid : Uint256} : counts v w wtxid=true ↔
    (∃tx∈w.mapWallet,tx.hash=wtxid) ∧ 0≤v.depth wtxid := by
  rw [counts,Bool.and_eq_true,decide_eq_true_iff,Option.isSome_iff_exists]
  refine and_congr_left fun _ => ⟨?_,?_⟩
  · rintro ⟨tx,htx⟩
    exact ⟨tx,mem_of_getWalletTx htx⟩
  · rintro ⟨tx,htx,rfl⟩
    exact ⟨tx,getWalletTx_of_mem htx⟩

/-- A depth of spending beyond a bound comes from a spending transaction. -/
theorem spent_of_depth {range : List Uint256} {N : Nat}
    (h : N<((range.find? (counts v w)).map fun wtxid => (v.depth wtxid).toNat).getD 0) :
    ∃wtxid∈range,counts v w wtxid=true ∧ (N : Int)<v.depth wtxid := by
  cases hfind : range.find? (counts v w) with
  | none =>
    rw [hfind] at h
    exact absurd h (Nat.not_lt_zero N)
  | some wtxid =>
    rw [hfind] at h
    have hlt : N<(v.depth wtxid).toNat := h
    exact ⟨wtxid,List.mem_of_find?_eq_some hfind,List.find?_some hfind,by omega⟩

/-- The checks that a transaction passes before it is collected. -/
structure Checked (v : View) (s : Settings) (w : SpendWallet) (tx : CWalletTx) : Prop where
  notes : recentNote v s w tx=false
  shielded : shieldedParent w tx=false
  outputs : recentOutput v s w tx=false
  transparent : transparentParent w tx=false

/-- What is collected is conflicted, or passed all checks. -/
def Removable (v : View) (s : Settings) (w : SpendWallet) (tx : CWalletTx) : Prop :=
  v.depth tx.hash = -1 ∨ Checked v s w tx

theorem Checked.output_spent (h : Checked v s w tx) {i : Nat} {out : CTxOut}
    (hout : tx.vout[i]?=some out) (hmine : out.mine≠.no) :
    ∃wtxid∈equalRange w.mapTxSpends ⟨tx.hash,i⟩,counts v w wtxid=true ∧
      s.fDeleteTransactionsAfterNBlocks<getSpendDepth v w tx.hash i := by
  have hi : i∈List.range tx.vout.length := by
    rw [List.mem_range]
    exact (List.getElem?_eq_some_iff.mp hout).1
  have houtputs := h.outputs
  rw [recentOutput,List.any_eq_false] at houtputs
  have hno := houtputs i hi
  rw [hout,Option.any_some,Bool.and_eq_true,decide_eq_true_iff,not_and] at hno
  have hdepth := not_le.mp (hno (bne_iff_ne.mpr hmine))
  obtain ⟨wtxid,hrange,hcounts,-⟩ := spent_of_depth hdepth
  exact ⟨wtxid,hrange,hcounts,hdepth⟩

theorem Checked.note_spent (h : Checked v s w tx) {nd : SaplingNoteData}
    (hnd : nd∈tx.mapSaplingNoteData) :
    ∃nullifier,nd.nullifier=some nullifier ∧ isSaplingSpent v w nullifier=true ∧
      s.fDeleteTransactionsAfterNBlocks<getSaplingSpendDepth v w nullifier := by
  have hnotes := h.notes
  rw [recentNote,List.any_eq_false] at hnotes
  have hno := hnotes nd hnd
  cases hnullifier : nd.nullifier with
  | none =>
    rw [hnullifier] at hno
    exact absurd rfl hno
  | some nullifier =>
    rw [hnullifier,Option.all_some,decide_eq_true_iff] at hno
    have hdepth := not_le.mp hno
    obtain ⟨wtxid,hrange,hcounts,-⟩ := spent_of_depth hdepth
    exact ⟨nullifier,rfl,List.any_eq_true.mpr ⟨wtxid,hrange,hcounts⟩,hdepth⟩

/-- A collected transaction that counts spends nothing of a transaction that stays. -/
theorem Removable.not_spending (h : Removable v s w tx) (hdepth : 0≤v.depth tx.hash)
    {parent : CWalletTx} (hparent : parent∈w.mapWallet) (hne : parent.hash≠tx.hash) {n : Nat} :
    (⟨parent.hash,n⟩ : COutPoint)∉tx.vin := by
  intro hmem
  rcases h with hconflict | hchecked
  · omega
  · have htransparent := hchecked.transparent
    rw [transparentParent,List.any_eq_false] at htransparent
    apply htransparent _ hmem
    rw [getWalletTx_of_mem hparent]
    simpa using hne

theorem Removable.not_shielded (hc : Consistent v w) (h : Removable v s w tx)
    (hdepth : 0≤v.depth tx.hash) {parent : CWalletTx} (hparent : parent∈w.mapWallet)
    (hne : parent.hash≠tx.hash) {nd : SaplingNoteData} (hnd : nd∈parent.mapSaplingNoteData)
    {nullifier : Uint256} (hnullifier : nd.nullifier=some nullifier) :
    nullifier∉tx.vShieldedSpend := by
  intro hmem
  rcases h with hconflict | hchecked
  · omega
  · have hshielded := hchecked.shielded
    rw [shieldedParent,List.any_eq_false] at hshielded
    apply hshielded _ hmem
    rw [isSaplingNullifierFromMe,hc.notes parent hparent nd hnd nullifier hnullifier,
      Option.any_some,Option.any_some,getWalletTx_of_mem hparent]
    simpa using hne

end Records

section Deleted

variable {v : View} {s : Settings} {w w' : SpendWallet} {tx : CWalletTx}
  {positions : List (Uint256 × Int)} {removed : List Uint256}

/-- The wallet with new positions and without the removed transactions. -/
structure Deleted (positions : List (Uint256 × Int)) (removed : List Uint256)
    (w w' : SpendWallet) : Prop where
  mapWallet : w'.mapWallet=
    (w.mapWallet.filter fun tx => !removed.contains tx.hash).map (withPosition positions)
  mapTxSpends : w'.mapTxSpends=w.mapTxSpends
  mapTxSaplingNullifiers : w'.mapTxSaplingNullifiers=w.mapTxSaplingNullifiers

theorem Deleted.find (h : Deleted positions removed w w') (hash : Uint256) :
    getWalletTx w' hash=if hash∈removed then none
      else (getWalletTx w hash).map (withPosition positions) := by
  by_cases hremoved : hash∈removed
  · rw [if_pos hremoved,getWalletTx,List.find?_eq_none]
    intro entry hentry
    rw [h.mapWallet] at hentry
    obtain ⟨tx,htx,rfl⟩ := List.mem_map.mp hentry
    have hstays := (List.mem_filter.mp htx).2
    intro hhash
    have hsame : tx.hash=hash := by simpa [withPosition] using hhash
    rw [hsame] at hstays
    simp [hremoved] at hstays
  · rw [if_neg hremoved]
    cases hfind : getWalletTx w hash with
    | none =>
      rw [Option.map_none,getWalletTx,List.find?_eq_none]
      intro entry hentry
      rw [h.mapWallet] at hentry
      obtain ⟨tx,htx,rfl⟩ := List.mem_map.mp hentry
      exact List.find?_eq_none.mp hfind tx (List.mem_filter.mp htx).1
    | some tx =>
      obtain ⟨hmem,rfl⟩ := mem_of_getWalletTx hfind
      have hstays : withPosition positions tx∈w'.mapWallet := by
        rw [h.mapWallet]
        exact List.mem_map_of_mem (List.mem_filter.mpr ⟨hmem,by simpa using hremoved⟩)
      exact getWalletTx_of_mem hstays

theorem Deleted.counts (h : Deleted positions removed w w') (wtxid : Uint256) :
    counts v w' wtxid=(counts v w wtxid && !removed.contains wtxid) := by
  rw [Deletion.counts,Deletion.counts,h.find]
  by_cases hremoved : wtxid∈removed
  · simp [hremoved]
  · simp [hremoved]

/-- A spender of what a remaining transaction has remains. -/
theorem spent_unchanged (h : Deleted positions removed w w') {range : List Uint256}
    (hkept : ∀wtxid∈range,Deletion.counts v w wtxid=true → wtxid∉removed) :
    range.any (Deletion.counts v w')=range.any (Deletion.counts v w) := by
  rw [Bool.eq_iff_iff,List.any_eq_true,List.any_eq_true]
  constructor
  · rintro ⟨wtxid,hrange,hcounts⟩
    rw [h.counts,Bool.and_eq_true] at hcounts
    exact ⟨wtxid,hrange,hcounts.1⟩
  · rintro ⟨wtxid,hrange,hcounts⟩
    refine ⟨wtxid,hrange,?_⟩
    rw [h.counts,hcounts]
    simpa using hkept wtxid hrange hcounts

/-- Everything that is removed may be. -/
def AllRemovable (v : View) (s : Settings) (w : SpendWallet) (removed : List Uint256) : Prop :=
  ∀tx∈w.mapWallet,tx.hash∈removed → Removable v s w tx

theorem isSpent_unchanged (hc : Consistent v w) (h : Deleted positions removed w w')
    (hall : AllRemovable v s w removed) (htx : tx∈w.mapWallet) (hstays : tx.hash∉removed)
    (n : Nat) : isSpent v w' tx.hash n=isSpent v w tx.hash n := by
  rw [isSpent,isSpent,h.mapTxSpends]
  refine spent_unchanged h fun wtxid hrange hcounts hremoved => ?_
  obtain ⟨⟨spender,hspender,rfl⟩,hdepth⟩ := counts_iff.mp hcounts
  have hne : tx.hash≠spender.hash := by
    intro hsame
    rw [hsame] at hstays
    exact hstays hremoved
  exact (hall spender hspender hremoved).not_spending hdepth htx hne
    (hc.spends _ (mem_equalRange.mp hrange) spender hspender rfl)

theorem isSaplingSpent_unchanged (hc : Consistent v w) (h : Deleted positions removed w w')
    (hall : AllRemovable v s w removed) (htx : tx∈w.mapWallet) (hstays : tx.hash∉removed)
    {nd : SaplingNoteData} (hnd : nd∈tx.mapSaplingNoteData) {nullifier : Uint256}
    (hnullifier : nd.nullifier=some nullifier) :
    isSaplingSpent v w' nullifier=isSaplingSpent v w nullifier := by
  rw [isSaplingSpent,isSaplingSpent,h.mapTxSaplingNullifiers]
  refine spent_unchanged h fun wtxid hrange hcounts hremoved => ?_
  obtain ⟨⟨spender,hspender,rfl⟩,hdepth⟩ := counts_iff.mp hcounts
  have hne : tx.hash≠spender.hash := by
    intro hsame
    rw [hsame] at hstays
    exact hstays hremoved
  exact (hall spender hspender hremoved).not_shielded hc hdepth htx hne hnd hnullifier
    (hc.nullifiers _ (mem_equalRange.mp hrange) spender hspender rfl)

/-- An own output of a transaction that an unconfirmed one spends is not removed. -/
theorem parent_not_mine (hc : Consistent v w) (hall : AllRemovable v s w removed)
    (htx : tx∈w.mapWallet) (hdepth : v.depth tx.hash=0) {o : COutPoint} (ho : o∈tx.vin)
    (hremoved : o.hash∈removed) {parent : CWalletTx} (hparent : getWalletTx w o.hash=some parent)
    {out : CTxOut} (hout : parent.vout[o.n]?=some out) : out.mine=.no := by
  by_contra hmine
  obtain ⟨hmem,hhash⟩ := mem_of_getWalletTx hparent
  have hcoin : tx.isCoinBase=false := by
    rw [Bool.eq_false_iff]
    intro hyes
    exact hc.coinBase tx htx hyes o ho parent hmem hhash
  have hparentDepth := hc.parents tx htx hdepth.ge o ho parent hmem hhash
  rw [← hhash] at hremoved
  rcases hall parent hmem hremoved with hconflict | hchecked
  · omega
  · obtain ⟨-,-,-,hrecent⟩ := hchecked.output_spent hout hmine
    obtain ⟨wtxid,hrange,hcounts,hlt⟩ := spent_of_depth hrecent
    obtain ⟨⟨spender,hspender,rfl⟩,hspenderDepth⟩ := counts_iff.mp hcounts
    have hspends := hc.spends _ (mem_equalRange.mp hrange) spender hspender rfl
    have hspent : (⟨parent.hash,o.n⟩ : COutPoint)=o := by
      rw [hhash]
    rw [hspent] at hspends
    have hspenderCoin : spender.isCoinBase=false := by
      rw [Bool.eq_false_iff]
      intro hyes
      exact hc.coinBase spender hspender hyes o hspends parent hmem hhash
    have hsame := hc.single tx htx spender hspender hcoin hspenderCoin hdepth.ge hspenderDepth o ho
      hspends
    rw [← hsame,hdepth] at hlt
    omega

/-- The output that an input spends, where its transaction is in the wallet. -/
def spentOutput (w : SpendWallet) (o : COutPoint) : Option CTxOut :=
  (getWalletTx w o.hash).bind fun parent => parent.vout[o.n]?

/-- An unconfirmed transaction sees the same own outputs. -/
theorem spentOutput_unchanged (hc : Consistent v w) (h : Deleted positions removed w w')
    (hall : AllRemovable v s w removed) (htx : tx∈w.mapWallet) (hdepth : v.depth tx.hash=0)
    {o : COutPoint} (ho : o∈tx.vin) : spentOutput w' o=spentOutput w o ∨
      spentOutput w' o=none ∧ ∀out,spentOutput w o=some out → out.mine=.no := by
  rw [spentOutput,h.find]
  by_cases hremoved : o.hash∈removed
  · right
    rw [if_pos hremoved]
    refine ⟨rfl,fun out hout => ?_⟩
    obtain ⟨parent,hparent,hget⟩ := Option.bind_eq_some_iff.mp hout
    exact parent_not_mine hc hall htx hdepth ho hremoved hparent hget
  · left
    rw [if_neg hremoved,spentOutput]
    cases getWalletTx w o.hash with
    | none => rfl
    | some parent => rfl

theorem getDebit_unchanged (hc : Consistent v w) (h : Deleted positions removed w w')
    (hall : AllRemovable v s w removed) (htx : tx∈w.mapWallet) (hdepth : v.depth tx.hash=0)
    {filter : IsMineType} (hfilter : filter≠.no) : getDebit w' filter tx=getDebit w filter tx := by
  refine congrArg List.sum (List.map_congr_left fun o ho => ?_)
  change ((spentOutput w' o).map _).getD 0=((spentOutput w o).map _).getD 0
  rcases spentOutput_unchanged hc h hall htx hdepth ho with hsame | ⟨hnone,hmine⟩
  · rw [hsame]
  · rw [hnone]
    cases hout : spentOutput w o with
    | none => rfl
    | some out =>
      have hno : out.mine≠filter := by
        rw [hmine out hout]
        exact hfilter.symm
      rw [Option.map_none,Option.map_some,if_neg hno]
      rfl

theorem isTrusted_unchanged (hc : Consistent v w) (h : Deleted positions removed w w')
    (hall : AllRemovable v s w removed) (htx : tx∈w.mapWallet) :
    isTrusted v w' tx=isTrusted v w tx := by
  unfold isTrusted
  by_cases hdepth : v.depth tx.hash=0
  · have hfrom : isFromMe w' tx=isFromMe w tx := by
      rw [isFromMe,isFromMe,getDebit_unchanged hc h hall htx hdepth (by decide),
        getDebit_unchanged hc h hall htx hdepth (by decide)]
    have hparents : (tx.vin.all fun o => (spentOutput w' o).any fun out => out.mine == .spendable)=
        tx.vin.all fun o => (spentOutput w o).any fun out => out.mine == .spendable := by
      have hone : ∀o∈tx.vin,((spentOutput w' o).any fun out => out.mine == .spendable)=
          (spentOutput w o).any fun out => out.mine == .spendable := by
        intro o ho
        rcases spentOutput_unchanged hc h hall htx hdepth ho with hsame | ⟨hnone,hmine⟩
        · rw [hsame]
        · rw [hnone]
          cases hout : spentOutput w o with
          | none => rfl
          | some out =>
            rw [Option.any_none,Option.any_some,hmine out hout]
            rfl
      rw [Bool.eq_iff_iff,List.all_eq_true,List.all_eq_true]
      exact ⟨fun hall o ho => (hone o ho) ▸ hall o ho,fun hall o ho => (hone o ho).symm ▸ hall o ho⟩
    change (_ && (_ || _ && _ && isFromMe w' tx && tx.vin.all fun o =>
      (spentOutput w' o).any fun out => out.mine == .spendable))=_
    rw [hfrom,hparents]
    rfl
  · by_cases hlow : 1≤v.depth tx.hash
    · simp [hlow]
    · have hneg : ¬0≤v.depth tx.hash := by omega
      simp [hlow,hneg]

end Deleted

section Balance

variable {v : View} {s : Settings} {w w' : SpendWallet} {tx : CWalletTx}
  {positions : List (Uint256 × Int)} {removed : List Uint256}

theorem sum_filter_of_zero {T : Type} (p : T → Bool) (f : T → Int) (l : List T)
    (hzero : ∀a∈l,p a=false → f a=0) : ((l.filter p).map f).sum=(l.map f).sum := by
  induction l with
  | nil => rfl
  | cons a l ih =>
    rw [List.forall_mem_cons] at hzero
    by_cases hp : p a=true
    · rw [List.filter_cons_of_pos hp,List.map_cons,List.map_cons,List.sum_cons,List.sum_cons,
        ih hzero.2]
    · rw [List.filter_cons_of_neg hp,List.map_cons,List.sum_cons,ih hzero.2,
        hzero.1 (Bool.eq_false_iff.mpr hp),Int.zero_add]

theorem flatMap_filter_of_nil {T U : Type} (p : T → Bool) (f : T → List U) (l : List T)
    (hnil : ∀a∈l,p a=false → f a=[]) : (l.filter p).flatMap f=l.flatMap f := by
  induction l with
  | nil => rfl
  | cons a l ih =>
    rw [List.forall_mem_cons] at hnil
    by_cases hp : p a=true
    · rw [List.filter_cons_of_pos hp,List.flatMap_cons,List.flatMap_cons,ih hnil.2]
    · rw [List.filter_cons_of_neg hp,List.flatMap_cons,ih hnil.2,
        hnil.1 (Bool.eq_false_iff.mpr hp),List.nil_append]

theorem getAvailableCredit_unchanged (hc : Consistent v w) (h : Deleted positions removed w w')
    (hall : AllRemovable v s w removed) (htx : tx∈w.mapWallet) (hstays : tx.hash∉removed) :
    getAvailableCredit v w' tx=getAvailableCredit v w tx := by
  have hspent : ∀i,isSpent v w' tx.hash i=isSpent v w tx.hash i :=
    isSpent_unchanged hc h hall htx hstays
  unfold getAvailableCredit
  simp only [hspent]

/-- What is removed has nothing to spend. -/
theorem removed_worthless (hall : AllRemovable v s w removed) (htx : tx∈w.mapWallet)
    (hremoved : tx.hash∈removed) :
    (if isTrusted v w tx=true then getAvailableCredit v w tx else 0)=0 := by
  rcases hall tx htx hremoved with hconflict | hchecked
  · have hno : ¬isTrusted v w tx=true := by
      rw [isTrusted,hconflict]
      simp
    rw [if_neg hno]
  · have hcredit : getAvailableCredit v w tx=0 := by
      unfold getAvailableCredit
      split_ifs
      · rfl
      · apply List.sum_eq_zero
        intro value hvalue
        obtain ⟨i,hi,rfl⟩ := List.mem_map.mp hvalue
        split_ifs with hspent
        · rfl
        · cases hout : tx.vout[i]? with
          | none => rfl
          | some out =>
            rw [Option.map_some,Option.getD_some]
            split_ifs with hmine
            · exfalso
              obtain ⟨wtxid,hrange,hcounts,-⟩ := hchecked.output_spent hout (by rw [hmine]; decide)
              exact hspent (List.any_eq_true.mpr ⟨wtxid,hrange,hcounts⟩)
            · rfl
    rw [hcredit]
    split_ifs <;> rfl

theorem getBalance_unchanged (hc : Consistent v w) (h : Deleted positions removed w w')
    (hall : AllRemovable v s w removed) : getBalance v w'=getBalance v w := by
  unfold getBalance
  rw [h.mapWallet,List.map_map]
  have hvalue : ∀tx∈w.mapWallet.filter fun tx => !removed.contains tx.hash,
      (if isTrusted v w' tx=true then getAvailableCredit v w' tx else 0)=
        if isTrusted v w tx=true then getAvailableCredit v w tx else 0 := by
    intro tx htx
    obtain ⟨hmem,hstays⟩ := List.mem_filter.mp htx
    rw [isTrusted_unchanged hc h hall hmem,
      getAvailableCredit_unchanged hc h hall hmem (by simpa using hstays)]
  calc ((w.mapWallet.filter fun tx => !removed.contains tx.hash).map fun tx =>
          if isTrusted v w' tx=true then getAvailableCredit v w' tx else 0).sum
      =((w.mapWallet.filter fun tx => !removed.contains tx.hash).map fun tx =>
          if isTrusted v w tx=true then getAvailableCredit v w tx else 0).sum :=
        congrArg List.sum (List.map_congr_left hvalue)
    _=_ := by
        apply sum_filter_of_zero
        intro tx htx hremoved
        exact removed_worthless hall htx (by simpa using hremoved)

theorem spendableNotes_unchanged (hc : Consistent v w) (h : Deleted positions removed w w')
    (hall : AllRemovable v s w removed) (minDepth : Nat)
    (admits : Uint256 → SaplingNoteData → Bool) :
    spendableNotes v w' minDepth admits=spendableNotes v w minDepth admits := by
  unfold spendableNotes
  rw [h.mapWallet,List.flatMap_map]
  have hnotes : ∀tx∈w.mapWallet.filter fun tx => !removed.contains tx.hash,
      (tx.mapSaplingNoteData.filter fun nd => admits tx.hash nd &&
        !nd.nullifier.any (isSaplingSpent v w'))=
      tx.mapSaplingNoteData.filter fun nd => admits tx.hash nd &&
        !nd.nullifier.any (isSaplingSpent v w) := by
    intro tx htx
    obtain ⟨hmem,hstays⟩ := List.mem_filter.mp htx
    apply List.filter_congr
    intro nd hnd
    cases hnullifier : nd.nullifier with
    | none => rfl
    | some nullifier =>
      rw [Option.any_some,Option.any_some,
        isSaplingSpent_unchanged hc h hall hmem (by simpa using hstays) hnd hnullifier]
  rw [← flatMap_filter_of_nil (fun tx : CWalletTx => !removed.contains tx.hash) _ w.mapWallet]
  · apply List.flatMap_congr
    intro tx htx
    exact congrArg (fun notes : List SaplingNoteData =>
      if v.isFinal tx.hash=true ∧ v.blocksToMaturity tx.hash≤0 ∧
          (minDepth : Int)≤v.depth tx.hash then
        notes.map fun nd => (⟨tx.hash,nd.n⟩ : SaplingOutPoint)
      else []) (hnotes tx htx)
  · intro tx htx hremoved
    rcases hall tx htx (by simpa using hremoved) with hconflict | hchecked
    · rw [if_neg]
      rintro ⟨-,-,hdepth⟩
      omega
    · split_ifs
      · rw [List.map_eq_nil_iff,List.filter_eq_nil_iff]
        intro nd hnd
        obtain ⟨nullifier,hnullifier,hspent,-⟩ := hchecked.note_spent hnd
        rw [hnullifier,Option.any_some,hspent]
        simp
      · rfl

end Balance

section Collected

variable {v : View} {s : Settings} {w : SpendWallet}

theorem mem_collect {t : Collecting} {hash h : Uint256} (hmem : h∈(t.collect hash).removeTxs) :
    h∈t.removeTxs ∨ h=hash := by
  unfold Collecting.collect at hmem
  split_ifs at hmem
  · rcases List.mem_append.mp hmem with hold | hnew
    · exact Or.inl hold
    · exact Or.inr (List.mem_singleton.mp hnew)
  · exact Or.inl hmem

theorem collectTx_removable (size : Nat) {t : Collecting} {tx : CWalletTx} {h : Uint256}
    (hmem : h∈(collectTx v s w size t tx).removeTxs) :
    h∈t.removeTxs ∨ h=tx.hash ∧ Removable v s w tx := by
  unfold collectTx at hmem
  dsimp only at hmem
  split_ifs at hmem with hrecent hconflict hdelete hnotes hshielded houtputs hparent hkeep
  · exact Or.inl hmem
  · rcases mem_collect hmem with hold | rfl
    · exact Or.inl hold
    · exact Or.inr ⟨rfl,Or.inl hconflict⟩
  · exact Or.inl hmem
  · exact Or.inl hmem
  · exact Or.inl hmem
  · exact Or.inl hmem
  · exact Or.inl hmem
  · exact Or.inl hmem
  · rcases mem_collect hmem with hold | rfl
    · exact Or.inl hold
    · exact Or.inr ⟨rfl,Or.inr ⟨Bool.eq_false_iff.mpr hnotes,Bool.eq_false_iff.mpr hshielded,
        Bool.eq_false_iff.mpr houtputs,Bool.eq_false_iff.mpr hparent⟩⟩

theorem collected_removable (size : Nat) (txs : List CWalletTx) (t : Collecting) {h : Uint256}
    (hmem : h∈(txs.foldl (collectTx v s w size) t).removeTxs) :
    h∈t.removeTxs ∨ ∃tx∈txs,h=tx.hash ∧ Removable v s w tx := by
  induction txs generalizing t with
  | nil => exact Or.inl hmem
  | cons tx txs ih =>
    rw [List.foldl_cons] at hmem
    rcases ih (collectTx v s w size t tx) hmem with hold | ⟨tx',htx',hremovable⟩
    · rcases collectTx_removable size hold with hbefore | hnow
      · exact Or.inl hbefore
      · exact Or.inr ⟨tx,List.mem_cons_self,hnow⟩
    · exact Or.inr ⟨tx',List.mem_cons_of_mem _ htx',hremovable⟩

theorem deleteTransactions_spec (removeTxs : List Uint256) (w : SpendWallet) :
    ∃removed : List Uint256,(∀h∈removed,h∈removeTxs) ∧
      (deleteTransactions removeTxs w).mapWallet=
        w.mapWallet.filter (fun tx => !removed.contains tx.hash) ∧
      (deleteTransactions removeTxs w).mapTxSpends=w.mapTxSpends ∧
      (deleteTransactions removeTxs w).mapTxSaplingNullifiers=w.mapTxSaplingNullifiers := by
  induction removeTxs generalizing w with
  | nil => exact ⟨[],fun h hmem => absurd hmem List.not_mem_nil,by simp [deleteTransactions],rfl,rfl⟩
  | cons hash removeTxs ih =>
    rw [deleteTransactions]
    split_ifs
    · obtain ⟨removed,hsub,hwallet,hspends,hnullifiers⟩ := ih (eraseTx w hash)
      refine ⟨hash::removed,?_,?_,hspends,hnullifiers⟩
      · intro h hmem
        rcases List.mem_cons.mp hmem with rfl | hmem
        · exact List.mem_cons_self
        · exact List.mem_cons_of_mem _ (hsub h hmem)
      · rw [hwallet,eraseTx,List.filter_filter]
        apply List.filter_congr
        intro tx _
        by_cases hsame : tx.hash=hash <;> simp [hsame]
    · exact ⟨[],fun h hmem => absurd hmem List.not_mem_nil,by simp,rfl,rfl⟩

end Collected

section Safety

variable {v : View} {s : Settings} {w w' : SpendWallet} {tx : CWalletTx}

/-- What a deletion leaves is what it was, and what it takes is spent for long. -/
structure Safe (v : View) (s : Settings) (w w' : SpendWallet) : Prop where
  outputs : ∀tx∈w.mapWallet,getWalletTx w' tx.hash=none → 0≤v.depth tx.hash →
    ∀(i : Nat) (out : CTxOut),tx.vout[i]?=some out → out.mine≠.no →
      isSpent v w tx.hash i=true ∧
        s.fDeleteTransactionsAfterNBlocks<getSpendDepth v w tx.hash i
  notes : ∀tx∈w.mapWallet,getWalletTx w' tx.hash=none → 0≤v.depth tx.hash →
    ∀nd∈tx.mapSaplingNoteData,∃nullifier,nd.nullifier=some nullifier ∧
      isSaplingSpent v w nullifier=true ∧
        s.fDeleteTransactionsAfterNBlocks<getSaplingSpendDepth v w nullifier
  spent : ∀tx∈w'.mapWallet,∀n,isSpent v w' tx.hash n=isSpent v w tx.hash n
  saplingSpent : ∀tx∈w'.mapWallet,∀nd∈tx.mapSaplingNoteData,∀nullifier,
    nd.nullifier=some nullifier → isSaplingSpent v w' nullifier=isSaplingSpent v w nullifier
  balance : getBalance v w'=getBalance v w
  spendable : ∀(minDepth : Nat) (admits : Uint256 → SaplingNoteData → Bool),
    spendableNotes v w' minDepth admits=spendableNotes v w minDepth admits

theorem safe_of_deleted {positions : List (Uint256 × Int)} {removed : List Uint256}
    (hc : Consistent v w) (h : Deleted positions removed w w')
    (hall : AllRemovable v s w removed) : Safe v s w w' := by
  have hchecked : ∀tx∈w.mapWallet,getWalletTx w' tx.hash=none → 0≤v.depth tx.hash →
      Checked v s w tx := by
    intro tx htx hnone hdepth
    have hremoved : tx.hash∈removed := by
      by_contra hstays
      rw [h.find,if_neg hstays,getWalletTx_of_mem htx] at hnone
      cases hnone
    rcases hall tx htx hremoved with hconflict | hchecked
    · omega
    · exact hchecked
  have hremaining : ∀entry∈w'.mapWallet,∃tx∈w.mapWallet,tx.hash∉removed ∧
      entry=withPosition positions tx := by
    intro entry hentry
    rw [h.mapWallet] at hentry
    obtain ⟨tx,htx,rfl⟩ := List.mem_map.mp hentry
    obtain ⟨hmem,hstays⟩ := List.mem_filter.mp htx
    exact ⟨tx,hmem,by simpa using hstays,rfl⟩
  refine ⟨?_,?_,?_,?_,getBalance_unchanged hc h hall,spendableNotes_unchanged hc h hall⟩
  · intro tx htx hnone hdepth i out hout hmine
    obtain ⟨wtxid,hrange,hcounts,hdeep⟩ :=
      (hchecked tx htx hnone hdepth).output_spent hout hmine
    exact ⟨List.any_eq_true.mpr ⟨wtxid,hrange,hcounts⟩,hdeep⟩
  · intro tx htx hnone hdepth nd hnd
    exact (hchecked tx htx hnone hdepth).note_spent hnd
  · intro entry hentry n
    obtain ⟨tx,htx,hstays,rfl⟩ := hremaining entry hentry
    exact isSpent_unchanged hc h hall htx hstays n
  · intro entry hentry nd hnd nullifier hnullifier
    obtain ⟨tx,htx,hstays,rfl⟩ := hremaining entry hentry
    exact isSaplingSpent_unchanged hc h hall htx hstays hnd hnullifier

/-- New positions change none of the checks. -/
theorem removable_repositioned {positions : List (Uint256 × Int)}
    (h : Deleted positions [] w w')
    (hmap : w'.mapSaplingNullifiersToNotes=w.mapSaplingNullifiersToNotes)
    (hremovable : Removable v s w' tx) : Removable v s w tx := by
  have hcounts : counts v w'=counts v w := by
    funext wtxid
    rw [h.counts]
    simp
  have hthere : ∀hash,(getWalletTx w' hash).isSome=(getWalletTx w hash).isSome := by
    intro hash
    rw [h.find,if_neg List.not_mem_nil,Option.isSome_map]
  rcases hremovable with hconflict | hchecked
  · exact Or.inl hconflict
  · obtain ⟨hnotes,hshielded,houtputs,hparent⟩ := hchecked
    unfold recentNote getSaplingSpendDepth at hnotes
    unfold shieldedParent isSaplingNullifierFromMe at hshielded
    unfold recentOutput getSpendDepth at houtputs
    unfold transparentParent at hparent
    simp only [hcounts,hthere,hmap,h.mapTxSpends,h.mapTxSaplingNullifiers] at *
    exact Or.inr ⟨hnotes,hshielded,houtputs,hparent⟩

theorem deleteWalletTransactions_safe (v : View) (s : Settings) (pindex : Bool) (w : SpendWallet)
    (hc : Consistent v w) : Safe v s w (deleteWalletTransactions v s pindex w) := by
  have hkeep : ∀positions : List (Uint256 × Int),∀l : List CWalletTx,
      l.map (withPosition positions)=
        (l.filter fun tx => !([] : List Uint256).contains tx.hash).map (withPosition positions) := by
    intro positions l
    have hself : (l.filter fun tx => !([] : List Uint256).contains tx.hash)=l :=
      List.filter_eq_self.mpr fun tx _ => rfl
    rw [hself]
  unfold deleteWalletTransactions
  split_ifs
  · dsimp only
    generalize hupdated : ({w with
      toCWallet := updateWalletTransactionOrder w.toCWallet
        (reorderWalletTransactions v.toChain w.mapWallet 0).mapSorted
        (decide ((reorderWalletTransactions v.toChain w.mapWallet 0).mapSorted.length*10 <
          (reorderWalletTransactions v.toChain w.mapWallet 0).maxOrderPos))} : SpendWallet)=updated
    obtain ⟨positions,hpositions⟩ : ∃positions,Deleted positions [] w updated := by
      rw [← hupdated]
      exact ⟨_,hkeep _ _,rfl,rfl⟩
    have hmap : updated.mapSaplingNullifiersToNotes=w.mapSaplingNullifiersToNotes := by
      rw [← hupdated]
    generalize hcollected : ((reorderWalletTransactions v.toChain w.mapWallet 0).mapSorted.map
      Prod.snd).foldl (collectTx v s updated
        (reorderWalletTransactions v.toChain w.mapWallet 0).mapSorted.length) ⟨0,0,0,[]⟩=collected
    obtain ⟨removed,hsub,hwallet,hspends,hnullifiers⟩ :=
      deleteTransactions_spec collected.removeTxs updated
    have hdeleted : Deleted positions removed w
        (deleteTransactions collected.removeTxs updated) := by
      refine ⟨?_,hspends.trans hpositions.mapTxSpends,
        hnullifiers.trans hpositions.mapTxSaplingNullifiers⟩
      rw [hwallet,hpositions.mapWallet,← hkeep,List.filter_map]
      rfl
    apply safe_of_deleted hc hdeleted
    intro tx htx hremoved
    have hmem := hsub _ hremoved
    rw [← hcollected] at hmem
    rcases collected_removable _ _ _ hmem with hno | ⟨tx',htx',hhash,hremovable⟩
    · cases hno
    · obtain ⟨e,he,rfl⟩ := List.mem_map.mp htx'
      have hsorted := (reorder_sorted (c := v.toChain) w.mapWallet 0).mem e he
      have hsame : tx=e.2 := List.inj_on_of_nodup_map w.nodup htx hsorted hhash
      rw [hsame]
      exact removable_repositioned hpositions hmap hremovable
  · have hdeleted : Deleted [] [] w w := by
      refine ⟨?_,rfl,rfl⟩
      rw [← hkeep]
      have hid : withPosition []=id := by
        funext tx
        rfl
      rw [hid,List.map_id]
    exact safe_of_deleted hc hdeleted fun tx _ hno => absurd hno List.not_mem_nil

/-- A chain of height 200. -/
def twoHundred : View where
  tipHeight := 200
  depth hash := if hash=1 then 100 else 50
  height hash := if hash=1 then 101 else 151
  height_le hash := by split_ifs <;> omega
  isFinal _ := true
  blocksToMaturity _ := 0
  bSpendZeroConfChange := true

/-- The only output of the first transaction is spent by the second, which has one of its own. -/
def spentOnce : SpendWallet where
  mapWallet := [⟨1,false,[],[⟨500,.spendable⟩],[],[],3,0⟩,
    ⟨2,false,[⟨1,0⟩],[⟨400,.spendable⟩],[],[],5,1⟩]
  nodup := by decide
  nOrderPosNext := 2
  mapTxSpends := [(⟨1,0⟩,2)]
  mapTxSaplingNullifiers := []
  mapSaplingNullifiersToNotes _ := none

/-- The first transaction is deleted, and the balance stays. -/
theorem spent_parent_deleted :
    (deleteWalletTransactions twoHundred ⟨true,true,30,1,false⟩ true spentOnce).mapWallet.map
        CWalletTx.hash=[2] ∧
      getBalance twoHundred
        (deleteWalletTransactions twoHundred ⟨true,true,30,1,false⟩ true spentOnce)=400 := by
  have hnotes : ∀tx∈spentOnce.mapWallet,tx.mapSaplingNoteData=[] := by decide +kernel
  have hconsistent : Consistent twoHundred spentOnce := by
    refine ⟨by decide +kernel,by decide +kernel,?_,?_,by decide +kernel,by decide +kernel,
      by decide +kernel⟩
    · intro e he
      cases he
    · intro tx htx nd hnd
      rw [hnotes tx htx] at hnd
      cases hnd
  have hbalance : getBalance twoHundred spentOnce=400 := by decide +kernel
  have hsafe := deleteWalletTransactions_safe twoHundred ⟨true,true,30,1,false⟩ true spentOnce
    hconsistent
  exact ⟨by decide +kernel,hsafe.balance.trans hbalance⟩

end Safety

end Zdeex.Wallet.Positions.Deletion
