import Mathlib.Logic.Function.Basic
import Zdeex.Block.Transaction
import Zdeex.Framework.Run

namespace Zdeex.Wallet

open Zdeex.Block
open Zdeex.Framework

/-- The values of `isminetype` that `IsMine` returns. -/
inductive IsMineType where
  | no
  | watchOnly
  | spendable
  deriving DecidableEq,Repr

/-- What transactions that spend the same thing share. -/
structure MetaData where
  mapValue : List (String × String)
  vOrderForm : List (String × String)
  nTimeSmart : Nat
  fFromMe : Bool
  strFromAccount : String
  deriving DecidableEq

structure CWalletTx where
  tx : CTransaction
  hashBlock : Uint256
  nIndex : Int
  vMerkleBranch : List Uint256
  data : MetaData
  nTimeReceived : Nat
  nOrderPos : Int
  deriving DecidableEq

def CWalletTx.getHash (wtx : CWalletTx) : Uint256 := wtx.tx.hash

/-- The empty constructor of a transaction. -/
def CTransaction.null : CTransaction := ⟨0,false,1,0,[],[],0,0,[],[],[]⟩

/-- What the subscript operator of `mapWallet` puts where nothing was. -/
def CWalletTx.init : CWalletTx := ⟨CTransaction.null,0,-1,[],⟨[],[],0,false,""⟩,0,-1⟩

/-- The wallet, and the pairs (from, to) between which the last call copied metadata. -/
structure CWallet where
  mapWallet : Uint256 → Option CWalletTx
  mapTxSpends : List (COutPoint × Uint256)
  mapTxSaplingNullifiers : List (Uint256 × Uint256)
  nOrderPosNext : Int
  copies : List (Uint256 × Uint256)

def CWallet.empty : CWallet := ⟨fun _ => none,[],[],0,[]⟩

section SyncMetaData

def INT_MAX : Int := 2^31-1

/-- `mapWallet[hash]` -/
def subscript (m : Uint256 → Option CWalletTx) (hash : Uint256) :
    (Uint256 → Option CWalletTx) × CWalletTx :=
  match m hash with
  | some wtx => (m,wtx)
  | none => (Function.update m hash (some .init),.init)

/-- The first loop: the smallest position, read as an `int`, and whose it is. -/
def findOldest : List Uint256 → (Uint256 → Option CWalletTx) → Int → Option Uint256 →
    (Uint256 → Option CWalletTx) × Option Uint256
  | [],m,_,copyFrom => (m,copyFrom)
  | hash::range,m,nMinOrderPos,copyFrom =>
      let r := subscript m hash
      let n := r.2.nOrderPos.bmod (2^32)
      if n<nMinOrderPos then findOldest range r.1 n (some hash)
      else findOldest range r.1 nMinOrderPos copyFrom

/-- The second loop; the third component lists the copies. -/
def copyData (copyFrom : Uint256) : List Uint256 → (Uint256 → Option CWalletTx) →
    (Uint256 → Option CWalletTx) × List (Uint256 × Uint256)
  | [],m => (m,[])
  | hash::range,m =>
      let copyTo := subscript m hash
      if copyFrom=hash then copyData copyFrom range copyTo.1
      else
        let source := subscript copyTo.1 copyFrom
        let r := copyData copyFrom range
          (Function.update source.1 hash (some {copyTo.2 with data := source.2.data}))
        (r.1,(copyFrom,hash)::r.2)

/-- `none` is the access through a null pointer when no position was small enough. -/
def syncMetaData (range : List Uint256) (w : CWallet) : Option CWallet :=
  let r := findOldest range w.mapWallet INT_MAX none
  match r.2 with
  | none => none
  | some copyFrom =>
      let c := copyData copyFrom range r.1
      some {w with mapWallet := c.1,copies := w.copies++c.2}

/-- The values of a key, in the order of insertion. -/
def equalRange {T : Type} [DecidableEq T] (m : List (T × Uint256)) (key : T) : List Uint256 :=
  (m.filter fun p => p.1==key).map Prod.snd

def addToTransparentSpends (outpoint : COutPoint) (wtxid : Uint256) (w : CWallet) :
    Option CWallet :=
  let mapTxSpends := w.mapTxSpends++[(outpoint,wtxid)]
  syncMetaData (equalRange mapTxSpends outpoint) {w with mapTxSpends}

def addToSaplingSpends (nullifier wtxid : Uint256) (w : CWallet) : Option CWallet :=
  let mapTxSaplingNullifiers := w.mapTxSaplingNullifiers++[(nullifier,wtxid)]
  syncMetaData (equalRange mapTxSaplingNullifiers nullifier) {w with mapTxSaplingNullifiers}

/-- One after the other, until one fails. -/
def each {T : Type} (f : T → CWallet → Option CWallet) : List T → CWallet → Option CWallet
  | [],w => some w
  | x::xs,w => (f x w).bind (each f xs)

def addToSpends (wtxid : Uint256) (w : CWallet) : Option CWallet :=
  match w.mapWallet wtxid with
  | none => none
  | some thisTx =>
      if thisTx.tx.isCoinBase then some w
      else
        (each (fun txin => addToTransparentSpends txin.prevout wtxid) thisTx.tx.vin w).bind
          (each (fun spend => addToSaplingSpends spend.nullifier wtxid) thisTx.tx.vShieldedSpend)

end SyncMetaData

section Calls

/-- A call: adding a transaction that is loaded, or a live one at a time and with the
smart time that the ordered items give it, and the two ways of erasing. -/
inductive Call where
  | load (wtxIn : CWalletTx)
  | live (wtxIn : CWalletTx) (now smartTime : Nat)
  | eraseFromWallet (hash : Uint256)
  | deleteTransactions (removeTxs : List Uint256)

/-- `AddToWallet` while the wallet is loaded. -/
def addLoaded (wtxIn : CWalletTx) (w : CWallet) : Option CWallet :=
  addToSpends wtxIn.getHash
    {w with mapWallet := Function.update w.mapWallet wtxIn.getHash (some wtxIn)}

/-- What is taken over when the transaction is there already. -/
def merge (wtxIn wtx : CWalletTx) : CWalletTx :=
  let wtx := if !wtxIn.hashBlock.isNull && wtxIn.hashBlock≠wtx.hashBlock then
    {wtx with hashBlock := wtxIn.hashBlock} else wtx
  let wtx := if wtxIn.nIndex≠ -1 && (wtxIn.vMerkleBranch≠wtx.vMerkleBranch ||
      wtxIn.nIndex≠wtx.nIndex) then
    {wtx with vMerkleBranch := wtxIn.vMerkleBranch,nIndex := wtxIn.nIndex} else wtx
  if wtxIn.data.fFromMe && wtxIn.data.fFromMe≠wtx.data.fFromMe then
    {wtx with data := {wtx.data with fFromMe := wtxIn.data.fFromMe}} else wtx

def addLive (wtxIn : CWalletTx) (now smartTime : Nat) (w : CWallet) : Option CWallet :=
  match w.mapWallet wtxIn.getHash with
  | some wtx =>
      some {w with mapWallet :=
        Function.update w.mapWallet wtxIn.getHash (some (merge wtxIn wtx))}
  | none =>
      let wtx := {wtxIn with
        nTimeReceived := now
        nOrderPos := w.nOrderPosNext
        data := {wtxIn.data with nTimeSmart := smartTime}}
      addToSpends wtxIn.getHash {w with
        mapWallet := Function.update w.mapWallet wtxIn.getHash (some wtx)
        nOrderPosNext := w.nOrderPosNext+1}

def eraseFromWallet (fFileBacked : Bool) (hash : Uint256) (w : CWallet) : CWallet :=
  if fFileBacked then {w with mapWallet := Function.update w.mapWallet hash none} else w

/-- Stops at the first hash that is not there. -/
def deleteTransactions : List Uint256 → CWallet → CWallet
  | [],w => w
  | hash::removeTxs,w =>
      if (w.mapWallet hash).isSome then
        deleteTransactions removeTxs {w with mapWallet := Function.update w.mapWallet hash none}
      else w

def step (fFileBacked : Bool) (w : CWallet) (call : Call) : Option CWallet :=
  let w := {w with copies := []}
  match call with
  | .load wtxIn => addLoaded wtxIn w
  | .live wtxIn now smartTime => addLive wtxIn now smartTime w
  | .eraseFromWallet hash => some (eraseFromWallet fFileBacked hash w)
  | .deleteTransactions removeTxs => some (deleteTransactions removeTxs w)

end Calls

section Present

variable {m : Uint256 → Option CWalletTx} {w w' : CWallet}

/-- The same keys, and under them the same transactions. -/
def SameTxs (m m' : Uint256 → Option CWalletTx) : Prop :=
  ∀h,(m' h).map CWalletTx.tx=(m h).map CWalletTx.tx

theorem SameTxs.isSome {m m' : Uint256 → Option CWalletTx} (hm : SameTxs m m')
    (h : Uint256) : (m' h).isSome=(m h).isSome := by
  have hh := congrArg Option.isSome (hm h)
  simpa using hh

theorem SameTxs.trans {m₁ m₂ m₃ : Uint256 → Option CWalletTx} (h₁ : SameTxs m₁ m₂)
    (h₂ : SameTxs m₂ m₃) : SameTxs m₁ m₃ :=
  fun h => (h₂ h).trans (h₁ h)

/-- Metadata written over an entry. -/
theorem SameTxs.update {h : Uint256} {wtx : CWalletTx} (hm : m h=some wtx) (data : MetaData) :
    SameTxs m (Function.update m h (some {wtx with data})) := by
  intro k
  by_cases hk : k=h
  · subst hk
    simp [hm]
  · simp [Function.update_of_ne hk]

theorem subscript_present {h : Uint256} {wtx : CWalletTx} (hm : m h=some wtx) :
    subscript m h=(m,wtx) := by
  unfold subscript
  rw [hm]

theorem findOldest_present (range : List Uint256) (hrange : ∀h∈range,(m h).isSome) (n : Int)
    (copyFrom : Option Uint256) :
    (findOldest range m n copyFrom).1=m ∧
      ∀h,(findOldest range m n copyFrom).2=some h → copyFrom=some h ∨ h∈range := by
  induction range generalizing n copyFrom with
  | nil => exact ⟨rfl,fun h hh => .inl hh⟩
  | cons k range ih =>
    obtain ⟨wtx,hwtx⟩ := Option.isSome_iff_exists.mp (hrange k (by simp))
    have hrest : ∀h∈range,(m h).isSome := fun h hh => hrange h (by simp [hh])
    simp only [findOldest,subscript_present hwtx]
    split_ifs with hlt
    · obtain ⟨hmap,hfrom⟩ := ih hrest (wtx.nOrderPos.bmod (2^32)) (some k)
      refine ⟨hmap,fun h hh => .inr ?_⟩
      rcases hfrom h hh with heq | hmem
      · simp [Option.some.inj heq]
      · simp [hmem]
    · obtain ⟨hmap,hfrom⟩ := ih hrest n copyFrom
      refine ⟨hmap,fun h hh => ?_⟩
      rcases hfrom h hh with heq | hmem
      · exact .inl heq
      · exact .inr (by simp [hmem])

theorem copyData_present (copyFrom : Uint256) (range : List Uint256)
    (hfrom : (m copyFrom).isSome) (hrange : ∀h∈range,(m h).isSome) :
    SameTxs m (copyData copyFrom range m).1 ∧
      ∀p∈(copyData copyFrom range m).2,p.1=copyFrom := by
  induction range generalizing m with
  | nil => exact ⟨fun _ => rfl,by simp [copyData]⟩
  | cons k range ih =>
    obtain ⟨wtx,hwtx⟩ := Option.isSome_iff_exists.mp (hrange k (by simp))
    obtain ⟨source,hsource⟩ := Option.isSome_iff_exists.mp hfrom
    have hrest : ∀h∈range,(m h).isSome := fun h hh => hrange h (by simp [hh])
    simp only [copyData,subscript_present hwtx,subscript_present hsource]
    split_ifs with heq
    · exact ih hfrom hrest
    · have hsame := SameTxs.update hwtx source.data
      obtain ⟨htxs,hcopies⟩ := ih ((hsame.isSome copyFrom).trans hfrom)
        (fun h hh => (hsame.isSome h).trans (hrest h hh))
      refine ⟨hsame.trans htxs,fun p hp => ?_⟩
      rcases List.mem_cons.mp hp with rfl | hp
      · rfl
      · exact hcopies p hp

/-- Nothing appears and no transaction changes when the whole range is there, and the
source of the copies is in the range. -/
theorem syncMetaData_present {range : List Uint256} (hrange : ∀h∈range,(w.mapWallet h).isSome)
    (hsync : syncMetaData range w=some w') :
    ∃m copies,w'={w with mapWallet := m,copies := w.copies++copies} ∧
      SameTxs w.mapWallet m ∧ ∀p∈copies,p.1∈range := by
  obtain ⟨hmap,hfrom⟩ := findOldest_present range hrange INT_MAX none
  unfold syncMetaData at hsync
  rcases hr : (findOldest range w.mapWallet INT_MAX none).2 with _ | copyFrom
  · simp [hr] at hsync
  · have hmem : copyFrom∈range := (hfrom copyFrom hr).resolve_left (by simp)
    simp only [hr,hmap,Option.some.injEq] at hsync
    obtain ⟨htxs,hcopies⟩ := copyData_present copyFrom range (hrange copyFrom hmem) hrange
    exact ⟨_,_,hsync.symm,htxs,fun p hp => hcopies p hp ▸ hmem⟩

/-- What every item keeps, the loop keeps. -/
theorem each_keeps {T : Type} {f : T → CWallet → Option CWallet} {I : CWallet → Prop}
    {xs : List T} (hf : ∀x∈xs,∀w w',I w → f x w=some w' → I w') (heach : each f xs w=some w')
    (hI : I w) : I w' := by
  induction xs generalizing w with
  | nil =>
    obtain rfl := Option.some.inj heach
    exact hI
  | cons x xs ih =>
    rw [each,Option.bind_eq_some_iff] at heach
    obtain ⟨w₁,h₁,hrest⟩ := heach
    exact ih (fun y hy => hf y (by simp [hy])) hrest (hf x (by simp) w w₁ hI h₁)

end Present

section Adding

variable {tx : CTransaction} {w₀ w w' : CWallet} {wtxid : Uint256}

/-- The spenders that the wallet remembers of what a transaction spends. -/
def recorded (w : CWallet) (tx : CTransaction) : List Uint256 :=
  (tx.vin.flatMap fun txin => equalRange w.mapTxSpends txin.prevout)++
    tx.vShieldedSpend.flatMap fun spend => equalRange w.mapTxSaplingNullifiers spend.nullifier

/-- Every other spender that is remembered was not erased. -/
def SpendersPresent (w : CWallet) (tx : CTransaction) : Prop :=
  tx.isCoinBase=false → ∀h∈recorded w tx,h=tx.hash ∨ (w.mapWallet h).isSome

theorem mem_equalRange {T : Type} [DecidableEq T] {m : List (T × Uint256)} {key : T}
    {h : Uint256} : h∈equalRange m key ↔ (key,h)∈m := by
  simp [equalRange]

theorem recorded_or_own {T : Type} {m₀ m : List (T × Uint256)}
    (hm : ∀p∈m,p∈m₀ ∨ p.2=wtxid) (key : T) : ∀p∈m++[(key,wtxid)],p∈m₀ ∨ p.2=wtxid := by
  intro p hp
  rcases List.mem_append.mp hp with hp | hp
  · exact hm p hp
  · rw [List.mem_singleton.mp hp]
    exact .inr rfl

/-- Between the start `w₀` of `AddToSpends` and a state inside its loops. -/
structure Synced (w₀ : CWallet) (wtxid : Uint256) (w : CWallet) : Prop where
  txs : SameTxs w₀.mapWallet w.mapWallet
  spends : ∀p∈w.mapTxSpends,p∈w₀.mapTxSpends ∨ p.2=wtxid
  nullifiers : ∀p∈w.mapTxSaplingNullifiers,p∈w₀.mapTxSaplingNullifiers ∨ p.2=wtxid
  copies : ∀p∈w.copies,p∈w₀.copies ∨ (w₀.mapWallet p.1).isSome

theorem Synced.refl : Synced w₀ wtxid w₀ where
  txs _ := rfl
  spends _ hp := .inl hp
  nullifiers _ hp := .inl hp
  copies _ hp := .inl hp

/-- A synchronisation over a range of which everything is there. -/
theorem Synced.sync (hw : Synced w₀ wtxid w) {range : List Uint256}
    (hrange : ∀h∈range,(w₀.mapWallet h).isSome) (hsync : syncMetaData range w=some w') :
    Synced w₀ wtxid w' := by
  obtain ⟨m,copies,rfl,hm,hcopies⟩ :=
    syncMetaData_present (fun h hh => (hw.txs.isSome h).trans (hrange h hh)) hsync
  refine ⟨hw.txs.trans hm,hw.spends,hw.nullifiers,fun p hp => ?_⟩
  rcases List.mem_append.mp hp with hp | hp
  · exact hw.copies p hp
  · exact .inr (hrange p.1 (hcopies p hp))

theorem Synced.transparent (hw : Synced w₀ wtxid w) (hself : (w₀.mapWallet wtxid).isSome)
    {outpoint : COutPoint}
    (hpresent : ∀h∈equalRange w₀.mapTxSpends outpoint,(w₀.mapWallet h).isSome)
    (hadd : addToTransparentSpends outpoint wtxid w=some w') : Synced w₀ wtxid w' := by
  have hspends := recorded_or_own hw.spends outpoint
  apply Synced.sync (w := {w with mapTxSpends := w.mapTxSpends++[(outpoint,wtxid)]})
    ⟨hw.txs,hspends,hw.nullifiers,hw.copies⟩ ?_ hadd
  intro h hh
  rcases hspends _ (mem_equalRange.mp hh) with hold | hnew
  · exact hpresent h (mem_equalRange.mpr hold)
  · obtain rfl : h=wtxid := hnew
    exact hself

theorem Synced.sapling (hw : Synced w₀ wtxid w) (hself : (w₀.mapWallet wtxid).isSome)
    {nullifier : Uint256}
    (hpresent : ∀h∈equalRange w₀.mapTxSaplingNullifiers nullifier,(w₀.mapWallet h).isSome)
    (hadd : addToSaplingSpends nullifier wtxid w=some w') : Synced w₀ wtxid w' := by
  have hnullifiers := recorded_or_own hw.nullifiers nullifier
  apply Synced.sync
    (w := {w with mapTxSaplingNullifiers := w.mapTxSaplingNullifiers++[(nullifier,wtxid)]})
    ⟨hw.txs,hw.spends,hnullifiers,hw.copies⟩ ?_ hadd
  intro h hh
  rcases hnullifiers _ (mem_equalRange.mp hh) with hold | hnew
  · exact hpresent h (mem_equalRange.mpr hold)
  · obtain rfl : h=wtxid := hnew
    exact hself

/-- `AddToSpends` of a transaction none of whose other spenders was erased. -/
theorem addToSpends_synced {thisTx : CWalletTx} (hthis : w.mapWallet wtxid=some thisTx)
    (hpresent : thisTx.tx.isCoinBase=false → ∀h∈recorded w thisTx.tx,(w.mapWallet h).isSome)
    (hadd : addToSpends wtxid w=some w') : Synced w wtxid w' := by
  have hself : (w.mapWallet wtxid).isSome := by simp [hthis]
  unfold addToSpends at hadd
  simp only [hthis] at hadd
  split_ifs at hadd with hcb
  · obtain rfl := Option.some.inj hadd
    exact .refl
  · have hrec := hpresent (by simpa using hcb)
    obtain ⟨w₁,hvin,hspend⟩ := Option.bind_eq_some_iff.mp hadd
    have h₁ : Synced w wtxid w₁ := by
      refine each_keeps (fun txin htxin v v' hv hadd => ?_) hvin .refl
      refine hv.transparent hself (fun h hh => hrec h ?_) hadd
      exact List.mem_append_left _ (List.mem_flatMap.mpr ⟨txin,htxin,hh⟩)
    refine each_keeps (fun spend hmem v v' hv hadd => ?_) hspend h₁
    refine hv.sapling hself (fun h hh => hrec h ?_) hadd
    exact List.mem_append_right _ (List.mem_flatMap.mpr ⟨spend,hmem,hh⟩)

/-- The same for a transaction that is put into the map first. -/
theorem added_synced {wtx : CWalletTx} (nOrderPosNext : Int)
    (hpresent : SpendersPresent w wtx.tx)
    (hadd : addToSpends wtx.getHash
      {w with mapWallet := Function.update w.mapWallet wtx.getHash (some wtx),nOrderPosNext}=
        some w') :
    Synced
      {w with mapWallet := Function.update w.mapWallet wtx.getHash (some wtx),nOrderPosNext}
      wtx.getHash w' := by
  have hself : Function.update w.mapWallet wtx.getHash (some wtx) wtx.getHash=some wtx := by simp
  apply addToSpends_synced hself ?_ hadd
  intro hcb h hh
  change (Function.update w.mapWallet wtx.getHash (some wtx) h).isSome=true
  by_cases heq : h=wtx.getHash
  · simp [heq]
  · rw [Function.update_of_ne heq]
    exact (hpresent hcb h hh).resolve_left heq

end Adding

section Ledger

variable {fFileBacked : Bool} {w w' : CWallet} {live : Uint256 → Bool}

/-- Hashes are erased one by one, up to the first that is not there. -/
def eraseLive : List Uint256 → (Uint256 → Bool) → Uint256 → Bool
  | [],live => live
  | hash::removeTxs,live =>
      if live hash then eraseLive removeTxs (Function.update live hash false) else live

/-- The hashes added and not later erased. Without a file nothing is erased singly. -/
def ledger (fFileBacked : Bool) (live : Uint256 → Bool) : Call → Uint256 → Bool
  | .load wtxIn => Function.update live wtxIn.getHash true
  | .live wtxIn _ _ => Function.update live wtxIn.getHash true
  | .eraseFromWallet hash => if fFileBacked then Function.update live hash false else live
  | .deleteTransactions removeTxs => eraseLive removeTxs live

/-- The map holds what is live, under its own hash, and the last call copied metadata
from nothing else. -/
structure Holds (w : CWallet) (live : Uint256 → Bool) : Prop where
  keys : ∀h,(w.mapWallet h).isSome=live h
  hashes : ∀h wtx,w.mapWallet h=some wtx → wtx.getHash=h
  copies : ∀p∈w.copies,live p.1=true

/-- A call that records spends meets no remembered spender that was erased. -/
def NoErasedSpender (w : CWallet) : Call → Prop
  | .load wtxIn => SpendersPresent w wtxIn.tx
  | .live wtxIn _ _ => w.mapWallet wtxIn.getHash=none → SpendersPresent w wtxIn.tx
  | _ => True

theorem Holds.clear (hw : Holds w live) : Holds {w with copies := []} live :=
  ⟨hw.keys,hw.hashes,by simp⟩

theorem Holds.erase (hw : Holds w live) (hcopies : w.copies=[]) (hash : Uint256) :
    Holds {w with mapWallet := Function.update w.mapWallet hash none}
      (Function.update live hash false) where
  keys h := by
    by_cases hh : h=hash
    · simp [hh]
    · simp [Function.update_of_ne hh,hw.keys h]
  hashes h wtx hwtx := by
    by_cases hh : h=hash
    · simp [hh] at hwtx
    · exact hw.hashes h wtx (by simpa [Function.update_of_ne hh] using hwtx)
  copies := by simp [hcopies]

theorem Holds.put (hw : Holds w live) (hcopies : w.copies=[]) (wtx : CWalletTx)
    (nOrderPosNext : Int) :
    Holds {w with mapWallet := Function.update w.mapWallet wtx.getHash (some wtx),nOrderPosNext}
      (Function.update live wtx.getHash true) where
  keys h := by
    by_cases hh : h=wtx.getHash
    · simp [hh]
    · simp [Function.update_of_ne hh,hw.keys h]
  hashes h wtx' hwtx := by
    by_cases hh : h=wtx.getHash
    · subst hh
      simp only [Function.update_self,Option.some.injEq] at hwtx
      rw [hwtx]
    · exact hw.hashes h wtx' (by simpa [Function.update_of_ne hh] using hwtx)
  copies := by simp [hcopies]

theorem Holds.synced (hw : Holds w live) (hcopies : w.copies=[]) {wtxid : Uint256}
    (hsync : Synced w wtxid w') : Holds w' live where
  keys h := (hsync.txs.isSome h).trans (hw.keys h)
  hashes h wtx hwtx := by
    have htx := hsync.txs h
    rw [hwtx,Option.map_some] at htx
    obtain ⟨old,hold,heq⟩ := Option.map_eq_some_iff.mp htx.symm
    rw [CWalletTx.getHash,←heq]
    exact hw.hashes h old hold
  copies p hp := by
    rcases hsync.copies p hp with hin | hsome
    · simp [hcopies] at hin
    · exact (hw.keys p.1).symm.trans hsome

/-- A transaction is put into the map and its spends are recorded. -/
theorem Holds.add (hw : Holds w live) (hcopies : w.copies=[]) (wtx : CWalletTx)
    (nOrderPosNext : Int) (hpresent : SpendersPresent w wtx.tx)
    (hadd : addToSpends wtx.getHash
      {w with mapWallet := Function.update w.mapWallet wtx.getHash (some wtx),nOrderPosNext}=
        some w') : Holds w' (Function.update live wtx.getHash true) :=
  (hw.put hcopies wtx nOrderPosNext).synced hcopies (added_synced nOrderPosNext hpresent hadd)

theorem deleteTransactions_holds (removeTxs : List Uint256) (hw : Holds w live)
    (hcopies : w.copies=[]) :
    Holds (deleteTransactions removeTxs w) (eraseLive removeTxs live) := by
  induction removeTxs generalizing w live with
  | nil => exact hw
  | cons hash removeTxs ih =>
    rw [deleteTransactions,eraseLive,hw.keys hash]
    split_ifs with hlive
    · exact ih (hw.erase hcopies hash) hcopies
    · exact hw

theorem tx_merge (wtxIn wtx : CWalletTx) : (merge wtxIn wtx).tx=wtx.tx := by
  unfold merge
  dsimp only
  split_ifs <;> rfl

theorem getHash_merge (wtxIn wtx : CWalletTx) : (merge wtxIn wtx).getHash=wtx.getHash :=
  congrArg CTransaction.hash (tx_merge wtxIn wtx)

theorem step_holds (call : Call) (hguard : NoErasedSpender w call) (hw : Holds w live)
    (hstep : step fFileBacked w call=some w') :
    Holds w' (ledger fFileBacked live call) := by
  have hclear := hw.clear
  cases call with
  | load wtxIn => exact hclear.add rfl wtxIn w.nOrderPosNext hguard hstep
  | live wtxIn now smartTime =>
    simp only [step,addLive] at hstep
    rcases hold : w.mapWallet wtxIn.getHash with _ | wtx
    · simp only [hold] at hstep
      exact hclear.add rfl {wtxIn with
        nTimeReceived := now
        nOrderPos := w.nOrderPosNext
        data := {wtxIn.data with nTimeSmart := smartTime}} _ (hguard hold) hstep
    · simp only [hold,Option.some.injEq] at hstep
      have hhash : (merge wtxIn wtx).getHash=wtxIn.getHash :=
        (getHash_merge wtxIn wtx).trans (hw.hashes _ _ hold)
      have hput := hclear.put rfl (merge wtxIn wtx) w.nOrderPosNext
      rw [hhash] at hput
      rw [←hstep]
      exact hput
  | eraseFromWallet hash =>
    simp only [step,eraseFromWallet,Option.some.injEq] at hstep
    subst hstep
    rw [ledger]
    split_ifs with hbacked
    · exact hclear.erase rfl hash
    · exact hclear
  | deleteTransactions removeTxs =>
    simp only [step,Option.some.injEq] at hstep
    subst hstep
    exact deleteTransactions_holds removeTxs hclear rfl

theorem holds_empty : Holds .empty fun _ => false :=
  ⟨fun _ => rfl,fun _ _ h => by simp [CWallet.empty] at h,fun _ h => by simp [CWallet.empty] at h⟩

/-- Over every run in which no recorded spender had been erased. -/
theorem mapWallet_holds_live (calls : List Call)
    (hrun : run (step fFileBacked) calls .empty=some w)
    (hguard : Guarded (step fFileBacked) NoErasedSpender calls .empty) :
    Holds w (calls.foldl (ledger fFileBacked) fun _ => false) :=
  run_tracks (fun _ _ call _ hcall hR hstep => step_holds call hcall hR hstep) hrun hguard
    holds_empty

instance (w : CWallet) (tx : CTransaction) : Decidable (SpendersPresent w tx) :=
  have : Decidable (∀h∈recorded w tx,h=tx.hash ∨ (w.mapWallet h).isSome) :=
    List.decidableBAll _ (recorded w tx)
  inferInstanceAs (Decidable (tx.isCoinBase=false →
    ∀h∈recorded w tx,h=tx.hash ∨ (w.mapWallet h).isSome))

instance (w : CWallet) : (call : Call) → Decidable (NoErasedSpender w call)
  | .load wtxIn => inferInstanceAs (Decidable (SpendersPresent w wtxIn.tx))
  | .live wtxIn _ _ => inferInstanceAs (Decidable
      (w.mapWallet wtxIn.getHash=none → SpendersPresent w wtxIn.tx))
  | .eraseFromWallet _ => isTrue trivial
  | .deleteTransactions _ => isTrue trivial

/-- A transaction that spends the first output of transaction 7. -/
def spendOf (hash : Uint256) : CWalletTx :=
  {CWalletTx.init with tx := {CTransaction.null with hash,vin := [⟨⟨7,0⟩,[]⟩]}}

def laterErased : List Call :=
  [.live (spendOf 1) 10 10,.live (spendOf 2) 20 20,.eraseFromWallet 2]

def earlierErased : List Call :=
  [.live (spendOf 1) 10 10,.eraseFromWallet 1,.live (spendOf 2) 20 20]

theorem laterErased_held :
    ∃w,run (step true) laterErased .empty=some w ∧
      Holds w (laterErased.foldl (ledger true) fun _ => false) := by
  have hreturns : (run (step true) laterErased .empty).isSome=true := by decide +kernel
  have hguard : Guarded (step true) NoErasedSpender laterErased .empty := by decide +kernel
  obtain ⟨w,hw⟩ := Option.isSome_iff_exists.mp hreturns
  exact ⟨w,hw,mapWallet_holds_live laterErased hw hguard⟩

/-- The second spend brings the erased first one back, empty, and takes its metadata. -/
theorem earlierErased_reappears :
    ∃w,run (step true) earlierErased .empty=some w ∧
      (earlierErased.foldl (ledger true) fun _ => false) 1=false ∧
      w.mapWallet 1=some .init ∧ CWalletTx.init.getHash≠1 ∧ w.copies=[(1,2)] ∧
      ¬Holds w (earlierErased.foldl (ledger true) fun _ => false) := by
  have hreturns : (run (step true) earlierErased .empty).isSome=true := by decide +kernel
  have hback : (run (step true) earlierErased .empty).map (fun w => w.mapWallet 1)=
      some (some .init) := by decide +kernel
  have hcopies : (run (step true) earlierErased .empty).map CWallet.copies=some [(1,2)] := by
    decide +kernel
  obtain ⟨w,hw⟩ := Option.isSome_iff_exists.mp hreturns
  rw [hw] at hback hcopies
  refine ⟨w,hw,by decide +kernel,Option.some.inj hback,by decide +kernel,
    Option.some.inj hcopies,fun hholds => ?_⟩
  have hkey := hholds.hashes 1 .init (Option.some.inj hback)
  exact absurd hkey (by decide +kernel)

end Ledger

end Zdeex.Wallet
