import Mathlib.Tactic.Common
import Zdeex.Framework.KeyMap
import Zdeex.Framework.Run

namespace Zdeex.Validity

open Zdeex.Framework

abbrev Status := BitVec 32

def BLOCK_VALID_TREE : Status := 2
def BLOCK_VALID_TRANSACTIONS : Status := 3
def BLOCK_VALID_SCRIPTS : Status := 5
def BLOCK_VALID_CONTEXT : Status := 6
def BLOCK_VALID_MASK : Status := 7
def BLOCK_HAVE_DATA : Status := 8
def BLOCK_HAVE_UNDO : Status := 16
def BLOCK_FAILED_VALID : Status := 32
def BLOCK_FAILED_CHILD : Status := 64
def BLOCK_FAILED_MASK : Status := 96
def BLOCK_ACTIVATES_UPGRADE : Status := 128

namespace Status

variable (nStatus : Status)

/-- The validity level in the low bits. -/
def level : Nat := (nStatus&&&BLOCK_VALID_MASK).toNat

def failed : Bool := nStatus&&&BLOCK_FAILED_MASK≠0#32

def haveData : Bool := nStatus&&&BLOCK_HAVE_DATA≠0#32

def haveUndo : Bool := nStatus&&&BLOCK_HAVE_UNDO≠0#32

def isValid (nUpTo : Status) : Bool := !nStatus.failed && decide (nUpTo.toNat≤nStatus.level)

def raiseValidity (nUpTo : Status) : Status :=
  if nStatus.failed then nStatus
  else if nStatus.level<nUpTo.toNat then (nStatus&&&~~~BLOCK_VALID_MASK)|||nUpTo
  else nStatus

end Status

section Bits

variable (x : Status)

/-- A flag word with one bit group written over by a constant. -/
private theorem and_or_const (x a m : Status) : (x|||a)&&&m=(x&&&m)|||(a&&&m) := by
  ext i
  simp [Bool.and_or_distrib_right]

private theorem mask_or_const (x a m k : Status) :
    ((x&&&~~~m)|||a)&&&k=(x&&&(~~~m&&&k))|||(a&&&k) := by
  rw [and_or_const,BitVec.and_assoc]

theorem level_lt : x.level<8 := by
  have hle := Nat.and_le_right (n := x.toNat) (m := 7)
  rw [Status.level,BitVec.toNat_and]
  exact Nat.lt_succ_of_le hle

theorem level_or_context : 6≤(x|||BLOCK_VALID_CONTEXT).level := by
  have hmask : (x|||BLOCK_VALID_CONTEXT)&&&BLOCK_VALID_MASK=(x&&&BLOCK_VALID_MASK)|||6#32 :=
    and_or_const x BLOCK_VALID_CONTEXT BLOCK_VALID_MASK
  rw [Status.level,hmask,BitVec.toNat_or]
  exact Nat.right_le_or

theorem level_or_flag {a : Status} (ha : a&&&BLOCK_VALID_MASK=0#32) : (x|||a).level=x.level := by
  rw [Status.level,and_or_const,ha,BitVec.or_zero]
  rfl

theorem failed_or {a : Status} (ha : a&&&BLOCK_FAILED_MASK=0#32) : (x|||a).failed=x.failed := by
  rw [Status.failed,and_or_const,ha,BitVec.or_zero]
  rfl

theorem failed_or_set {a : Status} (ha : a&&&BLOCK_FAILED_MASK≠0#32) : (x|||a).failed=true := by
  simp only [Status.failed,decide_eq_true_eq]
  rw [and_or_const]
  intro hzero
  exact ha (BitVec.or_eq_zero_iff.mp hzero).2

theorem failed_or_mono {a : Status} (h : x.failed=true) : (x|||a).failed=true := by
  simp only [Status.failed,decide_eq_true_eq] at h ⊢
  rw [and_or_const]
  intro hzero
  exact h (BitVec.or_eq_zero_iff.mp hzero).1

theorem haveData_or {a : Status} (h : x.haveData=true) : (x|||a).haveData=true := by
  simp only [Status.haveData,decide_eq_true_eq] at h ⊢
  rw [and_or_const]
  intro hzero
  apply h
  ext i hi
  have hbit := congrArg (fun y : Status => y.getLsbD i) hzero
  simp at hbit ⊢
  exact hbit.1

theorem haveData_or_data : (x|||BLOCK_HAVE_DATA).haveData=true := by
  simp only [Status.haveData,decide_eq_true_eq]
  rw [and_or_const]
  intro hzero
  have hbit := congrArg (fun y : Status => y.getLsbD 3) hzero
  simp [BLOCK_HAVE_DATA] at hbit

theorem haveData_or_flag {a : Status} (ha : a&&&BLOCK_HAVE_DATA=0#32) :
    (x|||a).haveData=x.haveData := by
  rw [Status.haveData,and_or_const,ha,BitVec.or_zero]
  rfl

theorem level_and_flag {m : Status} (hm : ~~~m&&&BLOCK_VALID_MASK=BLOCK_VALID_MASK) :
    (x&&&~~~m).level=x.level := by
  rw [Status.level,BitVec.and_assoc,hm]
  rfl

theorem haveData_and_flag {m : Status} (hm : ~~~m&&&BLOCK_HAVE_DATA=BLOCK_HAVE_DATA) :
    (x&&&~~~m).haveData=x.haveData := by
  rw [Status.haveData,BitVec.and_assoc,hm]
  rfl

theorem failed_cleared : (x&&&~~~BLOCK_FAILED_MASK).failed=false := by
  rw [Status.failed,BitVec.and_assoc]
  simp

/-- The status of a new entry. -/
theorem tree_status : (Status.raiseValidity 0 BLOCK_VALID_TREE).level=2 ∧
    (Status.raiseValidity 0 BLOCK_VALID_TREE).failed=false ∧
    (Status.raiseValidity 0 BLOCK_VALID_TREE).haveData=false := by
  decide

theorem raise_of_not_failed {nUpTo : Status} (hf : x.failed=false) :
    x.raiseValidity nUpTo=
      if x.level<nUpTo.toNat then (x&&&~~~BLOCK_VALID_MASK)|||nUpTo else x := by
  rw [Status.raiseValidity,hf]
  rfl

theorem level_raise {nUpTo : Status} (hf : x.failed=false) (hn : nUpTo&&&BLOCK_VALID_MASK=nUpTo) :
    (x.raiseValidity nUpTo).level=max x.level nUpTo.toNat := by
  rw [raise_of_not_failed x hf]
  split_ifs with hlt
  · have hmask : ((x&&&~~~BLOCK_VALID_MASK)|||nUpTo)&&&BLOCK_VALID_MASK=nUpTo := by
      rw [mask_or_const,hn]
      simp [BLOCK_VALID_MASK]
    rw [Status.level,hmask]
    omega
  · omega

theorem failed_raise {nUpTo : Status} (hn : nUpTo&&&BLOCK_FAILED_MASK=0#32) :
    (x.raiseValidity nUpTo).failed=x.failed := by
  cases hf : x.failed with
  | true => rw [Status.raiseValidity,hf,if_pos rfl,hf]
  | false =>
    rw [raise_of_not_failed x hf]
    split_ifs
    · rw [Status.failed,mask_or_const,hn,BitVec.or_zero]
      exact hf
    · exact hf

theorem haveData_raise {nUpTo : Status} : x.haveData=true → (x.raiseValidity nUpTo).haveData=true := by
  intro h
  rw [Status.raiseValidity]
  split_ifs
  · exact h
  · apply haveData_or
    rw [Status.haveData,BitVec.and_assoc]
    exact h
  · exact h

end Bits

/-- What the validity level is kept in. -/
structure Entry (H : Type) where
  pprev : Option H
  nStatus : Status
  nTx : Nat
  deriving DecidableEq

/-- The block index and the best block of the coins view. `connected` records the
blocks on which `ConnectBlock` has succeeded with `fJustCheck` false. -/
structure IndexState (H : Type) where
  mapBlockIndex : KeyMap H (Entry H)
  bestBlock : Option H
  connected : List H

variable {H : Type} [DecidableEq H]

/-- What the checks inside `AcceptBlock` say; `futureHeader` is `*futureblockp` behind the
header. -/
structure AcceptVerdict where
  futureHeader : Bool
  checkBlock : Bool
  contextualCheckBlock : Bool
  futureblock : Bool
  isInvalid : Bool
  fRequested : Bool
  fHasMoreWork : Bool
  fTooFarAhead : Bool
  findBlockPos : Bool
  vtxSize : Nat

/-- What the checks inside `ConnectBlock` say; `grandfathered` blocks are older
than the contextual check, and `writes` covers the files behind the undo data. -/
structure ConnectVerdict where
  checkBlock : Bool
  contextualCheckBlock : Bool
  grandfathered : Bool
  notaryPay : Bool
  transactions : Bool
  undoWritten : Bool
  activatesUpgrade : Bool
  writes : Bool

namespace IndexState

variable (s : IndexState H)

def setEntry (hash : H) (e : Entry H) : IndexState H :=
  {s with mapBlockIndex := s.mapBlockIndex.put hash (some e)}

def addToBlockIndex (hash : H) (pprev : Option H) : IndexState H :=
  s.setEntry hash ⟨pprev,Status.raiseValidity 0 BLOCK_VALID_TREE,0⟩

/-- `AcceptBlockHeader`, with the two header checks; `cc` says that ASSETCHAINS_CC
is set, when a block that is marked invalid gets another chance. The entry is the
one it hands to its caller. -/
def acceptBlockHeader (cc : Bool) (genesis hash : H) (pprev : Option H)
    (checkBlockHeader contextualCheckBlockHeader : Bool) : IndexState H × Option (Entry H) :=
  match s.mapBlockIndex.lookup hash with
  | some e =>
      if e.nStatus.failed then
        if cc then
          let e := {e with nStatus := e.nStatus&&&~~~BLOCK_FAILED_MASK}
          (s.setEntry hash e,some e)
        else (s,none)
      else (s,some e)
  | none =>
      if checkBlockHeader=false ∨ contextualCheckBlockHeader=false ∨
          (pprev=none ∧ hash≠genesis) ∨
          (∃p∈pprev,∀e∈s.mapBlockIndex.lookup p,e.nStatus.failed=true) then (s,none)
      else
        let s := s.addToBlockIndex hash pprev
        (s,s.mapBlockIndex.lookup hash)

/-- The part of `ReceivedBlockTransactions` that the status depends on. -/
def receiveEntry (e : Entry H) (vtxSize : Nat) : Entry H :=
  {e with nTx := vtxSize,
          nStatus := (e.nStatus|||BLOCK_HAVE_DATA).raiseValidity BLOCK_VALID_TRANSACTIONS}

/-- `AcceptBlock` behind the header: the contextual flag is set in the status
before the data is stored. -/
def acceptBlockData (hash : H) (e : Entry H) (v : AcceptVerdict) : IndexState H :=
  if e.nStatus.haveData then s
  else if v.fRequested=false ∧ (e.nTx≠0 ∨ v.fHasMoreWork=false ∨ v.fTooFarAhead=true) then s
  else if (v.checkBlock=false ∨ v.contextualCheckBlock=false) ∧ v.futureblock=false then
    if v.isInvalid then s.setEntry hash {e with nStatus := e.nStatus|||BLOCK_FAILED_VALID} else s
  else
    let e := if v.contextualCheckBlock then
      {e with nStatus := e.nStatus|||BLOCK_VALID_CONTEXT} else e
    if v.findBlockPos then s.setEntry hash (receiveEntry e v.vtxSize) else s.setEntry hash e

/-- The status that `ConnectBlock` leaves after its contextual check, if it goes on. -/
def connectContext (fCheckPOW : Bool) (e : Entry H) (v : ConnectVerdict) : Option (Entry H) :=
  if fCheckPOW=true ∧ e.nStatus&&&BLOCK_VALID_CONTEXT≠BLOCK_VALID_CONTEXT then
    if v.contextualCheckBlock then some {e with nStatus := e.nStatus|||BLOCK_VALID_CONTEXT}
    else if v.grandfathered then some e else none
  else some e

/-- The status after the undo data is written. -/
def connectStatus (nStatus : Status) (v : ConnectVerdict) : Status :=
  if nStatus.haveUndo=false ∨ nStatus.isValid BLOCK_VALID_SCRIPTS=false then
    let nStatus := nStatus|||BLOCK_HAVE_UNDO
    let nStatus := if v.activatesUpgrade then nStatus|||BLOCK_ACTIVATES_UPGRADE else nStatus
    nStatus.raiseValidity BLOCK_VALID_SCRIPTS
  else nStatus

/-- `ConnectBlock` behind the contextual check, on the entry that this left. -/
def connectChecked (genesis hash : H) (e : Entry H) (fJustCheck : Bool) (v : ConnectVerdict) :
    IndexState H :=
  let t := s.setEntry hash e
  if v.notaryPay=false ∨ e.pprev≠s.bestBlock then t
  else if hash=genesis then
    if fJustCheck then t else {t with bestBlock := some hash,connected := hash::s.connected}
  else if v.transactions=false ∨ fJustCheck=true then t
  else if e.nStatus.haveUndo=false ∧ v.undoWritten=false then t
  else
    let t := t.setEntry hash {e with nStatus := connectStatus e.nStatus v}
    if v.writes then {t with bestBlock := some hash,connected := hash::s.connected} else t

/-- `ConnectBlock` on an entry of the index. -/
def connectBlock (genesis hash : H) (fJustCheck fCheckPOW : Bool) (v : ConnectVerdict) :
    IndexState H :=
  match s.mapBlockIndex.lookup hash with
  | none => s
  | some e =>
      if v.checkBlock=false then s
      else
        match connectContext fCheckPOW e v with
        | none => s
        | some e => s.connectChecked genesis hash e fJustCheck v

end IndexState

inductive IndexOp (H : Type) where
  | acceptBlockHeader (hash : H) (pprev : Option H) (checkBlockHeader contextual : Bool)
  | acceptBlock (hash : H) (pprev : Option H) (checkBlockHeader contextual : Bool)
      (v : AcceptVerdict)
  | receivedBlockTransactions (hash : H) (vtxSize : Nat)
  | connectBlock (hash : H) (fJustCheck fCheckPOW : Bool) (v : ConnectVerdict)
  | disconnectBlock

variable (cc : Bool) (genesis : H)

/-- One call; `none` is a call on a block that is not in the index. -/
def indexStep (s : IndexState H) : IndexOp H → Option (IndexState H)
  | .acceptBlockHeader hash pprev c k => some (s.acceptBlockHeader cc genesis hash pprev c k).1
  | .acceptBlock hash pprev c k v =>
      match s.acceptBlockHeader cc genesis hash pprev c k with
      | (s,none) =>
          -- A block marked invalid is handed over all the same.
          match s.mapBlockIndex.lookup hash with
          | some e => if v.futureHeader then some (s.acceptBlockData hash e v) else some s
          | none => some s
      | (s,some e) => some (s.acceptBlockData hash e v)
  | .receivedBlockTransactions hash vtxSize =>
      match s.mapBlockIndex.lookup hash with
      | none => none
      | some e => some (s.setEntry hash (IndexState.receiveEntry e vtxSize))
  | .connectBlock hash fJustCheck fCheckPOW v =>
      some (s.connectBlock genesis hash fJustCheck fCheckPOW v)
  | .disconnectBlock =>
      match s.bestBlock.bind s.mapBlockIndex.lookup with
      | none => none
      | some e => some {s with bestBlock := e.pprev}

/-- The entry that a call works on has no failure mark and its data is there. -/
def Ready (s : IndexState H) (hash : H) : Prop :=
  ∃e,s.mapBlockIndex.lookup hash=some e ∧ e.nStatus.failed=false ∧ e.nStatus.haveData=true

/-- `ConnectBlock` meets nothing that makes it return early. -/
def Passes (s : IndexState H) (hash : H) (fJustCheck : Bool) (v : ConnectVerdict) : Prop :=
  fJustCheck=false ∧ v.notaryPay=true ∧ v.transactions=true ∧ v.undoWritten=true ∧
    ∃e,s.mapBlockIndex.lookup hash=some e ∧ e.pprev=s.bestBlock

/-- The contextual flag is set by no call but a `ConnectBlock` that passes, and
blocks are stored and connected as the callers see to it: they have transactions
and no failure mark, data before they are connected, and the index files can be
written. -/
def Plain (s : IndexState H) : IndexOp H → Prop
  | .acceptBlockHeader _ _ _ _ => True
  | .acceptBlock hash _ _ _ v => v.contextualCheckBlock=false ∧ 0<v.vtxSize ∧
      (v.futureHeader=true → ∀e,s.mapBlockIndex.lookup hash=some e → e.nStatus.failed=false)
  | .receivedBlockTransactions hash vtxSize =>
      0<vtxSize ∧ ∀e,s.mapBlockIndex.lookup hash=some e → e.nStatus.failed=false
  | .connectBlock hash fJustCheck fCheckPOW v =>
      v.checkBlock=true → v.writes=true ∧ Ready s hash ∧
        (fCheckPOW=true → v.contextualCheckBlock=true → Passes s hash fJustCheck v)
  | .disconnectBlock => True

/-- What every entry of the index satisfies, given whether its block was connected. -/
structure EntrySound (connected : List H) (hash : H) (e : Entry H) : Prop where
  transactions : 3≤e.nStatus.level ↔ 0<e.nTx
  data : e.nStatus.haveData=true → 0<e.nTx
  scripts : 5≤e.nStatus.level → hash∈connected
  ready : hash∈connected → e.nStatus.failed=false ∧ e.nStatus.haveData=true ∧
    (hash≠genesis → 5≤e.nStatus.level) ∧ ∀p∈e.pprev,p∈connected

structure Sound (s : IndexState H) : Prop where
  entries : ∀hash e,s.mapBlockIndex.lookup hash=some e → EntrySound genesis s.connected hash e
  present : ∀hash∈s.connected,∃e,s.mapBlockIndex.lookup hash=some e
  best : ∀hash∈s.bestBlock,hash∈s.connected

section Steps

variable {cc : Bool} {genesis : H} {s s' : IndexState H} {hash : H} {e : Entry H}

theorem lookup_setEntry (s : IndexState H) (hash q : H) (e : Entry H) :
    (s.setEntry hash e).mapBlockIndex.lookup q=
      if q=hash then some e else s.mapBlockIndex.lookup q :=
  KeyMap.lookup_put s.mapBlockIndex hash q (some e)

theorem Sound.setEntry (h : Sound genesis s) (he : EntrySound genesis s.connected hash e) :
    Sound genesis (s.setEntry hash e) := by
  refine ⟨?_,?_,h.best⟩
  · intro q e' hq
    rw [lookup_setEntry] at hq
    split_ifs at hq with heq
    · subst heq
      obtain rfl := Option.some.inj hq
      exact he
    · exact h.entries q e' hq
  · intro q hq
    rw [lookup_setEntry]
    split_ifs
    · exact ⟨e,rfl⟩
    · exact h.present q hq

omit [DecidableEq H] in
theorem EntrySound.mono {connected : List H} (h : EntrySound genesis connected hash e) {q : H}
    (hne : hash≠q) : EntrySound genesis (q::connected) hash e := by
  refine ⟨h.transactions,h.data,fun hle => List.mem_cons_of_mem q (h.scripts hle),?_⟩
  intro hmem
  obtain ⟨hf,hd,hl,hp⟩ := h.ready (List.mem_of_ne_of_mem hne hmem)
  exact ⟨hf,hd,hl,fun p hpp => List.mem_cons_of_mem q (hp p hpp)⟩

/-- A block that is connected now, with its new entry, on the best block so far. -/
theorem Sound.connect (h : Sound genesis s)
    (hsound : (3≤e.nStatus.level ↔ 0<e.nTx) ∧ (e.nStatus.haveData=true → 0<e.nTx))
    (hready : e.nStatus.failed=false ∧ e.nStatus.haveData=true ∧
      (hash≠genesis → 5≤e.nStatus.level)) (hprev : e.pprev=s.bestBlock) :
    Sound genesis {s.setEntry hash e with bestBlock := some hash,connected := hash::s.connected} := by
  refine ⟨?_,?_,?_⟩
  · intro q e' hq
    change (s.setEntry hash e).mapBlockIndex.lookup q=some e' at hq
    rw [lookup_setEntry] at hq
    split_ifs at hq with heq
    · subst heq
      obtain rfl := Option.some.inj hq
      refine ⟨hsound.1,hsound.2,fun _ => List.mem_cons_self,?_⟩
      intro _
      refine ⟨hready.1,hready.2.1,hready.2.2,?_⟩
      intro p hp
      rw [hprev] at hp
      exact List.mem_cons_of_mem q (h.best p hp)
    · exact (h.entries q e' hq).mono heq
  · intro q hq
    change ∃e',(s.setEntry hash e).mapBlockIndex.lookup q=some e'
    rw [lookup_setEntry]
    split_ifs with heq
    · exact ⟨e,rfl⟩
    · exact h.present q (List.mem_of_ne_of_mem heq hq)
  · intro q hq
    obtain rfl := Option.mem_some_iff.mp hq
    exact List.mem_cons_self

omit [DecidableEq H] in
theorem EntrySound.not_connected_of_failed {connected : List H}
    (h : EntrySound genesis connected hash e) (hf : e.nStatus.failed=true) : hash∉connected := by
  intro hmem
  have hready := (h.ready hmem).1
  rw [hf] at hready
  cases hready

theorem sound_add (h : Sound genesis s) {pprev : Option H}
    (hnew : s.mapBlockIndex.lookup hash=none) : Sound genesis (s.addToBlockIndex hash pprev) := by
  have hfresh : hash∉s.connected := by
    intro hmem
    obtain ⟨e,he⟩ := h.present hash hmem
    rw [hnew] at he
    cases he
  obtain ⟨hlevel,-,hdata⟩ := tree_status
  apply h.setEntry
  refine ⟨?_,?_,?_,fun hmem => absurd hmem hfresh⟩
  · change 3≤(Status.raiseValidity 0 BLOCK_VALID_TREE).level ↔ 0<0
    rw [hlevel]
    decide
  · intro htrue
    exact absurd htrue (by rw [hdata]; decide)
  · intro hle
    change 5≤(Status.raiseValidity 0 BLOCK_VALID_TREE).level at hle
    omega

/-- A header that is refused changes nothing, and its entry, if any, is marked as failed. -/
theorem header_refused {pprev : Option H} {c k : Bool}
    (hnone : (s.acceptBlockHeader cc genesis hash pprev c k).2=none) :
    (s.acceptBlockHeader cc genesis hash pprev c k).1=s ∧
      ∀e,s.mapBlockIndex.lookup hash=some e → e.nStatus.failed=true := by
  rw [IndexState.acceptBlockHeader] at hnone ⊢
  cases hlook : s.mapBlockIndex.lookup hash with
  | some e =>
    rw [hlook] at hnone
    dsimp only at hnone ⊢
    split_ifs at hnone ⊢ with hf hcc
    exact ⟨rfl,fun e' he' => by rw [←Option.some.inj he',hf]⟩
  | none =>
    rw [hlook] at hnone
    dsimp only at hnone ⊢
    split_ifs at hnone ⊢ with hbad
    · exact ⟨rfl,fun e' he' => by cases he'⟩
    · rw [IndexState.addToBlockIndex,lookup_setEntry,if_pos rfl] at hnone
      cases hnone

/-- After the header, the block has an entry without a failure mark. -/
theorem sound_header (h : Sound genesis s) {pprev : Option H} {c k : Bool} :
    Sound genesis (s.acceptBlockHeader cc genesis hash pprev c k).1 ∧
    ∀e,(s.acceptBlockHeader cc genesis hash pprev c k).2=some e →
      (s.acceptBlockHeader cc genesis hash pprev c k).1.mapBlockIndex.lookup hash=some e ∧
        e.nStatus.failed=false := by
  rw [IndexState.acceptBlockHeader]
  cases hlook : s.mapBlockIndex.lookup hash with
  | some e =>
    have hsound := h.entries hash e hlook
    dsimp only
    cases hf : e.nStatus.failed with
    | false =>
      refine ⟨h,?_⟩
      intro e' he'
      obtain rfl := Option.some.inj he'
      exact ⟨hlook,hf⟩
    | true =>
      have hnot := hsound.not_connected_of_failed hf
      cases cc with
      | false => exact ⟨h,fun e' he' => by cases he'⟩
      | true =>
        have hlevel := level_and_flag e.nStatus (m := BLOCK_FAILED_MASK) (by decide)
        have hdata := haveData_and_flag e.nStatus (m := BLOCK_FAILED_MASK) (by decide)
        refine ⟨?_,?_⟩
        · apply h.setEntry
          refine ⟨?_,?_,?_,fun hmem => absurd hmem hnot⟩
          · simpa only [hlevel] using hsound.transactions
          · simpa only [hdata] using hsound.data
          · simpa only [hlevel] using hsound.scripts
        · intro e' he'
          obtain rfl := Option.some.inj he'
          exact ⟨by simp [lookup_setEntry],failed_cleared e.nStatus⟩
  | none =>
    dsimp only
    split_ifs
    · exact ⟨h,fun e' he' => by cases he'⟩
    · refine ⟨sound_add h hlook,?_⟩
      intro e' he'
      refine ⟨he',?_⟩
      rw [IndexState.addToBlockIndex,lookup_setEntry,if_pos rfl] at he'
      obtain rfl := Option.some.inj he'
      exact tree_status.2.1

omit [DecidableEq H] in
theorem receiveEntry_sound {connected : List H} (h : EntrySound genesis connected hash e)
    (hf : e.nStatus.failed=false) {vtxSize : Nat} (hsize : 0<vtxSize) :
    EntrySound genesis connected hash (IndexState.receiveEntry e vtxSize) := by
  have hf' : (e.nStatus|||BLOCK_HAVE_DATA).failed=false := by
    rw [failed_or e.nStatus (by decide),hf]
  have hlevel : (IndexState.receiveEntry e vtxSize).nStatus.level=max e.nStatus.level 3 := by
    rw [IndexState.receiveEntry,level_raise _ hf' (by decide),level_or_flag e.nStatus (by decide)]
    rfl
  have hdata : (IndexState.receiveEntry e vtxSize).nStatus.haveData=true :=
    haveData_raise _ (haveData_or_data e.nStatus)
  have hfailed : (IndexState.receiveEntry e vtxSize).nStatus.failed=false := by
    rw [IndexState.receiveEntry,failed_raise _ (by decide),hf']
  refine ⟨?_,fun _ => hsize,?_,?_⟩
  · rw [hlevel]
    exact ⟨fun _ => hsize,fun _ => Nat.le_max_right _ 3⟩
  · intro hle
    rw [hlevel] at hle
    exact h.scripts (by omega)
  · intro hmem
    obtain ⟨-,-,hl,hp⟩ := h.ready hmem
    refine ⟨hfailed,hdata,?_,hp⟩
    intro hne
    rw [hlevel]
    exact Nat.le_trans (hl hne) (Nat.le_max_left _ 3)

theorem sound_acceptData (h : Sound genesis s) (hlook : s.mapBlockIndex.lookup hash=some e)
    (hf : e.nStatus.failed=false) {v : AcceptVerdict} (hcontext : v.contextualCheckBlock=false)
    (hsize : 0<v.vtxSize) : Sound genesis (s.acceptBlockData hash e v) := by
  have hsound := h.entries hash e hlook
  rw [IndexState.acceptBlockData,hcontext]
  split_ifs with hdata hwanted hbad hinvalid hcon hpos hpos
  · exact h
  · exact h
  · have hlevel := level_or_flag e.nStatus (a := BLOCK_FAILED_VALID) (by decide)
    have hdata' := haveData_or_flag e.nStatus (a := BLOCK_FAILED_VALID) (by decide)
    apply h.setEntry
    refine ⟨?_,?_,?_,?_⟩
    · simpa only [hlevel] using hsound.transactions
    · simpa only [hdata'] using hsound.data
    · simpa only [hlevel] using hsound.scripts
    · intro hmem
      exact absurd (hsound.ready hmem).2.1 hdata
  · exact h
  · cases hcon
  · cases hcon
  · exact h.setEntry (receiveEntry_sound hsound hf hsize)
  · exact h.setEntry hsound

theorem isValid_scripts {x : Status} (h : x.isValid BLOCK_VALID_SCRIPTS=true) : 5≤x.level := by
  simp only [Status.isValid,Bool.and_eq_true,decide_eq_true_eq] at h
  exact h.2

/-- Whatever branch writes the undo data, the status ends at the script level. -/
theorem connectStatus_ready {x : Status} (hf : x.failed=false) (hd : x.haveData=true)
    (v : ConnectVerdict) :
    5≤(IndexState.connectStatus x v).level ∧ x.level≤(IndexState.connectStatus x v).level ∧
      (IndexState.connectStatus x v).failed=false ∧
      (IndexState.connectStatus x v).haveData=true := by
  have hraise : ∀y : Status,y.failed=false → y.haveData=true → y.level=x.level →
      5≤(y.raiseValidity BLOCK_VALID_SCRIPTS).level ∧
      x.level≤(y.raiseValidity BLOCK_VALID_SCRIPTS).level ∧
      (y.raiseValidity BLOCK_VALID_SCRIPTS).failed=false ∧
      (y.raiseValidity BLOCK_VALID_SCRIPTS).haveData=true := by
    intro y hyf hyd hyl
    rw [level_raise y hyf (by decide),failed_raise y (by decide),hyl]
    exact ⟨Nat.le_max_right _ _,Nat.le_max_left _ _,hyf,haveData_raise y hyd⟩
  have hundo : (x|||BLOCK_HAVE_UNDO).failed=false := by rw [failed_or x (by decide),hf]
  have hlevel : (x|||BLOCK_HAVE_UNDO).level=x.level := level_or_flag x (by decide)
  rw [IndexState.connectStatus]
  split_ifs with hwrite hactivates
  · apply hraise
    · rw [failed_or _ (by decide),hundo]
    · exact haveData_or _ (haveData_or x hd)
    · rw [level_or_flag _ (by decide),hlevel]
  · exact hraise _ hundo (haveData_or x hd) hlevel
  · have hvalid : x.isValid BLOCK_VALID_SCRIPTS=true := by
      by_contra hno
      exact hwrite (.inr (by simpa using hno))
    exact ⟨isValid_scripts hvalid,Nat.le_refl _,hf,hd⟩

omit [DecidableEq H] in
/-- The entry behind the contextual check is the old one, or it carries the flag
and then the rest of the call passes. -/
theorem connectContext_cases {fCheckPOW : Bool} {v : ConnectVerdict} {e' : Entry H}
    (h : IndexState.connectContext fCheckPOW e v=some e') :
    e'=e ∨ (e'={e with nStatus := e.nStatus|||BLOCK_VALID_CONTEXT} ∧ fCheckPOW=true ∧
      v.contextualCheckBlock=true) := by
  rw [IndexState.connectContext] at h
  split_ifs at h with hcheck hpass hold
  · exact .inr ⟨(Option.some.inj h).symm,hcheck.1,hpass⟩
  · exact .inl (Option.some.inj h).symm
  · exact .inl (Option.some.inj h).symm

theorem setEntry_setEntry (s : IndexState H) (hash : H) (e e' : Entry H) (best : Option H)
    (connected : List H) (h : Sound genesis {s.setEntry hash e' with
      bestBlock := best,connected := connected}) :
    Sound genesis {(s.setEntry hash e).setEntry hash e' with
      bestBlock := best,connected := connected} := by
  have hlook : ∀q,((s.setEntry hash e).setEntry hash e').mapBlockIndex.lookup q=
      (s.setEntry hash e').mapBlockIndex.lookup q := by
    intro q
    rw [lookup_setEntry,lookup_setEntry,lookup_setEntry]
    split_ifs <;> rfl
  refine ⟨?_,?_,h.best⟩
  · intro q e'' hq
    exact h.entries q e'' ((hlook q).symm.trans hq)
  · intro q hq
    obtain ⟨e'',he''⟩ := h.present q hq
    exact ⟨e'',(hlook q).trans he''⟩

/-- The last part of `ConnectBlock` on a block whose checks have passed. -/
theorem sound_connected (h : Sound genesis s)
    (hdata : e.nStatus.haveData=true → 0<e.nTx) (hf : e.nStatus.failed=false)
    (hd : e.nStatus.haveData=true) (hprev : e.pprev=s.bestBlock) (v : ConnectVerdict) :
    Sound genesis {(s.setEntry hash e).setEntry hash
      {e with nStatus := IndexState.connectStatus e.nStatus v} with
      bestBlock := some hash,connected := hash::s.connected} := by
  obtain ⟨h5,-,hf',hd'⟩ := connectStatus_ready hf hd v
  apply setEntry_setEntry
  refine h.connect ⟨?_,fun _ => hdata hd⟩ ⟨hf',hd',fun _ => h5⟩ hprev
  constructor
  · intro _
    exact hdata hd
  · intro _
    exact Nat.le_trans (by decide) h5

theorem sound_connectChecked (h : Sound genesis s) (hsound : EntrySound genesis s.connected hash e)
    (hf : e.nStatus.failed=false) (hd : e.nStatus.haveData=true) {fJustCheck : Bool}
    {v : ConnectVerdict} (hwrites : v.writes=true) :
    Sound genesis (s.connectChecked genesis hash e fJustCheck v) := by
  have hsame : Sound genesis (s.setEntry hash e) := h.setEntry hsound
  rw [IndexState.connectChecked]
  dsimp only
  by_cases hstop : v.notaryPay=false ∨ e.pprev≠s.bestBlock
  · rw [if_pos hstop]
    exact hsame
  · have hprev : e.pprev=s.bestBlock := by
      by_contra hno
      exact hstop (.inr hno)
    rw [if_neg hstop]
    split_ifs with hgenesis hjust htx hundo
    · exact hsame
    · refine h.connect ⟨hsound.transactions,hsound.data⟩ ⟨hf,hd,?_⟩ hprev
      intro hne
      exact absurd hgenesis hne
    · exact hsame
    · exact hsame
    · exact sound_connected h hsound.data hf hd hprev v

/-- The contextual flag is set and the call passes: the flag comes together with
the connection. -/
theorem sound_connectFlagged (h : Sound genesis s) (hsound : EntrySound genesis s.connected hash e)
    (hf : e.nStatus.failed=false) (hd : e.nStatus.haveData=true) {fJustCheck : Bool}
    {v : ConnectVerdict} (hwrites : v.writes=true) (hjust : fJustCheck=false)
    (hpay : v.notaryPay=true) (htx : v.transactions=true) (hundo : v.undoWritten=true)
    (hprev : e.pprev=s.bestBlock) :
    Sound genesis (s.connectChecked genesis hash
      {e with nStatus := e.nStatus|||BLOCK_VALID_CONTEXT} fJustCheck v) := by
  have hlevel := level_or_context e.nStatus
  have hf' : (e.nStatus|||BLOCK_VALID_CONTEXT).failed=false := by
    rw [failed_or e.nStatus (by decide),hf]
  have hd' := haveData_or (a := BLOCK_VALID_CONTEXT) e.nStatus hd
  have hgo : ¬(v.notaryPay=false ∨ e.pprev≠s.bestBlock) := by simp [hpay,hprev]
  rw [IndexState.connectChecked]
  dsimp only
  rw [if_neg hgo,hjust,htx,hundo]
  split_ifs with hgenesis hstop hno hdisk
  · cases hstop
  · refine h.connect ⟨?_,fun _ => hsound.data hd⟩ ⟨hf',hd',fun _ => Nat.le_trans (by decide) hlevel⟩ hprev
    constructor
    · intro _
      exact hsound.data hd
    · intro _
      exact Nat.le_trans (by decide) hlevel
  · simp at hno
  · simp at hdisk
  · exact sound_connected (e := {e with nStatus := e.nStatus|||BLOCK_VALID_CONTEXT}) h
      (fun _ => hsound.data hd) hf' hd' hprev v

theorem sound_connectBlock (h : Sound genesis s) {fJustCheck fCheckPOW : Bool} {v : ConnectVerdict}
    (hguard : Plain s (.connectBlock hash fJustCheck fCheckPOW v)) :
    Sound genesis (s.connectBlock genesis hash fJustCheck fCheckPOW v) := by
  rw [IndexState.connectBlock]
  cases hlook : s.mapBlockIndex.lookup hash with
  | none => exact h
  | some e =>
    dsimp only
    by_cases hcheck : v.checkBlock=false
    · rw [if_pos hcheck]
      exact h
    · have hsound := h.entries hash e hlook
      obtain ⟨hwrites,⟨e₀,he₀,hf,hd⟩,hpasses⟩ := hguard (by simpa using hcheck)
      rw [hlook] at he₀
      obtain rfl := Option.some.inj he₀
      rw [if_neg hcheck]
      cases hcontext : IndexState.connectContext fCheckPOW e v with
      | none => exact h
      | some e' =>
        dsimp only
        obtain rfl | ⟨rfl,hpow,hpass⟩ := connectContext_cases hcontext
        · exact sound_connectChecked h hsound hf hd hwrites
        · obtain ⟨hjust,hpay,htx,hundo,e₁,he₁,hprev⟩ := hpasses hpow hpass
          rw [hlook] at he₁
          obtain rfl := Option.some.inj he₁
          exact sound_connectFlagged h hsound hf hd hwrites hjust hpay htx hundo hprev

theorem sound_step {op : IndexOp H} (hguard : Plain s op) (h : Sound genesis s)
    (hstep : indexStep cc genesis s op=some s') : Sound genesis s' := by
  cases op with
  | acceptBlockHeader hash pprev c k =>
    obtain rfl := Option.some.inj hstep
    exact (sound_header h).1
  | acceptBlock hash pprev c k v =>
    have hheader : Sound genesis (s.acceptBlockHeader cc genesis hash pprev c k).1 ∧
        ∀e,(s.acceptBlockHeader cc genesis hash pprev c k).2=some e →
          (s.acceptBlockHeader cc genesis hash pprev c k).1.mapBlockIndex.lookup hash=some e ∧
            e.nStatus.failed=false := sound_header h
    rw [indexStep] at hstep
    cases hr : s.acceptBlockHeader cc genesis hash pprev c k with
    | mk s₁ o =>
      rw [hr] at hheader hstep
      cases o with
      | none =>
        have hrefused := header_refused (congrArg Prod.snd hr)
        rw [hr] at hrefused
        obtain ⟨rfl,hfailed⟩ := hrefused
        dsimp only at hstep
        cases hlook : s₁.mapBlockIndex.lookup hash with
        | none =>
          rw [hlook] at hstep
          obtain rfl := Option.some.inj hstep
          exact h
        | some e =>
          rw [hlook] at hstep
          have hpresent : v.futureHeader=false := by
            by_contra hfuture
            have hf := hguard.2.2 (by simpa using hfuture) e hlook
            rw [hfailed e hlook] at hf
            cases hf
          rw [hpresent] at hstep
          obtain rfl := Option.some.inj hstep
          exact h
      | some e =>
        obtain rfl := Option.some.inj hstep
        obtain ⟨hlook,hf⟩ := hheader.2 e rfl
        exact sound_acceptData hheader.1 hlook hf hguard.1 hguard.2.1
  | receivedBlockTransactions hash vtxSize =>
    rw [indexStep] at hstep
    cases hlook : s.mapBlockIndex.lookup hash with
    | none =>
      rw [hlook] at hstep
      cases hstep
    | some e =>
      rw [hlook] at hstep
      obtain rfl := Option.some.inj hstep
      exact h.setEntry (receiveEntry_sound (h.entries hash e hlook) (hguard.2 e hlook) hguard.1)
  | connectBlock hash fJustCheck fCheckPOW v =>
    obtain rfl := Option.some.inj hstep
    exact sound_connectBlock h hguard
  | disconnectBlock =>
    rw [indexStep] at hstep
    cases hbest : s.bestBlock.bind s.mapBlockIndex.lookup with
    | none =>
      rw [hbest] at hstep
      cases hstep
    | some e =>
      rw [hbest] at hstep
      obtain rfl := Option.some.inj hstep
      obtain ⟨b,hb,hlook⟩ := Option.bind_eq_some_iff.mp hbest
      refine ⟨h.entries,h.present,?_⟩
      exact ((h.entries b e hlook).ready (h.best b hb)).2.2.2

end Steps

/-- Proper ancestors along `pprev`. -/
inductive Ancestor (s : IndexState H) : H → H → Prop
  | parent {hash p : H} {e : Entry H} :
      s.mapBlockIndex.lookup hash=some e → e.pprev=some p → Ancestor s p hash
  | step {hash p a : H} {e : Entry H} :
      s.mapBlockIndex.lookup hash=some e → e.pprev=some p → Ancestor s a p → Ancestor s a hash

/-- The index before the first block. -/
def IndexState.empty : IndexState H := ⟨∅,none,[]⟩

theorem sound_empty (genesis : H) : Sound genesis (IndexState.empty : IndexState H) := by
  refine ⟨?_,?_,?_⟩
  · intro hash e he
    simp [IndexState.empty] at he
  · intro hash hmem
    simp [IndexState.empty] at hmem
  · intro hash hmem
    simp [IndexState.empty] at hmem

/-- An ancestor of a connected block is connected. -/
theorem Sound.ancestor_connected {genesis : H} {s : IndexState H} (h : Sound genesis s) {a hash : H}
    (ha : Ancestor s a hash) (hmem : hash∈s.connected) : a∈s.connected := by
  induction ha with
  | parent hlook hp => exact ((h.entries _ _ hlook).ready hmem).2.2.2 _ hp
  | step hlook hp _ ih => exact ih (((h.entries _ _ hlook).ready hmem).2.2.2 _ hp)

/-- In every run within the condition, script validity means that the block and
all its ancestors have been connected, and the level of transactions goes with a
transaction count. -/
theorem script_validity_means_connected (cc : Bool) (genesis : H) (ops : List (IndexOp H))
    (s : IndexState H) (hrun : run (indexStep cc genesis) ops IndexState.empty=some s)
    (hplain : Guarded (indexStep cc genesis) (Plain) ops IndexState.empty) :
    ∀hash e,s.mapBlockIndex.lookup hash=some e →
      (e.nStatus.isValid BLOCK_VALID_SCRIPTS=true → hash∈s.connected ∧
        ∀a,Ancestor s a hash → a∈s.connected ∧
          (a≠genesis → ∃e',s.mapBlockIndex.lookup a=some e' ∧
            e'.nStatus.isValid BLOCK_VALID_SCRIPTS=true)) ∧
      (BLOCK_VALID_TRANSACTIONS.toNat≤e.nStatus.level ↔ 0<e.nTx) := by
  have hsound : Sound genesis s := by
    apply run_keeps (I := Sound genesis) _ hrun hplain (sound_empty genesis)
    intro t op t' hguard ht hstep
    exact sound_step hguard ht hstep
  intro hash e hlook
  have hentry := hsound.entries hash e hlook
  refine ⟨?_,hentry.transactions⟩
  intro hvalid
  have hmem := hentry.scripts (isValid_scripts hvalid)
  refine ⟨hmem,?_⟩
  intro a ha
  have hamem := hsound.ancestor_connected ha hmem
  refine ⟨hamem,?_⟩
  intro hne
  obtain ⟨e',he'⟩ := hsound.present a hamem
  obtain ⟨hf,-,hl,-⟩ := (hsound.entries a e' he').ready hamem
  refine ⟨e',he',?_⟩
  simp only [Status.isValid,hf,Bool.not_false,Bool.true_and,decide_eq_true_eq]
  exact hl hne

/-- Everything passes, on a block with one transaction. -/
def goodAccept : AcceptVerdict := ⟨false,true,true,false,false,true,true,false,true,1⟩

/-- The same for a block from the future, whose contextual check fails for now. -/
def futureAccept : AcceptVerdict := ⟨false,true,false,true,false,true,true,false,true,1⟩

def goodConnect : ConnectVerdict := ⟨true,true,false,true,true,true,false,true⟩

/-- A block that arrived and is connected only later. -/
theorem script_validity_small :
    ∃s : IndexState Nat,∃e,run (indexStep true 0)
        [.acceptBlock 0 none true true futureAccept,.connectBlock 0 false true goodConnect,
          .acceptBlock 1 (some 0) true true futureAccept,.connectBlock 1 false true goodConnect]
        IndexState.empty=some s ∧ s.mapBlockIndex.lookup 1=some e ∧
      e.nStatus.isValid BLOCK_VALID_SCRIPTS=true ∧ 1∈s.connected := by
  refine ⟨_,_,rfl,rfl,rfl,?_⟩
  refine ((script_validity_means_connected true 0
    [.acceptBlock 0 none true true futureAccept,.connectBlock 0 false true goodConnect,
      .acceptBlock 1 (some 0) true true futureAccept,.connectBlock 1 false true goodConnect]
    _ rfl ?_ 1 _ rfl).1 rfl).1
  refine ⟨⟨rfl,by decide,fun hno => by cases hno⟩,?_⟩
  intro s₁ h₁
  obtain rfl := Option.some.inj h₁
  refine ⟨fun _ => ⟨rfl,⟨_,rfl,rfl,rfl⟩,fun _ _ => ⟨rfl,rfl,rfl,rfl,_,rfl,rfl⟩⟩,?_⟩
  intro s₂ h₂
  obtain rfl := Option.some.inj h₂
  refine ⟨⟨rfl,by decide,fun hno => by cases hno⟩,?_⟩
  intro s₃ h₃
  obtain rfl := Option.some.inj h₃
  refine ⟨fun _ => ⟨rfl,⟨_,rfl,rfl,rfl⟩,fun _ _ => ⟨rfl,rfl,rfl,rfl,_,rfl,rfl⟩⟩,?_⟩
  intro s₄ h₄
  trivial

/-- A block that was only stored is valid up to its scripts: the contextual flag 6
lies in the bits of the level. -/
theorem stored_block_script_valid :
    ∃s : IndexState Nat,∃e,run (indexStep true 0)
        [.acceptBlock 0 none true true goodAccept,.acceptBlock 1 (some 0) true true goodAccept]
        IndexState.empty=some s ∧ s.mapBlockIndex.lookup 1=some e ∧
      e.nStatus.isValid BLOCK_VALID_SCRIPTS=true ∧ s.connected=[] :=
  ⟨_,_,rfl,rfl,rfl,rfl⟩

end Zdeex.Validity
