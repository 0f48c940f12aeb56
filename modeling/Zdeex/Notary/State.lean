import Zdeex.Framework.Bytes
import Zdeex.Primitives.Uint256

namespace Zdeex.Notary

open Zdeex.Framework

/-- An `int32_t`; comparisons go through `toInt`. -/
abbrev Int32 := BitVec 32

/-- A compressed public key, as the number its 33 bytes spell. -/
abbrev Pubkey33 := BitVec 264

/-- The globals read on the notarization path; `hush_verifynotarization` asks
another daemon, so its answers are a parameter. -/
structure Chain where
  SMART_CHAIN_SYMBOL : String
  HUSH_EXTERNAL_NOTARIES : Int32
  IS_HUSH_NOTARY : Int32
  hushVerifynotarization : String → String → Int32 → Int32 → Uint256 → Uint256 → Int

namespace Chain

/-- `symbol` of `hush_nameset`. -/
def symbol (c : Chain) : String :=
  if c.SMART_CHAIN_SYMBOL="" then "HUSH3" else c.SMART_CHAIN_SYMBOL

/-- `dest` of `hush_nameset`. -/
def dest (c : Chain) : String := if c.SMART_CHAIN_SYMBOL="" then "BTC" else "HUSH3"

/-- `coin` of `hush_eventadd_notarized`. -/
def coin (c : Chain) : String :=
  if c.SMART_CHAIN_SYMBOL="" then "HUSH3" else c.SMART_CHAIN_SYMBOL

end Chain

structure NotarizedCheckpoint where
  nHeight : Int32
  notarized_height : Int32
  notarized_hash : Uint256
  notarized_desttxid : Uint256
  MoM : Uint256
  MoMdepth : Int32
  deriving DecidableEq

/-- The payloads of `hush_event`, one constructor per `HUSH_EVENT_` letter. -/
inductive EventData
  | ratify (pubkeys : List Pubkey33)
  | notarized (blockhash desttxid MoM : Uint256) (notarizedheight MoMdepth : Int32)
      (dest : String)
  | hushheight (hushheight : Int32) (timestamp : BitVec 32)
  | rewind (height : Int32)
  | pricefeed (prices : List (BitVec 32))
  | opreturn (txid : Uint256) (value : BitVec 64) (vout : BitVec 16) (opret : List Byte)
  deriving DecidableEq

structure HushEvent where
  height : Int32
  symbol : String
  data : EventData
  deriving DecidableEq

/-- `Hush_events` has its newest event first, `NPOINTS` its newest one last. -/
structure HushState where
  NOTARIZED_HASH : Uint256
  NOTARIZED_DESTTXID : Uint256
  MoM : Uint256
  SAVEDHEIGHT : Int32
  CURRENT_HEIGHT : Int32
  NOTARIZED_HEIGHT : Int32
  MoMdepth : Int32
  SAVEDTIMESTAMP : BitVec 32
  NPOINTS : List NotarizedCheckpoint
  Hush_events : List HushEvent
  deriving DecidableEq

def HushState.empty : HushState := ⟨0,0,0,0,0,0,0,0,[],[]⟩

/-- `Notaries` in the order of their `notaryid`. -/
structure KnotariesEntry where
  height : Int32
  numnotaries : Nat
  Notaries : List Pubkey33
  deriving DecidableEq

/-- The chain's `hush_state` with the notary table, which is a global, and the
static of `hush_notarysinit`. -/
structure Node where
  sp : HushState
  Pubkeys : List KnotariesEntry
  hwmheight : Int32
  deriving DecidableEq

namespace Node

/-- A node before its first block, with the table `hush_init` left. -/
def fresh (Pubkeys : List KnotariesEntry) (hwmheight : Int32) : Node :=
  ⟨.empty,Pubkeys,hwmheight⟩

def mapState (n : Node) (f : HushState → HushState) : Node := {n with sp := f n.sp}

theorem mapState_eq (n : Node) (f : HushState → HushState) :
    n.mapState f={n with sp := f n.sp} := rfl

end Node

section Events

variable (c : Chain)

def hushEventadd (sp : HushState) (height : Int32) (data : EventData) : HushState :=
  if c.SMART_CHAIN_SYMBOL="" then sp
  else {sp with Hush_events := ⟨height,c.symbol,data⟩::sp.Hush_events}

def hushNotarizedUpdate (sp : HushState) (nHeight notarized_height : Int32)
    (notarized_hash notarized_desttxid MoM : Uint256) (MoMdepth : Int32) : HushState :=
  if notarized_height.toInt≥nHeight.toInt then sp
  else
    {sp with
      NPOINTS := sp.NPOINTS++
        [⟨nHeight,notarized_height,notarized_hash,notarized_desttxid,MoM,MoMdepth⟩]
      NOTARIZED_HEIGHT := notarized_height
      NOTARIZED_HASH := notarized_hash
      NOTARIZED_DESTTXID := notarized_desttxid
      MoM := MoM
      MoMdepth := MoMdepth}

def hushEventaddNotarized (sp : HushState) (height : Int32)
    (notarized_hash notarized_desttxid : Uint256) (notarizedheight : Int32)
    (MoM : Uint256) (MoMdepth : Int32) : HushState :=
  if c.IS_HUSH_NOTARY≠0 ∧ c.hushVerifynotarization c.symbol c.dest height notarizedheight
      notarized_hash notarized_desttxid<0 then sp
  else if c.symbol=c.coin then
    hushNotarizedUpdate
      (hushEventadd c sp height
        (.notarized notarized_hash notarized_desttxid MoM notarizedheight MoMdepth c.dest))
      height notarizedheight notarized_hash notarized_desttxid MoM MoMdepth
  else sp

/-- `HUSH_MAXBLOCKS/HUSH_DPOW_GAP` and `HUSH_DPOW_GAP`. -/
def pubkeysSize : Nat := 250000/2000

def dpowGap : Nat := 2000

/-- First table entry that a ratification at `origheight` takes over. -/
def ratifyIndex (origheight : Int32) : Nat :=
  if 0<origheight.toInt then
    min ((origheight.toInt.toNat+dpowGap/2)/dpowGap+1) (pubkeysSize-1)
  else 0

/-- The last loop of `hush_notarysinit`, from entry `i` on. -/
def fillPubkeys (pubkeys : List Pubkey33) (origheight hwmheight : Int32) :
    Nat → List KnotariesEntry → List KnotariesEntry
  | _,[] => []
  | i,e::es =>
      if e.height≠0 ∧ origheight.toInt<hwmheight.toInt then e::es
      else ⟨BitVec.ofNat 32 (i*dpowGap),pubkeys.length,pubkeys⟩::
        fillPubkeys pubkeys origheight hwmheight (i+1) es

def hushNotarysinit (n : Node) (origheight : Int32) (pubkeys : List Pubkey33) : Node :=
  let htind := ratifyIndex origheight
  {n with
    Pubkeys := n.Pubkeys.take htind++
      fillPubkeys pubkeys origheight n.hwmheight htind (n.Pubkeys.drop htind)
    hwmheight := if origheight.toInt>n.hwmheight.toInt then origheight else n.hwmheight}

def hushEventaddPubkeys (n : Node) (height : Int32) (pubkeys : List Pubkey33) : Node :=
  hushNotarysinit (n.mapState fun sp => hushEventadd c sp height (.ratify pubkeys))
    height pubkeys

/-- Only the 35 prices of `hush_event_pricefeed` are recorded. -/
def hushEventaddPricefeed (sp : HushState) (height : Int32) (prices : List (BitVec 32)) :
    HushState :=
  if prices.length=35 then hushEventadd c sp height (.pricefeed prices) else sp

def hushEventaddOpreturn (sp : HushState) (height : Int32) (txid : Uint256)
    (value : BitVec 64) (vout : BitVec 16) (buf : List Byte) : HushState :=
  if c.SMART_CHAIN_SYMBOL="" then sp
  else hushEventadd c sp height (.opreturn txid value vout buf)

def hushEventUndo (sp : HushState) (ep : HushEvent) : HushState :=
  match ep.data with
  | .hushheight _ _ =>
      if ep.height.toInt ≤ sp.SAVEDHEIGHT.toInt then {sp with SAVEDHEIGHT := ep.height} else sp
  | _ => sp

/-- The loop of `hush_event_rewind` over the events still recorded. -/
def rewindEvents (height : Int32) : List HushEvent → HushState → HushState
  | [],sp => {sp with Hush_events := []}
  | ep::eps,sp =>
      if ep.height.toInt<height.toInt then {sp with Hush_events := ep::eps}
      else rewindEvents height eps (hushEventUndo sp ep)

def hushEventRewind (sp : HushState) (height : Int32) : HushState :=
  rewindEvents height sp.Hush_events sp

def hushSethushheight (sp : HushState) (hushheight : Int32) (timestamp : BitVec 32) :
    HushState :=
  let sp := if hushheight.toInt>sp.SAVEDHEIGHT.toInt then
    {sp with SAVEDHEIGHT := hushheight,SAVEDTIMESTAMP := timestamp} else sp
  if hushheight.toInt>sp.CURRENT_HEIGHT.toInt then {sp with CURRENT_HEIGHT := hushheight}
  else sp

def hushEventaddHushheight (sp : HushState) (height hushheight : Int32)
    (timestamp : BitVec 32) : HushState :=
  if hushheight.toInt>0 then
    hushSethushheight (hushEventadd c sp height (.hushheight hushheight timestamp))
      hushheight timestamp
  else hushEventRewind (hushEventadd c sp height (.rewind height)) height

end Events

@[simp] theorem Chain.symbol_eq_coin (c : Chain) : c.symbol=c.coin := rfl

/-- The test `strcmp(symbol,SMART_CHAIN_SYMBOL)` of the parser. -/
theorem Chain.symbol_eq_iff (c : Chain) :
    c.symbol=c.SMART_CHAIN_SYMBOL ↔ c.SMART_CHAIN_SYMBOL≠"" := by
  unfold symbol
  split
  · rename_i h
    rw [h]
    decide
  · rename_i h
    simp [h]

/-- A rewind reads the event list and `SAVEDHEIGHT` only. -/
theorem rewindEvents_frame (height : Int32) (eps : List HushEvent) (sp : HushState)
    (xs : List HushEvent) :
    rewindEvents height eps {sp with Hush_events := xs}=rewindEvents height eps sp := by
  induction eps generalizing sp with
  | nil => rfl
  | cons ep eps ih =>
    have hundo : hushEventUndo {sp with Hush_events := xs} ep=
        {hushEventUndo sp ep with Hush_events := xs} := by
      unfold hushEventUndo
      split
      · split
        · rfl
        · rfl
      · rfl
    by_cases hlow : ep.height.toInt<height.toInt
    · simp only [rewindEvents,if_pos hlow]
    · simp only [rewindEvents,if_neg hlow]
      rw [hundo,ih]

/-- What remains after a rewind is out of reach of the next one. -/
theorem rewindEvents_idem (height : Int32) (eps : List HushEvent) (sp : HushState) :
    hushEventRewind (rewindEvents height eps sp) height=rewindEvents height eps sp := by
  induction eps generalizing sp with
  | nil => rfl
  | cons ep eps ih =>
    by_cases hlow : ep.height.toInt<height.toInt
    · simp only [rewindEvents,hushEventRewind,if_pos hlow]
    · simp only [rewindEvents,if_neg hlow]
      exact ih _

theorem hushEventRewind_idem (sp : HushState) (height : Int32) :
    hushEventRewind (hushEventRewind sp height) height=hushEventRewind sp height :=
  rewindEvents_idem height _ sp

/-- The rewind event of a height is undone by its own rewind. -/
theorem hushEventRewind_rewindEvent (c : Chain) (sp : HushState) (height : Int32) :
    hushEventRewind (hushEventadd c sp height (.rewind height)) height=
      hushEventRewind sp height := by
  unfold hushEventadd
  split
  · rfl
  · simp only [hushEventRewind,rewindEvents,lt_irrefl,if_false,hushEventUndo]
    exact rewindEvents_frame height _ sp _

/-- Rewinding before the rewind record is written changes nothing. -/
theorem hushEventaddHushheight_rewind (c : Chain) (sp : HushState) (height hushheight : Int32)
    (timestamp : BitVec 32) (hneg : ¬hushheight.toInt>0) :
    hushEventaddHushheight c (hushEventRewind sp height) height hushheight timestamp=
      hushEventaddHushheight c sp height hushheight timestamp := by
  simp only [hushEventaddHushheight,if_neg hneg,hushEventRewind_rewindEvent,
    hushEventRewind_idem]

end Zdeex.Notary
