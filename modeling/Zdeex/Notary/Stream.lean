import Zdeex.Notary.StateFile

namespace Zdeex.Notary

open Zdeex.Framework

/-- A call of a `hush_eventadd_` function by a parser; `sp`, `symbol` and `dest`
are the same in every call. -/
inductive EventCall
  | pubkeys (ht : Int32) (pubkeys : List Pubkey33)
  | notarized (ht : Int32) (notarized_hash notarized_desttxid : Uint256)
      (notarized_height : Int32) (MoM : Uint256) (MoMdepth : Int32)
  | hushheight (ht kheight : Int32) (ktimestamp : BitVec 32)
  | opreturn (ht : Int32) (txid : Uint256) (ovalue : BitVec 64) (v : BitVec 16)
      (opret : List Byte)
  | pricefeed (ht : Int32) (pvals : List (BitVec 32))
  deriving DecidableEq

namespace EventCall

def apply (c : Chain) : EventCall → Node → Node
  | .pubkeys ht keys,n => hushEventaddPubkeys c n ht keys
  | .notarized ht notarized_hash notarized_desttxid notarized_height MoM MoMdepth,n =>
      n.mapState fun sp => hushEventaddNotarized c sp ht notarized_hash notarized_desttxid
        notarized_height MoM MoMdepth
  | .hushheight ht kheight ktimestamp,n =>
      n.mapState fun sp => hushEventaddHushheight c sp ht kheight ktimestamp
  | .opreturn ht txid ovalue v opret,n =>
      n.mapState fun sp => hushEventaddOpreturn c sp ht txid ovalue v opret
  | .pricefeed ht pvals,n => n.mapState fun sp => hushEventaddPricefeed c sp ht pvals

def applyAll (c : Chain) (calls : List EventCall) (n : Node) : Node :=
  calls.foldl (fun n call => call.apply c n) n

end EventCall

/-- The test in front of `hush_eventadd_pubkeys` in both parsers. -/
def takesPubkeys (c : Chain) : Prop :=
  c.HUSH_EXTERNAL_NOTARIES≠0 ∧ c.symbol=c.SMART_CHAIN_SYMBOL

instance (c : Chain) : Decidable (takesPubkeys c) := inferInstanceAs (Decidable (_ ∧ _))

section Stream

variable (c : Chain) (u : Uninit)

/-- `fread` into a variable, whose last bytes stay when the stream is short. -/
def freadWord {w : Nat} (x : BitVec w) (bs : List Byte) : BitVec w × List Byte :=
  (ofBytes w (bs.take (w/8)++(toBytes x).drop bs.length),bs.drop (w/8))

/-- `fgetc` at the end is -1, and `fread` of -1 items reads nothing there. -/
def streamP (ht : Int32) : List Byte → List Byte × Option EventCall
  | [] => ([],none)
  | num::bs =>
      if num.toNat≤64 then
        (bs.drop (33*num.toNat),
          if 33*num.toNat≤bs.length ∧ takesPubkeys c then
            some (.pubkeys ht (wordsOf 264 num.toNat (bs.take (33*num.toNat))))
          else none)
      else (bs,none)

def streamNotarized (withMoM : Bool) (ht : Int32) (bs : List Byte) :
    List Byte × Option EventCall :=
  let (notarized_height,bs) := freadWord u.notarized_height bs
  let (notarized_hash,bs) := freadWord (0 : Uint256) bs
  let (notarized_desttxid,bs) := freadWord (0 : Uint256) bs
  let (MoM,bs) := if withMoM then freadWord (0 : Uint256) bs else (0,bs)
  let (MoMdepth,bs) := if withMoM then freadWord u.MoMdepth bs else (0,bs)
  (bs,some (.notarized ht notarized_hash notarized_desttxid notarized_height MoM MoMdepth))

def streamU (bs : List Byte) : List Byte × Option EventCall :=
  let bs := (bs.drop 1).drop 1
  let bs := (freadWord (0 : BitVec 64) bs).2
  ((freadWord (0 : Uint256) bs).2,none)

def streamK (ht : Int32) (bs : List Byte) : List Byte × Option EventCall :=
  let (kheight,bs) := freadWord u.kheight bs
  (bs,some (.hushheight ht kheight 0))

def streamT (ht : Int32) (bs : List Byte) : List Byte × Option EventCall :=
  let (kheight,bs) := freadWord u.kheight bs
  let (ktimestamp,bs) := freadWord u.ktimestamp bs
  (bs,some (.hushheight ht kheight ktimestamp))

def streamR (ht : Int32) (bs : List Byte) : List Byte × Option EventCall :=
  let (txid,bs) := freadWord (0 : Uint256) bs
  let (v,bs) := freadWord u.v bs
  let (ovalue,bs) := freadWord u.ovalue bs
  let (olen,bs) := freadWord u.olen bs
  let opret := bs.take olen.toNat++((List.range olen.toNat).map u.opret).drop bs.length
  (bs.drop olen.toNat,some (.opreturn ht txid ovalue v opret))

/-- At the end `numpvals` is -1, whose product with a size is above every bound. -/
def streamV (ht : Int32) : List Byte → List Byte × Option EventCall
  | [] => ([],none)
  | numpvals::bs =>
      if numpvals.toNat≤128 then
        (bs.drop (4*numpvals.toNat),
          if 4*numpvals.toNat≤bs.length then
            some (.pricefeed ht (wordsOf 32 numpvals.toNat (bs.take (4*numpvals.toNat))))
          else none)
      else (bs,none)

def streamPayload (func : Byte) (ht : Int32) (bs : List Byte) : List Byte × Option EventCall :=
  if func=letter 'P' then streamP c ht bs
  else if func=letter 'N' then streamNotarized u false ht bs
  else if func=letter 'M' then streamNotarized u true ht bs
  else if func=letter 'U' then streamU bs
  else if func=letter 'K' then streamK u ht bs
  else if func=letter 'T' then streamT u ht bs
  else if func=letter 'R' then streamR u ht bs
  else if func=letter 'V' then streamV ht bs
  else (bs,none)

/-- The function byte, what is left of the stream and the call made; `none` is -1. -/
def hushParsestatefile : List Byte → Option (Byte × List Byte × Option EventCall)
  | [] => none
  | func::bs =>
      let (ht,bs) := freadWord u.ht bs
      some (func,streamPayload c u func ht bs)

end Stream

/-- The calls of `hush_parsestatefile` until it returns -1. -/
def streamLoop (c : Chain) (u : Nat → Uninit) : Nat → List Byte → Option (List EventCall)
  | 0,_ => none
  | k+1,bs =>
      match hushParsestatefile c (u bs.length) bs with
      | none => some []
      | some (_,bs',call) => (streamLoop c u k bs').map (call.toList++·)

def streamCalls (c : Chain) (u : Nat → Uninit) (f : List Byte) : Option (List EventCall) :=
  streamLoop c u (f.length+1) f

section Buffer

variable (c : Chain) (u : Uninit) (f : List Byte)

def bufferP (ht : Int32) (fpos : Nat) : Nat × Option EventCall :=
  let num := (byteAt u f fpos).toNat
  if num≤64 then
    match memread f (33*num) (fpos+1) with
    | none => (fpos+1,none)
    | some (bs,p) =>
        (p,if takesPubkeys c then some (.pubkeys ht (wordsOf 264 num bs)) else none)
  else (fpos+1,none)

def bufferNotarized (withMoM : Bool) (ht : Int32) (fpos : Nat) : Nat × Option EventCall :=
  let (notarized_height,p) := readWord f u.notarized_height fpos
  let (notarized_hash,p) := readWord f (0 : Uint256) p
  let (notarized_desttxid,p) := readWord f (0 : Uint256) p
  let (MoM,q) := if withMoM then readWord f (0 : Uint256) p else (0,p)
  let (MoMdepth,q) := if withMoM then readWord f u.MoMdepth q else (0,q)
  (q,some (.notarized ht notarized_hash notarized_desttxid notarized_height MoM MoMdepth))

def bufferU (fpos : Nat) : Nat × Option EventCall :=
  let p := (readWord f (0 : BitVec 64) (fpos+2)).2
  ((readWord f (0 : Uint256) p).2,none)

def bufferK (ht : Int32) (fpos : Nat) : Nat × Option EventCall :=
  let (kheight,p) := readWord f u.kheight fpos
  (p,some (.hushheight ht kheight 0))

def bufferT (ht : Int32) (fpos : Nat) : Nat × Option EventCall :=
  let (kheight,p) := readWord f u.kheight fpos
  let (ktimestamp,p) := readWord f u.ktimestamp p
  (p,some (.hushheight ht kheight ktimestamp))

def bufferR (ht : Int32) (fpos : Nat) : Nat × Option EventCall :=
  let (txid,p) := readWord f (0 : Uint256) fpos
  let (v,p) := readWord f u.v p
  let (ovalue,p) := readWord f u.ovalue p
  let (olen,p) := readWord f u.olen p
  let (opret,p) := (memread f olen.toNat p).getD ((List.range olen.toNat).map u.opret,p)
  (p,some (.opreturn ht txid ovalue v opret))

def bufferV (ht : Int32) (fpos : Nat) : Nat × Option EventCall :=
  let numpvals := (byteAt u f fpos).toNat
  if numpvals≤128 then
    match memread f (4*numpvals) (fpos+1) with
    | none => (fpos+1,none)
    | some (bs,p) => (p,some (.pricefeed ht (wordsOf 32 numpvals bs)))
  else (fpos+1,none)

def bufferPayload (func : Byte) (ht : Int32) (fpos : Nat) : Nat × Option EventCall :=
  if func=letter 'P' then bufferP c u f ht fpos
  else if func=letter 'N' then bufferNotarized u f false ht fpos
  else if func=letter 'M' then bufferNotarized u f true ht fpos
  else if func=letter 'U' then bufferU f fpos
  else if func=letter 'K' then bufferK u f ht fpos
  else if func=letter 'T' then bufferT u f ht fpos
  else if func=letter 'R' then bufferR u f ht fpos
  else if func=letter 'V' then bufferV u f ht fpos
  else (fpos,none)

/-- `hush_parsestatefiledata` with the call it makes in place of its effect. -/
def bufferRecord (fpos : Nat) : Option (Byte × Nat × Option EventCall) :=
  if fpos<f.length then
    let func := byteAt u f fpos
    let (ht,p) := readWord f u.ht (fpos+1)
    some (func,bufferPayload c u f func ht p)
  else none

end Buffer

/-- The calls of `hush_parsestatefiledata` until it returns -1. -/
def bufferLoop (c : Chain) (u : Nat → Uninit) (f : List Byte) :
    Nat → Nat → Option (List EventCall)
  | 0,_ => none
  | k+1,fpos =>
      match bufferRecord c (u fpos) f fpos with
      | none => some []
      | some (_,p,call) => (bufferLoop c u f k p).map (call.toList++·)

def bufferCalls (c : Chain) (u : Nat → Uninit) (f : List Byte) : Option (List EventCall) :=
  bufferLoop c u f (f.length+1) 0

section Effect

variable (c : Chain) (u : Uninit) (f : List Byte)

/-- The effect of the call of a record, if it makes one. -/
def effect (r : Nat × Option EventCall) (n : Node) : Nat × Node :=
  (r.1,EventCall.applyAll c r.2.toList n)

theorem parseP_eq (ht : Int32) (fpos : Nat) (n : Node) :
    parseP c u f ht fpos n=effect c (bufferP c u f ht fpos) n := by
  simp only [parseP,bufferP]
  split
  · cases memread f (33*(byteAt u f fpos).toNat) (fpos+1) with
    | none => rfl
    | some r =>
      obtain ⟨bs,p⟩ := r
      by_cases htakes : takesPubkeys c
      · have hboth : c.HUSH_EXTERNAL_NOTARIES≠0 ∧ c.symbol=c.SMART_CHAIN_SYMBOL := htakes
        simp only [effect,if_pos htakes,if_pos hboth]
        rfl
      · have hnot : ¬(c.HUSH_EXTERNAL_NOTARIES≠0 ∧ c.symbol=c.SMART_CHAIN_SYMBOL) := htakes
        simp only [effect,if_neg htakes,if_neg hnot]
        rfl
  · rfl

theorem parseV_eq (ht : Int32) (fpos : Nat) (n : Node) :
    parseV c u f ht fpos n=effect c (bufferV u f ht fpos) n := by
  simp only [parseV,bufferV]
  split
  · cases memread f (4*(byteAt u f fpos).toNat) (fpos+1) with
    | none => rfl
    | some r => rfl
  · rfl

theorem parsePayload_eq (func : Byte) (ht : Int32) (fpos : Nat) (n : Node) :
    parsePayload c u f func ht fpos n=effect c (bufferPayload c u f func ht fpos) n := by
  unfold parsePayload bufferPayload
  rw [parseP_eq,parseV_eq]
  simp only [apply_ite (fun r => effect c r n)]
  rfl

end Effect

/-- Replaying a file performs the calls of the buffer parser in their order. -/
theorem replayLoop_eq (c : Chain) (u : Nat → Uninit) (f : List Byte) (k fpos : Nat) (n : Node) :
    replayLoop c u f k fpos n=
      (bufferLoop c u f k fpos).map fun calls => EventCall.applyAll c calls n := by
  induction k generalizing fpos n with
  | zero => rfl
  | succ k ih =>
    rw [replayLoop,bufferLoop,hushParsestatefiledata,bufferRecord]
    by_cases hlt : fpos<f.length
    · simp only [if_pos hlt,parsePayload_eq,effect]
      rw [ih,Option.map_map]
      congr 1
      funext calls
      simp [EventCall.applyAll,List.foldl_append]
    · simp only [if_neg hlt]
      rfl

theorem replay_eq_applyAll (c : Chain) (u : Nat → Uninit) (f : List Byte) (n : Node) :
    replay c u f n=(bufferCalls c u f).map fun calls => EventCall.applyAll c calls n :=
  replayLoop_eq c u f _ 0 n

end Zdeex.Notary
