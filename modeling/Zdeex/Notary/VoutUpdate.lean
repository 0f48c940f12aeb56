import Zdeex.Framework.Probe
import Zdeex.Notary.State

namespace Zdeex.Notary

open Zdeex.Framework

section Parser

/-- The name of the chain, the functions that look at other state and the height of the
block index that `hush_getblockindex` finds for a hash. -/
structure VoutEnv where
  SMART_CHAIN_SYMBOL : List Byte
  NOTARY_PUBKEY33 : List Byte
  IS_HUSH_NOTARY : Bool
  hushChosennotary : Int32 → List Byte → BitVec 32 → Option Int
  IsInitialBlockDownload : Bool
  hushGetblockindex : Uint256 → Option Int32
  symbol_lt : SMART_CHAIN_SYMBOL.length<65
  symbol_null : 0∉SMART_CHAIN_SYMBOL

/-- The arguments of `hush_voutupdate` that it does not write to. -/
structure VoutArgs where
  fJustCheck : Bool
  height : Int32
  txhash : Uint256
  i : Nat
  j : Nat
  value : BitVec 64
  notarized : Bool
  signedmask : BitVec 64
  timestamp : BitVec 32

/-- The variables behind its pointers. -/
structure VoutVars where
  isratification : Bool
  voutmask : BitVec 64
  specialtx : Bool
  notarizedheight : Int32
  deriving DecidableEq

/-- `hush_ccdata` without its links. -/
structure CcData where
  MoM : Uint256
  MoMdepth : Int32
  notarized_height : Int32
  height : Int32
  txi : Nat
  CCid : BitVec 32
  len : Nat
  symbol : List Byte
  deriving DecidableEq

/-- `hush_ccdataMoMoM`; its `MoMoMoffset` stays zero. -/
structure MoMoMData where
  MoMoM : Uint256
  hushstarti : Int32
  hushendi : Int32
  MoMoMdepth : Int32
  numpairs : Int32
  len : Nat
  pairs : List (Int32 × Int32)
  deriving DecidableEq

/-- What a call does besides its result: the calls of `hush_stateupdate` with an
OP_RETURN or for a notarization of this chain, which is still compared with the state
there, and the calls of `hush_rwccdata` and `hush_paxpricefeed`. -/
inductive VoutEvent
  | lastmined (height : Int32)
  | opreturn (height : Int32) (txhash : Uint256) (value : BitVec 64) (opretbuf : List Byte)
      (j : Nat)
  | notarize (height notarizedheight : Int32) (srchash desttxid MoM : Uint256)
      (MoMdepth : Int32)
  | rwccdata (ccdata : CcData) (MoMoMdata : MoMoMData)
  | paxpricefeed (height : Int32) (opretbuf : List Byte)
  deriving DecidableEq

structure VoutResult where
  ret : Int
  vars : VoutVars
  events : List VoutEvent
  deriving DecidableEq

def DRAGON_MAXSCRIPTSIZE : Nat := 10001

/-- The bytes of `CRYPTO555_PUBSECPSTR`. -/
def crypto555 : List Byte :=
  [0x03,0x8a,0x1b,0xd4,0x1a,0x08,0xf3,0x8e,0xdd,0xa5,0x10,0x42,0x98,0x80,0x22,0x93,0x3c,0x57,
   0x75,0xdf,0xce,0x81,0xf7,0xba,0xe0,0xb3,0x2a,0x91,0x79,0x65,0x03,0x52,0xac]

/-- The names that are always taken as notarized: `DPOW`, `ZPOW` and `TUSH`. -/
def alwaysNotarized : List (List Byte) :=
  [[0x44,0x50,0x4f,0x57],[0x5a,0x50,0x4f,0x57],[0x54,0x55,0x53,0x48]]

def bitweight (x : BitVec 64) : Nat := (List.range 64).countP x.getLsbD

def HUSH_MINRATIFY (height : Int32) : Nat := if height.toInt<90000 then 7 else 11

/-- The length of a push and the offset behind its header. -/
structure Push where
  opretlen : Nat
  opoffset : Nat
  deriving DecidableEq

variable (E : VoutEnv) (a : VoutArgs)

/-- The message about a block that does not fit reads the height of a null index when the
hash is unknown, which is `none`. -/
def VoutEnv.hushValidateChain (srchash : Uint256) (notarized_height : Int32) : Option Bool :=
  if E.IsInitialBlockDownload then some true
  else (E.hushGetblockindex srchash).map fun GetHeight => decide (GetHeight=notarized_height)

/-- An output to a public key. -/
def VoutEnv.payPubkey (pubkey33 : List Byte) (notaryid : Int) (vars : VoutVars) :
    VoutResult :=
  let events := if a.i=0 ∧ a.j=0 ∧ E.NOTARY_PUBKEY33=pubkey33 ∧ E.IS_HUSH_NOTARY then
    [VoutEvent.lastmined a.height] else []
  if pubkey33=crypto555 then ⟨notaryid,{vars with specialtx := true},events⟩
  else
    match E.hushChosennotary a.height pubkey33 a.timestamp with
    | none => ⟨notaryid,vars,events⟩
    | some nid =>
        if notaryid≥64 then ⟨notaryid,vars,events⟩
        else if notaryid<0 then
          ⟨nid,{vars with voutmask := vars.voutmask ||| 1<<<(a.j%64)},events⟩
        else if notaryid≠nid then ⟨64,{vars with voutmask := 0},events⟩
        else ⟨notaryid,{vars with voutmask := vars.voutmask ||| 1<<<(a.j%64)},events⟩

def VoutEnv.pubkeyProbe (scriptlen : Nat) (notaryid : Int) (vars : VoutVars) :
    Probe VoutResult :=
  if scriptlen=35 then do
    let size ← Probe.byte 0
    let checksig ← Probe.byte 34
    let pubkey33 ← Probe.bytes 1 33
    if size=33 ∧ checksig=0xac then return E.payPubkey a pubkey33 notaryid vars
    else return ⟨notaryid,vars,[]⟩
  else return ⟨notaryid,vars,[]⟩

def pushProbe : Probe Push := do
  let size ← Probe.byte 1
  if size=0x4c then do
    let size ← Probe.byte 2
    return ⟨size.toNat,3⟩
  else if size=0x4d then do
    let low ← Probe.byte 2
    let high ← Probe.byte 3
    return ⟨low.toNat+high.toNat*256,4⟩
  else return ⟨size.toNat,2⟩

def pairsProbe : Nat → Nat → Probe (List (Int32 × Int32))
  | 0,_ => return []
  | n+1,len => do
      let notarized_height ← Probe.word 32 len
      let MoMoMoffset ← Probe.word 32 (len+4)
      let pairs ← pairsProbe n (len+8)
      return (notarized_height,MoMoMoffset)::pairs

/-- The pairs are there when their number explains the rest of the push; the product is
an `int32_t` that wraps. -/
def pairsFit (push : Push) (len : Nat) (numpairs : Int32) : Prop :=
  BitVec.ofNat 32 len+numpairs*8-BitVec.ofNat 32 push.opoffset=BitVec.ofNat 32 push.opretlen

instance (push : Push) (len : Nat) (numpairs : Int32) :
    Decidable (pairsFit push len numpairs) := inferInstanceAs (Decidable (_=_))

def MoMoMData.zero : MoMoMData := ⟨0,0,0,0,0,0,[]⟩

/-- The fields of `MoMoMdata` and the length of the CCid that is kept with them. -/
def MoMoMProbe (push : Push) (len : Nat) : Probe (Nat × MoMoMData) := do
  let hushstarti ← Probe.word 32 len
  let hushendi ← Probe.word 32 (len+4)
  let MoMoM ← Probe.word 256 (len+8)
  let MoMoMdepth ← Probe.word 32 (len+40)
  let numpairs ← Probe.word 32 (len+44)
  if pairsFit push (len+48) numpairs then do
    let pairs ← pairsProbe numpairs.toInt.toNat (len+48)
    return (4,⟨MoMoM,hushstarti,hushendi,MoMoMdepth,numpairs,48+8*pairs.length,pairs⟩)
  else return (0,⟨MoMoM,hushstarti,hushendi,MoMoMdepth,numpairs,0,[]⟩)

def VoutEnv.CCidProbe (push : Push) (len : Nat) (symbol : List Byte) :
    Probe (BitVec 32 × Nat × MoMoMData) :=
  if len+4-push.opoffset≤push.opretlen then do
    let CCid ← Probe.word 32 len
    if E.SMART_CHAIN_SYMBOL=[] then return (CCid,4,.zero)
    else if len+4+48-push.opoffset≤push.opretlen ∧ symbol=E.SMART_CHAIN_SYMBOL then do
      let MoMoMdata ← MoMoMProbe push (len+4)
      return (CCid,MoMoMdata)
    else return (CCid,0,.zero)
  else return (0,0,.zero)

/-- The MoM and its depth with the call that records them. -/
def VoutEnv.MoMProbe (push : Push) (len : Nat) (symbol : List Byte)
    (notarizedheight : Int32) : Probe (Uint256 × Int32 × List VoutEvent) :=
  if len+36-push.opoffset≤push.opretlen then do
    let MoM ← Probe.word 256 len
    let MoMdepth ← Probe.word 32 (len+32)
    let (CCid,cclen,MoMoMdata) ← E.CCidProbe push (len+36) symbol
    if MoM=0 ∨ (MoMdepth &&& 0xffff).toInt>notarizedheight.toInt then return (0,0,[])
    else return (MoM,MoMdepth,
      [.rwccdata ⟨MoM,MoMdepth &&& 0xffff,notarizedheight,a.height,a.i,CCid,cclen,symbol⟩
        MoMoMdata])
  else return (0,0,[])

/-- A field that only a matched name has. -/
def desttxidProbe (matched : Bool) (len : Nat) : Probe Uint256 :=
  if matched then Probe.word 256 len else return 0

def VoutArgs.isNotarized (matched : Bool) (symbol : List Byte) : Bool :=
  a.notarized || (!matched && a.signedmask≠0 &&
    bitweight a.signedmask≥HUSH_MINRATIFY a.height) || alwaysNotarized.contains symbol

def VoutEnv.validated (matched : Bool) (srchash : Uint256) (notarizedheight : Int32) :
    Option Bool := if matched then E.hushValidateChain srchash notarizedheight else some true

/-- The offset of the name in the push. -/
def nameOffset (matched : Bool) : Nat := 32*(1+if matched then 1 else 0)+4

/-- A notarization in the second output; `none` when `hush_validate_chain` crashes. -/
def VoutEnv.notarizationProbe (push : Push) (matched : Bool) (name : List Byte)
    (r : VoutResult) : Probe (Option VoutResult) := do
  let srchash ← Probe.word 256 push.opoffset
  let notarizedheight ← Probe.word 32 (push.opoffset+32)
  let desttxid ← desttxidProbe matched (push.opoffset+36)
  let vars := {r.vars with notarizedheight := notarizedheight}
  match E.validated matched srchash notarizedheight with
  | none => return none
  | some validated =>
      if a.fJustCheck && matched then return some ⟨-2,vars,r.events⟩
      else if a.isNotarized matched (name.take 65) && validated then do
        let (MoM,MoMdepth,recorded) ← E.MoMProbe a push
          (push.opoffset+nameOffset matched+(name.length+1)) (name.take 65) notarizedheight
        let notarize := if matched then
          [VoutEvent.notarize a.height notarizedheight srchash desttxid MoM MoMdepth] else []
        return some ⟨r.ret,vars,r.events++recorded++notarize⟩
      else return some ⟨r.ret,vars,r.events⟩

/-- The first hash of a push with the chain's name is zero. -/
def VoutEnv.ratificationProbe (push : Push) : Probe Bool :=
  if push.opretlen≥32*2+4 then do
    let same ← Probe.strcmp E.SMART_CHAIN_SYMBOL (push.opoffset+32*2+4)
    if same then do
      let hash ← Probe.bytes push.opoffset 32
      if hash.all (·==0) then do
        let _ ← Probe.span (·==0) DRAGON_MAXSCRIPTSIZE (push.opoffset+32*2+4)
        return true
      else return false
    else return false
  else return false

/-- A push with the chain's name in another output. -/
def VoutEnv.namedProbe (push : Push) (r : VoutResult) : Probe VoutResult := do
  let ratification ← E.ratificationProbe push
  let vars := {r.vars with isratification := r.vars.isratification || ratification}
  if vars.isratification then return ⟨r.ret,vars,r.events⟩
  else do
    let first ← Probe.byte push.opoffset
    if a.signedmask≠0 ∨ first≠0x58 ∧ first≠0x41 then do
      let opretbuf ← Probe.bytes push.opoffset push.opretlen
      return ⟨r.ret,vars,r.events++[.opreturn a.height a.txhash a.value opretbuf a.j]⟩
    else return ⟨r.ret,vars,r.events⟩

def pricefeedProbe (push : Push) (r : VoutResult) : Probe VoutResult :=
  if r.ret≥0 ∧ r.ret<64 then do
    let opretbuf ← Probe.bytes push.opoffset push.opretlen
    return {r with events := r.events++[.paxpricefeed a.height opretbuf]}
  else return r

/-- Behind the comparison with the chain's name. -/
def VoutEnv.nameProbe (push : Push) (matched : Bool) (r : VoutResult) :
    Probe (Option VoutResult) := do
  let namelen ← Probe.span (·==0) DRAGON_MAXSCRIPTSIZE (push.opoffset+nameOffset matched)
  let name ← Probe.bytes (push.opoffset+nameOffset matched) namelen
  if a.j=1 ∧ push.opretlen≥nameOffset matched then E.notarizationProbe a push matched name r
  else if matched ∧ a.i=0 ∧ a.j=1 ∧ push.opretlen=149 then do
    let r ← pricefeedProbe a push r
    return some r
  else if matched then do
    let r ← E.namedProbe a push r
    return some r
  else return some r

def VoutEnv.opreturnProbe (push : Push) (r : VoutResult) : Probe (Option VoutResult) :=
  if E.SMART_CHAIN_SYMBOL=[] then E.nameProbe a push false r
  else do
    let first ← Probe.byte push.opoffset
    if first=0x4b then do
      let opretbuf ← Probe.bytes push.opoffset push.opretlen
      return some ⟨-1,r.vars,r.events++[.opreturn a.height a.txhash a.value opretbuf a.j]⟩
    else do
      let matched ← Probe.strcmp E.SMART_CHAIN_SYMBOL (push.opoffset+32*2+4)
      E.nameProbe a push matched r

/-- `hush_voutupdate` as it reads `scriptbuf`; `none` is the crash in
`hush_validate_chain`. -/
def hushVoutupdate (scriptlen : Nat) (notaryid : Int) (vars : VoutVars) :
    Probe (Option VoutResult) := do
  let r ← E.pubkeyProbe a scriptlen notaryid vars
  let op ← Probe.byte 0
  if op=0x6a then do
    let push ← pushProbe
    E.opreturnProbe a push r
  else return some r

end Parser

section Layout

open Probe (field)

variable (E : VoutEnv) (a : VoutArgs) (s : List Byte)

/-- The push that a script declares. -/
def pushOf : Push :=
  if s.getD 1 0=0x4c then ⟨(s.getD 2 0).toNat,3⟩
  else if s.getD 1 0=0x4d then ⟨(s.getD 2 0).toNat+(s.getD 3 0).toNat*256,4⟩
  else ⟨(s.getD 1 0).toNat,2⟩

/-- The chain's name stands behind two hashes and a height. -/
def VoutEnv.matchedIn (push : Push) : Bool :=
  decide (E.SMART_CHAIN_SYMBOL≠[] ∧ E.SMART_CHAIN_SYMBOL++[0]<+:s.drop (push.opoffset+32*2+4))

/-- The characters in front of the next null. -/
def nameAt (i : Nat) : List Byte := (s.drop i).takeWhile fun b => !(b==0)

/-- Where the fields end that the declared length makes room for, from the CCid on. -/
def VoutEnv.CCidEnd (push : Push) (len : Nat) (symbol : List Byte) : Nat :=
  if len+4-push.opoffset≤push.opretlen then
    if E.SMART_CHAIN_SYMBOL≠[] ∧ len+4+48-push.opoffset≤push.opretlen ∧
        symbol=E.SMART_CHAIN_SYMBOL then
      len+4+48+if pairsFit push (len+4+48) (field s 32 (len+4+44)) then
        8*(field s 32 (len+4+44)).toInt.toNat else 0
    else len+4
  else len

/-- The same from the MoM on. -/
def VoutEnv.fieldsEnd (push : Push) (len : Nat) (symbol : List Byte) : Nat :=
  if len+36-push.opoffset≤push.opretlen then E.CCidEnd s push (len+36) symbol else 0

/-- The parser goes on to the MoM. -/
def VoutEnv.reachesMoM (push : Push) (matched : Bool) (name : List Byte) : Bool :=
  !(a.fJustCheck && matched) && (a.isNotarized matched (name.take 65) &&
    E.validated matched (field s 256 push.opoffset) (field s 32 (push.opoffset+32))==some true)

/-- The parser hands the push to `hush_stateupdate`. -/
def VoutArgs.records (push : Push) (isratification : Bool) : Bool :=
  !(isratification || (push.opretlen≥32*2+4 &&
      ((s.drop push.opoffset).take 32).all (·==0))) &&
    (a.signedmask≠0 || (s.getD push.opoffset 0≠0x58 && s.getD push.opoffset 0≠0x41))

/-- The name ends in the script, and so does what is read behind it. -/
def VoutEnv.nameContained (push : Push) (matched isratification : Bool) : Prop :=
  0∈s.drop (push.opoffset+nameOffset matched) ∧
    if a.j=1 ∧ push.opretlen≥nameOffset matched then
      E.reachesMoM a s push matched (nameAt s (push.opoffset+nameOffset matched)) →
        E.fieldsEnd s push (push.opoffset+nameOffset matched+
          ((nameAt s (push.opoffset+nameOffset matched)).length+1))
            ((nameAt s (push.opoffset+nameOffset matched)).take 65) ≤ s.length
    else matched → a.records s push isratification → push.opoffset+push.opretlen ≤ s.length

/-- What the lengths in a script announce is in the script: a KV message, the comparison
with the chain's name, the name, the fields of a notarization, a push that is recorded. -/
def VoutEnv.Contained (isratification : Bool) : Prop :=
  s.getD 0 0=0x6a →
    if E.SMART_CHAIN_SYMBOL=[] then E.nameContained a s (pushOf s) false isratification
    else (pushOf s).opoffset<s.length ∧
      if s.getD (pushOf s).opoffset 0=0x4b then
        (pushOf s).opoffset+(pushOf s).opretlen ≤ s.length
      else (¬∃t≠[],s.drop ((pushOf s).opoffset+32*2+4)++t=E.SMART_CHAIN_SYMBOL++[0]) ∧
        E.nameContained a s (pushOf s) (E.matchedIn s (pushOf s)) isratification

end Layout

section Bounds

open Probe

variable {E : VoutEnv} {a : VoutArgs} {s : List Byte} {stale : Nat → Byte} {push : Push}
  {len : Nat} {symbol : List Byte}

theorem safe_pairsProbe (n len : Nat) :
    Safe s.length (overlay s stale) (pairsProbe n len) ↔ n=0 ∨ len+8*n ≤ s.length := by
  induction n generalizing len with
  | zero => simp [pairsProbe]
  | succ n ih =>
    rw [pairsProbe,safe_word_bind (by decide),safe_word_bind (by decide),safe_bind,ih]
    simp only [safe_pure,implies_true,and_true]
    omega

theorem safe_MoMoMProbe : Safe s.length (overlay s stale) (MoMoMProbe push len) ↔
    len+48+(if pairsFit push (len+48) (field s 32 (len+44)) then
      8*(field s 32 (len+44)).toInt.toNat else 0) ≤ s.length := by
  rw [MoMoMProbe,safe_word_bind (by decide),safe_word_bind (by decide),
    safe_word_bind (by decide),safe_word_bind (by decide),safe_word_bind (by decide)]
  split_ifs
  · rw [safe_bind,safe_pairsProbe]
    simp only [safe_pure,implies_true,and_true]
    omega
  · simp only [safe_pure,and_true]
    omega

theorem len_le_CCidEnd (E : VoutEnv) (s : List Byte) (push : Push) (len : Nat)
    (symbol : List Byte) : len≤E.CCidEnd s push len symbol := by
  unfold VoutEnv.CCidEnd
  split_ifs <;> omega

theorem safe_CCidProbe (hlen : len ≤ s.length) :
    Safe s.length (overlay s stale) (E.CCidProbe push len symbol) ↔
      E.CCidEnd s push len symbol ≤ s.length := by
  unfold VoutEnv.CCidProbe VoutEnv.CCidEnd
  by_cases hroom : len+4-push.opoffset≤push.opretlen
  · rw [if_pos hroom,if_pos hroom,safe_word_bind (by decide)]
    by_cases hsym : E.SMART_CHAIN_SYMBOL=[]
    · rw [if_pos hsym,if_neg (fun h => h.1 hsym)]
      simp
    · by_cases hnext : len+4+48-push.opoffset≤push.opretlen ∧ symbol=E.SMART_CHAIN_SYMBOL
      · rw [if_neg hsym,if_pos hnext,if_pos ⟨hsym,hnext⟩,safe_bind,safe_MoMoMProbe]
        simp only [safe_pure,implies_true,and_true]
        omega
      · rw [if_neg hsym,if_neg hnext,if_neg (fun h => hnext h.2)]
        simp
  · rw [if_neg hroom,if_neg hroom]
    simp [hlen]

theorem safe_MoMProbe (notarizedheight : Int32) :
    Safe s.length (overlay s stale) (E.MoMProbe a push len symbol notarizedheight) ↔
      E.fieldsEnd s push len symbol ≤ s.length := by
  unfold VoutEnv.MoMProbe VoutEnv.fieldsEnd
  by_cases hroom : len+36-push.opoffset≤push.opretlen
  · rw [if_pos hroom,if_pos hroom,safe_word_bind (by decide),safe_word_bind (by decide),safe_bind]
    have hend := len_le_CCidEnd E s push (len+36) symbol
    constructor
    · rintro ⟨-,hlen,hsafe,-⟩
      exact (safe_CCidProbe hlen).mp hsafe
    · intro h
      refine ⟨by omega,by omega,(safe_CCidProbe (by omega)).mpr h,fun r _ => ?_⟩
      obtain ⟨CCid,cclen,MoMoMdata⟩ := r
      dsimp only
      split_ifs <;> trivial
  · rw [if_neg hroom,if_neg hroom]
    simp

theorem safe_desttxidProbe (stale : Nat → Byte) {matched : Bool}
    (hname : push.opoffset+nameOffset matched ≤ s.length) :
    Safe s.length (overlay s stale) (desttxidProbe matched (push.opoffset+36)) := by
  cases matched with
  | false => trivial
  | true => exact (safe_word (by decide) _).mpr hname

theorem le_nameOffset (matched : Bool) : 36≤nameOffset matched := by
  cases matched <;> decide

/-- In front of the name everything is inside once the name is. -/
theorem safe_notarizationProbe {matched : Bool} {name : List Byte} {r : VoutResult}
    (hname : push.opoffset+nameOffset matched ≤ s.length) :
    Safe s.length (overlay s stale) (E.notarizationProbe a push matched name r) ↔
      (E.reachesMoM a s push matched name=true → E.fieldsEnd s push
        (push.opoffset+nameOffset matched+(name.length+1)) (name.take 65) ≤ s.length) := by
  have hoffset := le_nameOffset matched
  have hdest := safe_desttxidProbe stale hname
  obtain ⟨desttxid,hrun⟩ := Option.isSome_iff_exists.mp hdest.isSome
  have hfirst : push.opoffset+256/8 ≤ s.length := by omega
  have hsecond : push.opoffset+32+32/8 ≤ s.length := by omega
  rw [VoutEnv.notarizationProbe,safe_word_bind (by decide),safe_word_bind (by decide),
    safe_bind_of_run hrun]
  simp only [hfirst,hsecond,hdest,true_and]
  unfold VoutEnv.reachesMoM
  cases hvalid : E.validated matched (field s 256 push.opoffset)
      (field s 32 (push.opoffset+32)) with
  | none => simp
  | some validated =>
    dsimp only
    by_cases hcheck : (a.fJustCheck && matched)=true
    · rw [if_pos hcheck,hcheck]
      simp
    · rw [if_neg hcheck]
      rw [Bool.not_eq_true] at hcheck
      rw [hcheck,Bool.not_false,Bool.true_and,Option.some_beq_some,beq_true]
      by_cases hreach : (a.isNotarized matched (name.take 65) && validated)=true
      · rw [if_pos hreach,safe_bind,safe_MoMProbe]
        simp only [hreach,true_implies]
        refine and_iff_left fun mom _ => ?_
        obtain ⟨MoM,MoMdepth,recorded⟩ := mom
        trivial
      · rw [if_neg hreach]
        simp only [hreach,safe_pure,false_implies,Bool.false_eq_true]

theorem matchedIn_iff : E.matchedIn s push=true ↔ E.SMART_CHAIN_SYMBOL≠[] ∧
    E.SMART_CHAIN_SYMBOL++[0]<+:s.drop (push.opoffset+32*2+4) := decide_eq_true_iff

/-- A comparison that found the name ended in the script. -/
theorem strcmp_ends {str l : List Byte} (h : str++[0]<+:l) : ¬∃t≠[],l++t=str++[0] := by
  rintro ⟨t,hne,heq⟩
  have hle := h.length_le
  have hlen := congrArg List.length heq
  rw [List.length_append] at hlen
  exact hne (List.eq_nil_of_length_eq_zero (by omega))

/-- The loop over the first hash, in a push with the chain's name. -/
theorem ratificationProbe_spec (stale : Nat → Byte) (hmatched : E.matchedIn s push=true)
    (hmax : s.length≤DRAGON_MAXSCRIPTSIZE) :
    Safe s.length (overlay s stale) (E.ratificationProbe push) ∧
      run (overlay s stale) (E.ratificationProbe push)=some (push.opretlen≥32*2+4 &&
        ((s.drop push.opoffset).take 32).all (·==0)) := by
  obtain ⟨-,hstart⟩ := matchedIn_iff.mp hmatched
  have hcmp := (safe_strcmp stale _ _).mpr (strcmp_ends hstart)
  have hnull : ∃b∈s.drop (push.opoffset+32*2+4),(b==0)=true :=
    ⟨0,hstart.subset (by simp),rfl⟩
  have hspan : Safe s.length (overlay s stale)
      (span (·==0) DRAGON_MAXSCRIPTSIZE (push.opoffset+32*2+4)) :=
    (safe_span stale (·==0) (by omega)).mpr hnull
  have hfirst : push.opoffset+32 ≤ s.length := by
    have hlen := hstart.length_le
    rw [List.length_append,List.length_drop,List.length_singleton] at hlen
    omega
  have hbytes : run (overlay s stale) (bytes push.opoffset 32)=
      some ((s.drop push.opoffset).take 32) := run_bytes_overlay (.inr hfirst)
  unfold VoutEnv.ratificationProbe
  by_cases hroom : push.opretlen≥32*2+4
  · rw [if_pos hroom,safe_bind_of_run (run_strcmp hcmp),run_bind,run_strcmp hcmp,
      Option.bind_some,decide_eq_true hstart,if_pos rfl,safe_bind_of_run hbytes,run_bind,hbytes,
      Option.bind_some]
    by_cases hzero : ((s.drop push.opoffset).take 32).all (·==0)=true
    · rw [if_pos hzero,safe_bind_of_run (run_span hspan),run_bind,run_span hspan,
        Option.bind_some]
      refine ⟨⟨hcmp,(safe_bytes _ _).mpr (.inr hfirst),hspan,trivial⟩,?_⟩
      rw [hzero,decide_eq_true hroom]
      rfl
    · rw [if_neg hzero]
      refine ⟨⟨hcmp,(safe_bytes _ _).mpr (.inr hfirst),trivial⟩,?_⟩
      rw [Bool.not_eq_true] at hzero
      rw [hzero,Bool.and_false]
      rfl
  · rw [if_neg hroom,decide_eq_false hroom]
    exact ⟨trivial,rfl⟩

theorem safe_namedProbe {r : VoutResult} (hmatched : E.matchedIn s push=true)
    (hmax : s.length≤DRAGON_MAXSCRIPTSIZE) :
    Safe s.length (overlay s stale) (E.namedProbe a push r) ↔
      (a.records s push r.vars.isratification=true → push.opoffset+push.opretlen ≤ s.length) := by
  obtain ⟨hsafe,hrun⟩ := ratificationProbe_spec stale hmatched hmax
  have hfirst : push.opoffset<s.length := by
    have hlen := (matchedIn_iff.mp hmatched).2.length_le
    rw [List.length_append,List.length_drop,List.length_singleton] at hlen
    omega
  rw [VoutEnv.namedProbe,safe_bind_of_run hrun]
  simp only [hsafe,true_and]
  unfold VoutArgs.records
  by_cases hratified : (r.vars.isratification || (push.opretlen≥32*2+4 &&
      ((s.drop push.opoffset).take 32).all (·==0)))=true
  · rw [if_pos hratified,hratified]
    simp
  · rw [if_neg hratified,safe_byte_bind]
    rw [Bool.not_eq_true] at hratified
    simp only [hratified,hfirst,true_and,Bool.not_false,Bool.true_and]
    by_cases hpasses : a.signedmask≠0 ∨ s.getD push.opoffset 0≠0x58 ∧
        s.getD push.opoffset 0≠0x41
    · rw [if_pos hpasses,safe_bytes_bind]
      have hbool : (decide (a.signedmask≠0) || (decide (s.getD push.opoffset 0≠0x58) &&
          decide (s.getD push.opoffset 0≠0x41)))=true := by
        simpa using hpasses
      simp only [hbool,safe_pure,and_true,true_implies]
      omega
    · have hbool : (decide (a.signedmask≠0) || (decide (s.getD push.opoffset 0≠0x58) &&
          decide (s.getD push.opoffset 0≠0x41)))=false := by
        rw [Bool.eq_false_iff]
        simpa using hpasses
      rw [if_neg hpasses]
      simp only [hbool,safe_pure,Bool.false_eq_true,false_implies]

theorem take_nameAt (s : List Byte) (i : Nat) :
    (s.drop i).take (nameAt s i).length=nameAt s i :=
  (List.prefix_iff_eq_take.mp (List.takeWhile_prefix _)).symm

theorem nameAt_length_le (s : List Byte) (i : Nat) : (nameAt s i).length ≤ s.length-i := by
  rw [←List.length_drop]
  exact (List.takeWhile_prefix _).length_le

theorem safe_nameProbe {matched : Bool} {r : VoutResult}
    (hmax : s.length≤DRAGON_MAXSCRIPTSIZE)
    (hmatched : matched=true → E.matchedIn s push=true) :
    Safe s.length (overlay s stale) (E.nameProbe a push matched r) ↔
      E.nameContained a s push matched r.vars.isratification := by
  have hoffset := le_nameOffset matched
  have hnull : (∃b∈s.drop (push.opoffset+nameOffset matched),(b==0)=true) ↔
      0∈s.drop (push.opoffset+nameOffset matched) := by simp
  unfold VoutEnv.nameProbe VoutEnv.nameContained
  rw [safe_span_bind (by omega),hnull]
  refine and_congr_right fun hin => ?_
  have hlt : push.opoffset+nameOffset matched<s.length := by
    by_contra hge
    rw [List.drop_eq_nil_of_le (by omega)] at hin
    cases hin
  have hlen := nameAt_length_le s (push.opoffset+nameOffset matched)
  change Safe _ _ (bytes _ (nameAt s (push.opoffset+nameOffset matched)).length>>=_) ↔ _
  rw [safe_bytes_bind,take_nameAt,and_iff_right (.inr (by omega))]
  by_cases hsecond : a.j=1 ∧ push.opretlen≥nameOffset matched
  · rw [if_pos hsecond,if_pos hsecond,safe_notarizationProbe hlt.le]
  rw [if_neg hsecond,if_neg hsecond]
  cases matched with
  | false => simp
  | true =>
    have hfeed : ¬(true=true ∧ a.i=0 ∧ a.j=1 ∧ push.opretlen=149) := by
      rintro ⟨-,-,hj,h149⟩
      exact hsecond ⟨hj,by rw [h149]; decide⟩
    rw [if_neg hfeed,if_pos rfl,safe_bind,safe_namedProbe (hmatched rfl) hmax]
    simp

theorem pushProbe_spec (stale : Nat → Byte) (hmin : 4 ≤ s.length) :
    Safe s.length (overlay s stale) pushProbe ∧
      run (overlay s stale) pushProbe=some (pushOf s) := by
  have hbyte : ∀i<4,overlay s stale i=s.getD i 0 := by
    intro i hi
    simp [overlay,List.getElem?_eq_getElem (show i<s.length by omega)]
  unfold pushProbe pushOf
  rw [safe_bind_of_run (run_byte 1),run_bind,run_byte,Option.bind_some,hbyte 1 (by omega)]
  simp only [safe_byte,show 1<s.length by omega,true_and]
  split_ifs
  · rw [safe_bind_of_run (run_byte 2),run_bind,run_byte,Option.bind_some,hbyte 2 (by omega)]
    exact ⟨⟨(safe_byte 2).mpr (by omega),trivial⟩,rfl⟩
  · rw [safe_bind_of_run (run_byte 2),safe_bind_of_run (run_byte 3),run_bind,run_byte,
      Option.bind_some,run_bind,run_byte,Option.bind_some,hbyte 2 (by omega),hbyte 3 (by omega)]
    exact ⟨⟨(safe_byte 2).mpr (by omega),(safe_byte 3).mpr (by omega),trivial⟩,rfl⟩
  · exact ⟨trivial,rfl⟩

theorem payPubkey_isratification (pubkey33 : List Byte) (notaryid : Int) (vars : VoutVars) :
    (E.payPubkey a pubkey33 notaryid vars).vars.isratification=vars.isratification := by
  unfold VoutEnv.payPubkey
  cases E.hushChosennotary a.height pubkey33 a.timestamp with
  | none =>
    dsimp only
    split_ifs <;> rfl
  | some nid =>
    dsimp only
    split_ifs <;> rfl

/-- An output to a public key is read inside, and no ratification comes from it. -/
theorem pubkeyProbe_spec (E : VoutEnv) (a : VoutArgs) (s : List Byte) (stale : Nat → Byte)
    (notaryid : Int) (vars : VoutVars) :
    Safe s.length (overlay s stale) (E.pubkeyProbe a s.length notaryid vars) ∧
      ∃r,run (overlay s stale) (E.pubkeyProbe a s.length notaryid vars)=some r ∧
        r.vars.isratification=vars.isratification := by
  unfold VoutEnv.pubkeyProbe
  by_cases hlen : s.length=35
  · rw [if_pos hlen,safe_bind_of_run (run_byte 0),safe_bind_of_run (run_byte 34),
      safe_bind_of_run (run_bytes 1 33),run_bind,run_byte,Option.bind_some,run_bind,run_byte,
      Option.bind_some,run_bind,run_bytes,Option.bind_some]
    refine ⟨⟨(safe_byte 0).mpr (by omega),(safe_byte 34).mpr (by omega),
      (safe_bytes 1 33).mpr (.inr (by omega)),?_⟩,?_⟩
    · split_ifs <;> trivial
    · split_ifs
      · exact ⟨_,rfl,payPubkey_isratification _ _ _⟩
      · exact ⟨_,rfl,rfl⟩
  · rw [if_neg hlen]
    exact ⟨trivial,_,rfl,rfl⟩

/-- Every read is inside exactly when what the lengths announce is. -/
theorem safe_hushVoutupdate (E : VoutEnv) (a : VoutArgs) (notaryid : Int) (vars : VoutVars)
    (stale : Nat → Byte) (hmin : 4 ≤ s.length) (hmax : s.length≤DRAGON_MAXSCRIPTSIZE) :
    Safe s.length (overlay s stale) (hushVoutupdate E a s.length notaryid vars) ↔
      E.Contained a s vars.isratification := by
  obtain ⟨hpubkey,r,hr,hkept⟩ := pubkeyProbe_spec E a s stale notaryid vars
  obtain ⟨hpush,hrun⟩ := pushProbe_spec stale hmin
  rw [hushVoutupdate,safe_bind_of_run hr,safe_byte_bind,and_iff_right hpubkey,
    and_iff_right (show 0<s.length by omega),VoutEnv.Contained,←hkept]
  by_cases hop : s.getD 0 0=0x6a
  · rw [if_pos hop,safe_bind_of_run hrun,and_iff_right hpush,VoutEnv.opreturnProbe]
    simp only [hop,true_implies]
    by_cases hsym : E.SMART_CHAIN_SYMBOL=[]
    · rw [if_pos hsym,if_pos hsym,safe_nameProbe hmax (fun h => by cases h)]
    · rw [if_neg hsym,if_neg hsym,safe_byte_bind]
      refine and_congr_right fun hfirst => ?_
      split_ifs
      · rw [safe_bytes_bind]
        simp only [safe_pure,and_true]
        omega
      · have hmatched : E.matchedIn s (pushOf s)=decide (E.SMART_CHAIN_SYMBOL++[0]<+:
            s.drop ((pushOf s).opoffset+32*2+4)) := by
          simp only [VoutEnv.matchedIn,hsym,ne_eq,not_false_eq_true,true_and]
        rw [safe_strcmp_bind,←hmatched,safe_nameProbe hmax id]
  · rw [if_neg hop]
    simp only [hop,safe_pure,false_implies]

end Bounds

/-- Whatever an earlier script left behind this one, nothing of it is read, and the result
with all that is decoded and recorded is the same. -/
def DependsOnScript (E : VoutEnv) (a : VoutArgs) (s : List Byte) (notaryid : Int)
    (vars : VoutVars) : Prop :=
  ∀stale,Probe.Safe s.length (Probe.overlay s stale) (hushVoutupdate E a s.length notaryid vars) ∧
    ∀stale',Probe.run (Probe.overlay s stale) (hushVoutupdate E a s.length notaryid vars)=
      Probe.run (Probe.overlay s stale') (hushVoutupdate E a s.length notaryid vars)

/-- The parser depends on the script alone exactly when what its lengths announce is in the
script. -/
theorem dependsOnScript_iff (E : VoutEnv) (a : VoutArgs) (s : List Byte) (notaryid : Int)
    (vars : VoutVars) (hmin : 4 ≤ s.length) (hmax : s.length≤DRAGON_MAXSCRIPTSIZE) :
    DependsOnScript E a s notaryid vars ↔ E.Contained a s vars.isratification := by
  constructor
  · intro h
    exact (safe_hushVoutupdate E a notaryid vars (fun _ => 0) hmin hmax).mp (h _).1
  · intro h stale
    have hsafe := (safe_hushVoutupdate E a notaryid vars stale hmin hmax).mpr h
    exact ⟨hsafe,fun stale' => (hsafe.local fun i hi => Probe.overlay_of_lt hi stale').1⟩

section Scripts

/-- The chain `ZDEEX` with no notary known. -/
def zdeexEnv : VoutEnv where
  SMART_CHAIN_SYMBOL := [0x5a,0x44,0x45,0x45,0x58]
  NOTARY_PUBKEY33 := []
  IS_HUSH_NOTARY := false
  hushChosennotary _ _ _ := none
  IsInitialBlockDownload := false
  hushGetblockindex _ := some 9
  symbol_lt := by decide
  symbol_null := by decide

def secondOutput : VoutArgs := ⟨false,100,7,1,1,0,false,0,0⟩

def freshVars : VoutVars := ⟨false,0,false,0⟩

/-- A KV message that is as long as its push says. -/
theorem dependsOnScript_kv : DependsOnScript zdeexEnv secondOutput [0x6a,0x02,0x4b,0x00] (-1)
    freshVars := by
  refine (dependsOnScript_iff _ _ _ _ _ (by decide) (by decide)).mpr fun _ => ?_
  rw [if_neg (by decide),if_pos (by decide)]
  decide

/-- A push of forty bytes of which the script has one. -/
def truncatedScript : List Byte := [0x6a,0x4c,40,0x4b]

/-- The bytes of an earlier output are recorded with this one. -/
theorem truncatedScript_leaks :
    4≤truncatedScript.length ∧ truncatedScript.length≤DRAGON_MAXSCRIPTSIZE ∧
      Probe.run (Probe.overlay truncatedScript fun _ => 1) (hushVoutupdate zdeexEnv secondOutput
          truncatedScript.length (-1) freshVars)=
        some (some ⟨-1,freshVars,[.opreturn 100 7 0 (0x4b::List.replicate 39 1) 1]⟩) ∧
      ¬DependsOnScript zdeexEnv secondOutput truncatedScript (-1) freshVars := by
  refine ⟨by decide,by decide,by decide +kernel,fun h => ?_⟩
  have hcontained := (safe_hushVoutupdate _ _ _ _ (fun _ => 0) (by decide) (by decide)).mp (h _).1
    rfl
  rw [if_neg (by decide),if_pos (by decide)] at hcontained
  exact absurd hcontained.2 (by decide)

end Scripts

end Zdeex.Notary
