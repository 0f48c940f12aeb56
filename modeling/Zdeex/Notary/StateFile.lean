import Zdeex.Notary.State

namespace Zdeex.Notary

open Zdeex.Framework

/-- The function byte of a record. -/
def letter (ch : Char) : Byte := BitVec.ofNat 8 ch.toNat

/-- Arguments of `hush_stateupdate`; an empty list is a null pointer or a zero
count. The body never reads the arguments `MoM` and `MoMdepth`. -/
structure UpdateArgs where
  height : Int32
  notarypubs : List Pubkey33
  notaryid : Byte
  txhash : Uint256
  voutmask : BitVec 64
  numvouts : Byte
  pvals : List (BitVec 32)
  HUSHheight : Int32
  HUSHtimestamp : BitVec 32
  opretvalue : BitVec 64
  opretbuf : List Byte
  vout : BitVec 16
  notarypubs_le : notarypubs.length≤64
  pvals_le : pvals.length≤128
  opretbuf_lt : opretbuf.length<65536
  deriving DecidableEq

namespace UpdateArgs

/-- The call with every other argument zero. -/
def plain (height : Int32) : UpdateArgs :=
  ⟨height,[],0,0,0,0,[],0,0,0,[],0,by decide,by decide,by decide⟩

/-- Both calls of `hush_voutupdate` that record an OP_RETURN. -/
def opreturn (height : Int32) (txhash : Uint256) (value : BitVec 64) (opretbuf : List Byte)
    (j : BitVec 16) (h : opretbuf.length<65536) : UpdateArgs :=
  {plain height with txhash := txhash,opretvalue := value,opretbuf := opretbuf,
                     vout := j,opretbuf_lt := h}

/-- The call of `hush_connectblock` at a ratification. -/
def ratified (height : Int32) (pubkeys : List Pubkey33) (h : pubkeys.length≤64) :
    UpdateArgs :=
  {plain height with notarypubs := pubkeys,notarypubs_le := h}

/-- The call of `hush_connectblock` after the last transaction of a new tip. -/
def connected (height : Int32) (nTime : BitVec 32) : UpdateArgs :=
  {plain height with HUSHheight := height,HUSHtimestamp := nTime}

/-- The call of `hush_connectblock` when the height does not grow. -/
def reorged (height : Int32) (nTime : BitVec 32) : UpdateArgs :=
  {plain height with HUSHheight := -height,HUSHtimestamp := nTime}

end UpdateArgs

section Write

variable (c : Chain)

def writesMoM (sp : HushState) : Bool := sp.MoMdepth≠0 && sp.MoM≠0

/-- The `N` or `M` record, from the fields of the state. -/
def notarizedRecord (height : Int32) (sp : HushState) : List Byte :=
  (if writesMoM sp then letter 'M' else letter 'N')::(toBytes height++
    (toBytes sp.NOTARIZED_HEIGHT++(toBytes sp.NOTARIZED_HASH++(toBytes sp.NOTARIZED_DESTTXID++
      if writesMoM sp then toBytes sp.MoM++toBytes sp.MoMdepth else []))))

/-- The bytes appended to the file and the state after the call. -/
def hushStateupdate (a : UpdateArgs) (n : Node) : List Byte × Node :=
  if a.height.toInt≤0 then ([],n)
  else if a.HUSHheight≠0 then
    (if a.HUSHtimestamp≠0 then
        letter 'T'::(toBytes a.height++(toBytes a.HUSHheight++toBytes a.HUSHtimestamp))
      else letter 'K'::(toBytes a.height++toBytes a.HUSHheight),
      n.mapState fun sp =>
        hushEventaddHushheight c sp a.height a.HUSHheight a.HUSHtimestamp)
  else if a.opretbuf≠[] then
    (letter 'R'::(toBytes a.height++(toBytes a.txhash++(toBytes a.vout++
        (toBytes a.opretvalue++(toBytes (BitVec.ofNat 16 a.opretbuf.length)++a.opretbuf))))),
      n.mapState fun sp =>
        hushEventaddOpreturn c sp a.height a.txhash a.opretvalue a.vout a.opretbuf)
  else if a.notarypubs≠[] then
    (letter 'P'::(toBytes a.height++(BitVec.ofNat 8 a.notarypubs.length::
        a.notarypubs.flatMap toBytes)),
      hushEventaddPubkeys c n a.height a.notarypubs)
  else if a.voutmask≠0 ∧ 0<a.numvouts.toNat then
    (letter 'U'::(toBytes a.height++(a.numvouts::a.notaryid::
        (toBytes a.voutmask++toBytes a.txhash))),n)
  else if a.pvals≠[] then
    if 32≤(a.pvals.take 32).countP (·≠0) then
      (letter 'V'::(toBytes a.height++(BitVec.ofNat 8 a.pvals.length::
          a.pvals.flatMap toBytes)),
        n.mapState fun sp => hushEventaddPricefeed c sp a.height a.pvals)
    else ([],n)
  else
    (notarizedRecord a.height n.sp,
      n.mapState fun sp => hushEventaddNotarized c sp a.height sp.NOTARIZED_HASH
        sp.NOTARIZED_DESTTXID sp.NOTARIZED_HEIGHT sp.MoM sp.MoMdepth)

end Write

/-- What connecting blocks does to the state of the notarizations. -/
inductive Step
  /-- A call of `hush_stateupdate` with nothing done before it. -/
  | update (a : UpdateArgs)
  /-- `hush_voutupdate` at a validated notarization of this chain. -/
  | notarize (height notarizedheight : Int32) (srchash desttxid MoM : Uint256)
      (MoMdepth : Int32)
  /-- `hush_connectblock` at a height that is not above the highest one. -/
  | reorg (height : Int32) (nTime : BitVec 32)
  /-- `hush_connectblock` on regtest, which simulates a notarization. -/
  | regtest (height : Int32) (blockhash txhash : Uint256)
  deriving DecidableEq

/-- The assignments of `hush_voutupdate` before it calls `hush_stateupdate`. -/
def setNotarized (sp : HushState) (notarizedheight : Int32) (srchash desttxid MoM : Uint256)
    (MoMdepth : Int32) : HushState :=
  let sp := {sp with NOTARIZED_HEIGHT := notarizedheight,NOTARIZED_HASH := srchash,
                     NOTARIZED_DESTTXID := desttxid}
  if MoM≠0 ∧ 0<(MoMdepth &&& 0xffff).toInt then {sp with MoM := MoM,MoMdepth := MoMdepth}
  else sp

/-- One step of the live node, with the bytes it appends to the file. -/
def live (c : Chain) (n : Node) : Step → List Byte × Node
  | .update a => hushStateupdate c a n
  | .notarize height notarizedheight srchash desttxid MoM MoMdepth =>
      if notarizedheight.toInt>n.sp.NOTARIZED_HEIGHT.toInt ∧
          notarizedheight.toInt<height.toInt then
        hushStateupdate c (.plain height)
          (n.mapState fun sp => setNotarized sp notarizedheight srchash desttxid MoM MoMdepth)
      else ([],n)
  | .reorg height nTime =>
      hushStateupdate c (.reorged height nTime) (n.mapState (hushEventRewind · height))
  | .regtest height blockhash txhash =>
      ([],n.mapState fun sp =>
        {sp with NOTARIZED_HEIGHT := height,NOTARIZED_HASH := blockhash,
                 NOTARIZED_DESTTXID := txhash})

/-- The file and the state after a run. -/
def liveRun (c : Chain) : List Step → Node → List Byte × Node
  | [],n => ([],n)
  | s::ss,n =>
      let (bs,n₁) := live c n s
      let (cs,n₂) := liveRun c ss n₁
      (bs++cs,n₂)

/-- What the locals of the parser hold before they are written, and the bytes past the end of
the buffer. The hashes are not among them: their constructor sets them to zero. -/
structure Uninit where
  ht : Int32
  notarized_height : Int32
  MoMdepth : Int32
  kheight : Int32
  ktimestamp : BitVec 32
  v : BitVec 16
  olen : BitVec 16
  ovalue : BitVec 64
  opret : Nat → Byte
  beyond : Nat → Byte

section Parse

variable (c : Chain) (u : Uninit) (f : List Byte)

def memread (size fpos : Nat) : Option (List Byte × Nat) :=
  if fpos+size≤f.length then some ((f.drop fpos).take size,fpos+size) else none

/-- `memread` into a variable, which keeps its value when the data is short. -/
def readWord {w : Nat} (x : BitVec w) (fpos : Nat) : BitVec w × Nat :=
  match memread f (w/8) fpos with
  | some (bs,p) => (ofBytes w bs,p)
  | none => (x,fpos)

/-- `filedata[fpos]`, without a bound check. -/
def byteAt (fpos : Nat) : Byte := f.getD fpos (u.beyond fpos)

def parseP (ht : Int32) (fpos : Nat) (n : Node) : Nat × Node :=
  let num := (byteAt u f fpos).toNat
  if num≤64 then
    match memread f (33*num) (fpos+1) with
    | none => (fpos+1,n)
    | some (bs,p) =>
        (p,if c.HUSH_EXTERNAL_NOTARIES≠0 ∧ c.symbol=c.SMART_CHAIN_SYMBOL then
            hushEventaddPubkeys c n ht (wordsOf 264 num bs)
          else n)
  else (fpos+1,n)

def parseNotarized (withMoM : Bool) (ht : Int32) (fpos : Nat) (n : Node) : Nat × Node :=
  let (notarized_height,p) := readWord f u.notarized_height fpos
  let (notarized_hash,p) := readWord f (0 : Uint256) p
  let (notarized_desttxid,p) := readWord f (0 : Uint256) p
  let (MoM,q) := if withMoM then readWord f (0 : Uint256) p else (0,p)
  let (MoMdepth,q) := if withMoM then readWord f u.MoMdepth q else (0,q)
  (q,n.mapState fun sp => hushEventaddNotarized c sp ht notarized_hash notarized_desttxid
    notarized_height MoM MoMdepth)

/-- The two bytes are skipped; what is read after them is not used. -/
def parseU (fpos : Nat) (n : Node) : Nat × Node :=
  let p := (readWord f (0 : BitVec 64) (fpos+2)).2
  ((readWord f (0 : Uint256) p).2,n)

def parseK (ht : Int32) (fpos : Nat) (n : Node) : Nat × Node :=
  let (kheight,p) := readWord f u.kheight fpos
  (p,n.mapState fun sp => hushEventaddHushheight c sp ht kheight 0)

def parseT (ht : Int32) (fpos : Nat) (n : Node) : Nat × Node :=
  let (kheight,p) := readWord f u.kheight fpos
  let (ktimestamp,p) := readWord f u.ktimestamp p
  (p,n.mapState fun sp => hushEventaddHushheight c sp ht kheight ktimestamp)

/-- An `olen` of 16 bits is always below the size of `opret`. -/
def parseR (ht : Int32) (fpos : Nat) (n : Node) : Nat × Node :=
  let (txid,p) := readWord f (0 : Uint256) fpos
  let (v,p) := readWord f u.v p
  let (ovalue,p) := readWord f u.ovalue p
  let (olen,p) := readWord f u.olen p
  let (opret,p) := (memread f olen.toNat p).getD ((List.range olen.toNat).map u.opret,p)
  (p,n.mapState fun sp => hushEventaddOpreturn c sp ht txid ovalue v opret)

def parseV (ht : Int32) (fpos : Nat) (n : Node) : Nat × Node :=
  let numpvals := (byteAt u f fpos).toNat
  if numpvals≤128 then
    match memread f (4*numpvals) (fpos+1) with
    | none => (fpos+1,n)
    | some (bs,p) =>
        (p,n.mapState fun sp => hushEventaddPricefeed c sp ht (wordsOf 32 numpvals bs))
  else (fpos+1,n)

/-- The cases of the parser after the function byte and the height. -/
def parsePayload (func : Byte) (ht : Int32) (fpos : Nat) (n : Node) : Nat × Node :=
  if func=letter 'P' then parseP c u f ht fpos n
  else if func=letter 'N' then parseNotarized c u f false ht fpos n
  else if func=letter 'M' then parseNotarized c u f true ht fpos n
  else if func=letter 'U' then parseU f fpos n
  else if func=letter 'K' then parseK c u f ht fpos n
  else if func=letter 'T' then parseT c u f ht fpos n
  else if func=letter 'R' then parseR c u f ht fpos n
  else if func=letter 'V' then parseV c u f ht fpos n
  else (fpos,n)

/-- The function byte, the new position and the new state; `none` is -1. -/
def hushParsestatefiledata (fpos : Nat) (n : Node) : Option (Byte × Nat × Node) :=
  if fpos<f.length then
    let func := byteAt u f fpos
    let (ht,p) := readWord f u.ht (fpos+1)
    some (func,parsePayload c u f func ht p n)
  else none

end Parse

/-- The loop of `hush_faststateinit`, with fresh garbage for every call; `none`
when the bound on its rounds is reached. -/
def replayLoop (c : Chain) (u : Nat → Uninit) (f : List Byte) : Nat → Nat → Node → Option Node
  | 0,_,_ => none
  | k+1,fpos,n =>
      match hushParsestatefiledata c (u fpos) f fpos n with
      | none => some n
      | some (_,p,n') => replayLoop c u f k p n'

/-- Every call that does not end the loop consumes the function byte, so the
length bounds the rounds. -/
def replay (c : Chain) (u : Nat → Uninit) (f : List Byte) (n : Node) : Option Node :=
  replayLoop c u f (f.length+1) 0 n

end Zdeex.Notary
