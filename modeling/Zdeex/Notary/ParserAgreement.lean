import Zdeex.Notary.Stream
import Zdeex.Notary.Replay

namespace Zdeex.Notary

open Zdeex.Framework

/-- The cases of the two parsers. -/
inductive RecordKind
  | pubkeys
  | notarized (withMoM : Bool)
  | utxo
  | hushheight
  | timestamp
  | opreturn
  | prices
  | other

def recordKind (func : Byte) : RecordKind :=
  if func=letter 'P' then .pubkeys
  else if func=letter 'N' then .notarized false
  else if func=letter 'M' then .notarized true
  else if func=letter 'U' then .utxo
  else if func=letter 'K' then .hushheight
  else if func=letter 'T' then .timestamp
  else if func=letter 'R' then .opreturn
  else if func=letter 'V' then .prices
  else .other

/-- A counted array with its count. -/
def countedLength (most size : Nat) : List Byte → Nat
  | [] => 1
  | num::_ => if num.toNat ≤ most then 1+size*num.toNat else 1

/-- Bytes of a record behind its height. -/
def payloadLength (bs : List Byte) : RecordKind → Nat
  | .pubkeys => countedLength 64 33 bs
  | .notarized withMoM => if withMoM then 104 else 68
  | .utxo => 42
  | .hushheight => 4
  | .timestamp => 8
  | .opreturn => 44+(ofBytes 16 ((bs.drop 42).take 2)).toNat
  | .prices => countedLength 128 4 bs
  | .other => 0

/-- The record is not cut off. -/
def Whole (func : Byte) (rest : List Byte) : Prop :=
  4+payloadLength (rest.drop 4) (recordKind func) ≤ rest.length

/-- What a failed `memread` leaves for the next one. -/
def skipWord (size : Nat) (bs : List Byte) : List Byte :=
  if size≤bs.length then bs.drop size else bs

def skipCounted (most size : Nat) : List Byte → List Byte
  | [] => []
  | num::bs => if num.toNat ≤ most then skipWord (size*num.toNat) bs else bs

/-- The count is legal and its array is complete. -/
def hasCounted (most size : Nat) : List Byte → Prop
  | [] => False
  | num::bs => num.toNat ≤ most ∧ size*num.toNat≤bs.length

/-- The record adds no event in the buffer parser. -/
def Silent (c : Chain) (bs : List Byte) : RecordKind → Prop
  | .pubkeys => ¬(hasCounted 64 33 bs ∧ takesPubkeys c)
  | .prices => ¬hasCounted 128 4 bs
  | .utxo => True
  | .other => True
  | _ => False

/-- What the buffer parser leaves of the file behind a silent record. -/
def unread (bs : List Byte) : RecordKind → List Byte
  | .pubkeys => skipCounted 64 33 bs
  | .prices => skipCounted 128 4 bs
  | .utxo => skipWord 32 (skipWord 8 (bs.drop 2))
  | _ => bs

/-- No byte string that the buffer parser takes for a record adds an event. -/
inductive Quiet (c : Chain) : List Byte → Prop
  | done : Quiet c []
  | record {func : Byte} {rest : List Byte}
      (silent : Silent c (skipWord 4 rest) (recordKind func))
      (next : Quiet c (unread (skipWord 4 rest) (recordKind func))) : Quiet c (func::rest)

/-- A record of a notarization without a root whose height is whole, and that is cut off in a hash
of which only zeros are left. -/
structure ZeroTail (func : Byte) (rest : List Byte) : Prop where
  kind : recordKind func=.notarized false
  height : 8≤ rest.length
  zeros : ∀b∈rest.drop (if 40≤ rest.length then 40 else 8),b=0

/-- Whole records, and behind them no event that only one parser sees. -/
inductive Agrees (c : Chain) : List Byte → Prop
  | done : Agrees c []
  | record {func : Byte} {rest : List Byte} (whole : Whole func rest)
      (next : Agrees c (rest.drop (4+payloadLength (rest.drop 4) (recordKind func)))) :
      Agrees c (func::rest)
  | cut {func : Byte} {rest : List Byte} (short : ¬Whole func rest)
      (quiet : Quiet c (func::rest)) : Agrees c (func::rest)
  | zeros {func : Byte} {rest : List Byte} (short : ¬Whole func rest)
      (tail : ZeroTail func rest) : Agrees c (func::rest)

section Dispatch

variable (c : Chain) (u : Uninit)

def streamKind (ht : Int32) (bs : List Byte) : RecordKind → List Byte × Option EventCall
  | .pubkeys => streamP c ht bs
  | .notarized withMoM => streamNotarized u withMoM ht bs
  | .utxo => streamU bs
  | .hushheight => streamK u ht bs
  | .timestamp => streamT u ht bs
  | .opreturn => streamR u ht bs
  | .prices => streamV ht bs
  | .other => (bs,none)

def bufferKind (f : List Byte) (ht : Int32) (fpos : Nat) :
    RecordKind → Nat × Option EventCall
  | .pubkeys => bufferP c u f ht fpos
  | .notarized withMoM => bufferNotarized u f withMoM ht fpos
  | .utxo => bufferU f fpos
  | .hushheight => bufferK u f ht fpos
  | .timestamp => bufferT u f ht fpos
  | .opreturn => bufferR u f ht fpos
  | .prices => bufferV u f ht fpos
  | .other => (fpos,none)

theorem streamPayload_kind (func : Byte) (ht : Int32) (bs : List Byte) :
    streamPayload c u func ht bs=streamKind c u ht bs (recordKind func) := by
  simp only [streamPayload,recordKind]
  split_ifs <;> rfl

theorem bufferPayload_kind (f : List Byte) (func : Byte) (ht : Int32) (fpos : Nat) :
    bufferPayload c u f func ht fpos=bufferKind c u f ht fpos (recordKind func) := by
  simp only [bufferPayload,recordKind]
  split_ifs <;> rfl

end Dispatch

section Words

variable {f bs : List Byte} {p w : Nat} {x : BitVec w}

theorem freadWord_whole (x : BitVec w) (hlen : w/8≤bs.length) :
    freadWord x bs=(ofBytes w (bs.take (w/8)),bs.drop (w/8)) := by
  have hnone : (toBytes x).drop bs.length=[] := by
    apply List.drop_eq_nil_of_le
    simpa using hlen
  rw [freadWord,hnone,List.append_nil]

theorem memread_whole {size : Nat} (h : At f p bs) (hlen : size≤bs.length) :
    memread f size p=some (bs.take size,p+size) := by
  have hpos := h.length_eq
  rw [memread,if_pos (by omega),h.2]

theorem memread_short {size : Nat} (h : At f p bs) (hlen : ¬size≤bs.length) :
    memread f size p=none := by
  have hpos := h.length_eq
  rw [memread,if_neg (by omega)]

theorem readWord_whole (x : BitVec w) (h : At f p bs) (hlen : w/8≤bs.length) :
    readWord f x p=(ofBytes w (bs.take (w/8)),p+w/8) := by
  rw [readWord,memread_whole h hlen]

theorem readWord_short (x : BitVec w) (h : At f p bs) (hlen : ¬w/8≤bs.length) :
    readWord f x p=(x,p) := by
  rw [readWord,memread_short h hlen]

/-- A word that is not the old value of the variable was read from the file. -/
theorem whole_of_readWord_ne (h : At f p bs) (hne : (readWord f x p).1≠x) : w/8≤bs.length := by
  by_contra hlen
  exact hne (by rw [readWord_short x h hlen])

/-- The position behind a word, whether it was read or not. -/
theorem readWord_skip (x : BitVec w) (h : At f p bs) :
    At f (readWord f x p).2 (skipWord (w/8) bs) := by
  by_cases hlen : w/8≤bs.length
  · rw [readWord_whole x h hlen,skipWord,if_pos hlen]
    exact h.skip hlen
  · rw [readWord_short x h hlen,skipWord,if_neg hlen]
    exact h

end Words

section WholeRecords

variable {c : Chain} {us ub : Uninit} {f bs : List Byte} {p : Nat} {ht : Int32}

/-- Both parsers make the call and stand `len` bytes further. -/
def InStep (p len : Nat) (bs : List Byte) (s : List Byte × Option EventCall)
    (b : Nat × Option EventCall) : Prop :=
  s.1=bs.drop len ∧ b.1=p+len ∧ s.2=b.2

theorem inStep_pubkeys (h : At f p bs) (hlen : countedLength 64 33 bs ≤ bs.length) :
    InStep p (countedLength 64 33 bs) bs (streamP c ht bs) (bufferP c ub f ht p) := by
  cases bs with
  | nil => simp [countedLength] at hlen
  | cons num bs =>
    simp only [countedLength,List.length_cons] at hlen ⊢
    simp only [streamP,bufferP,byteAt_at h]
    by_cases hnum : num.toNat≤64
    · simp only [if_pos hnum] at hlen ⊢
      have harray : 33*num.toNat≤bs.length := by omega
      rw [memread_whole h.tail harray]
      refine ⟨?_,by simp only; omega,by simp [harray]⟩
      rw [Nat.add_comm 1,List.drop_succ_cons]
    · simp only [if_neg hnum]
      exact ⟨rfl,rfl,rfl⟩

theorem inStep_prices (h : At f p bs) (hlen : countedLength 128 4 bs ≤ bs.length) :
    InStep p (countedLength 128 4 bs) bs (streamV ht bs) (bufferV ub f ht p) := by
  cases bs with
  | nil => simp [countedLength] at hlen
  | cons num bs =>
    simp only [countedLength,List.length_cons] at hlen ⊢
    simp only [streamV,bufferV,byteAt_at h]
    by_cases hnum : num.toNat≤128
    · simp only [if_pos hnum] at hlen ⊢
      have harray : 4*num.toNat≤bs.length := by omega
      rw [memread_whole h.tail harray]
      refine ⟨?_,by simp only; omega,by simp [harray]⟩
      rw [Nat.add_comm 1,List.drop_succ_cons]
    · simp only [if_neg hnum]
      exact ⟨rfl,rfl,rfl⟩

theorem inStep_notarized {withMoM : Bool} (h : At f p bs)
    (hlen : (if withMoM then 104 else 68)≤bs.length) :
    InStep p (if withMoM then 104 else 68) bs (streamNotarized us withMoM ht bs)
      (bufferNotarized ub f withMoM ht p) := by
  have hbase : 68≤bs.length := by
    cases withMoM with
    | false => simpa using hlen
    | true =>
      simp only [if_true] at hlen
      omega
  have hhash := h.skip (show 4≤bs.length by omega)
  have hdest := hhash.skip (show 32≤(bs.drop 4).length by rw [List.length_drop]; omega)
  have hMoM := hdest.skip (show 32≤((bs.drop 4).drop 32).length by
    simp only [List.length_drop]; omega)
  simp only [streamNotarized,bufferNotarized]
  rw [freadWord_whole us.notarized_height (by omega),
    readWord_whole ub.notarized_height h (by omega)]
  simp only
  rw [@freadWord_whole (bs.drop 4) 256 0 (by simp only [List.length_drop]; omega),
    readWord_whole (0 : Uint256) hhash (by simp only [List.length_drop]; omega)]
  simp only
  rw [@freadWord_whole ((bs.drop 4).drop 32) 256 0 (by simp only [List.length_drop]; omega),
    readWord_whole (0 : Uint256) hdest (by simp only [List.length_drop]; omega)]
  cases withMoM with
  | false => refine ⟨by simp [List.drop_drop],by simp,rfl⟩
  | true =>
    simp only [if_true] at hlen ⊢
    have hdepth := hMoM.skip (show 32≤(((bs.drop 4).drop 32).drop 32).length by
      simp only [List.length_drop]; omega)
    rw [@freadWord_whole (((bs.drop 4).drop 32).drop 32) 256 0
        (by simp only [List.length_drop]; omega),
      readWord_whole (0 : Uint256) hMoM (by simp only [List.length_drop]; omega)]
    simp only
    rw [freadWord_whole us.MoMdepth (by simp only [List.length_drop]; omega),
      readWord_whole ub.MoMdepth hdepth (by simp only [List.length_drop]; omega)]
    refine ⟨by simp [List.drop_drop],by simp,rfl⟩

theorem inStep_utxo (h : At f p bs) (hlen : 42≤bs.length) :
    InStep p 42 bs (streamU bs) (bufferU f p) := by
  have hmask := h.skip (show 2≤bs.length by omega)
  have hhash := hmask.skip (show 8≤(bs.drop 2).length by rw [List.length_drop]; omega)
  refine ⟨by simp [streamU,freadWord,List.drop_drop],?_,rfl⟩
  rw [bufferU,readWord_whole _ hmask (by simp only [List.length_drop]; omega)]
  simp only
  rw [readWord_whole _ hhash (by simp only [List.length_drop]; omega)]

theorem inStep_hushheight (h : At f p bs) (hlen : 4≤bs.length) :
    InStep p 4 bs (streamK us ht bs) (bufferK ub f ht p) := by
  rw [streamK,freadWord_whole us.kheight hlen,bufferK,readWord_whole ub.kheight h hlen]
  exact ⟨rfl,rfl,rfl⟩

theorem inStep_timestamp (h : At f p bs) (hlen : 8≤bs.length) :
    InStep p 8 bs (streamT us ht bs) (bufferT ub f ht p) := by
  have hstamp := h.skip (show 4≤bs.length by omega)
  rw [streamT,freadWord_whole us.kheight (by omega),bufferT,
    readWord_whole ub.kheight h (by omega)]
  simp only
  rw [freadWord_whole us.ktimestamp (by simp only [List.length_drop]; omega),
    readWord_whole ub.ktimestamp hstamp (by simp only [List.length_drop]; omega)]
  refine ⟨by simp [List.drop_drop],by simp,rfl⟩

/-- The stream of an OP_RETURN record up to its length. -/
theorem streamR_header (hlen : 44≤bs.length) :
    streamR us ht bs=
      let olen := (ofBytes 16 ((bs.drop 42).take 2)).toNat
      (bs.drop (44+olen),some (.opreturn ht (ofBytes 256 (bs.take 32))
        (ofBytes 64 ((bs.drop 34).take 8)) (ofBytes 16 ((bs.drop 32).take 2))
        ((bs.drop 44).take olen++((List.range olen).map us.opret).drop (bs.drop 44).length))) := by
  rw [streamR,freadWord_whole (0 : Uint256) (by omega)]
  simp only
  rw [freadWord_whole us.v (by simp only [List.length_drop]; omega)]
  simp only
  rw [freadWord_whole us.ovalue (by simp only [List.length_drop]; omega)]
  simp only
  rw [freadWord_whole us.olen (by simp only [List.length_drop]; omega)]
  simp [List.drop_drop]

theorem inStep_opreturn
    (h : At f p bs) (hlen : 44+(ofBytes 16 ((bs.drop 42).take 2)).toNat ≤ bs.length) :
    InStep p (44+(ofBytes 16 ((bs.drop 42).take 2)).toNat) bs (streamR us ht bs)
      (bufferR ub f ht p) := by
  have hv := h.skip (show 32≤bs.length by omega)
  have hvalue := hv.skip (show 2≤(bs.drop 32).length by rw [List.length_drop]; omega)
  rw [List.drop_drop] at hvalue
  have holen := hvalue.skip (show 8≤(bs.drop (32+2)).length by rw [List.length_drop]; omega)
  rw [List.drop_drop] at holen
  have hopret := holen.skip (show 2≤(bs.drop (32+2+8)).length by rw [List.length_drop]; omega)
  rw [List.drop_drop] at hopret
  have hfull : (ofBytes 16 ((bs.drop 42).take 2)).toNat≤(bs.drop 44).length := by
    rw [List.length_drop]
    omega
  have hnone : ((List.range (ofBytes 16 ((bs.drop 42).take 2)).toNat).map us.opret).drop
      (bs.drop 44).length=[] := by
    apply List.drop_eq_nil_of_le
    simpa using hfull
  rw [streamR_header (by omega),bufferR,readWord_whole (0 : Uint256) h (by omega)]
  simp only
  rw [readWord_whole ub.v hv (by simp only [List.length_drop]; omega)]
  simp only
  rw [readWord_whole ub.ovalue hvalue (by simp only [List.length_drop]; omega)]
  simp only
  rw [readWord_whole ub.olen holen (by simp only [List.length_drop]; omega)]
  simp only
  rw [memread_whole hopret hfull,hnone,List.append_nil]
  exact ⟨rfl,by simp only [Option.getD_some]; omega,rfl⟩

/-- On a whole payload the parsers make the same call and stay in step. -/
theorem inStep_kind (kind : RecordKind) (h : At f p bs)
    (hlen : payloadLength bs kind ≤ bs.length) :
    InStep p (payloadLength bs kind) bs (streamKind c us ht bs kind)
      (bufferKind c ub f ht p kind) := by
  cases kind with
  | pubkeys => exact inStep_pubkeys h hlen
  | notarized withMoM => exact inStep_notarized h hlen
  | utxo => exact inStep_utxo h hlen
  | hushheight => exact inStep_hushheight h hlen
  | timestamp => exact inStep_timestamp h hlen
  | opreturn => exact inStep_opreturn h hlen
  | prices => exact inStep_prices h hlen
  | other => exact ⟨rfl,rfl,rfl⟩

end WholeRecords

section CutRecords

variable {c : Chain} {u : Uninit} {f bs : List Byte} {p : Nat} {ht : Int32}

/-- A payload that is cut off ends the stream. -/
theorem streamKind_cut (kind : RecordKind) (hlen : ¬payloadLength bs kind ≤ bs.length) :
    (streamKind c u ht bs kind).1=[] := by
  cases kind with
  | pubkeys =>
    cases bs with
    | nil => rfl
    | cons num bs =>
      by_cases hnum : num.toNat≤64
      · simp only [payloadLength,countedLength,if_pos hnum,List.length_cons] at hlen
        simp only [streamKind,streamP,if_pos hnum]
        exact List.drop_eq_nil_of_le (by omega)
      · simp [payloadLength,countedLength,if_neg hnum] at hlen
  | notarized withMoM =>
    cases withMoM with
    | false =>
      simp only [payloadLength,Bool.false_eq_true,if_false] at hlen
      simp only [streamKind,streamNotarized,freadWord,Bool.false_eq_true,if_false,List.drop_drop]
      exact List.drop_eq_nil_of_le (by omega)
    | true =>
      simp only [payloadLength,if_true] at hlen
      simp only [streamKind,streamNotarized,freadWord,if_true,List.drop_drop]
      exact List.drop_eq_nil_of_le (by omega)
  | utxo =>
    simp only [payloadLength] at hlen
    simp only [streamKind,streamU,freadWord,List.drop_drop]
    exact List.drop_eq_nil_of_le (by omega)
  | hushheight =>
    simp only [payloadLength] at hlen
    exact List.drop_eq_nil_of_le (by omega)
  | timestamp =>
    simp only [payloadLength] at hlen
    simp only [streamKind,streamT,freadWord,List.drop_drop]
    exact List.drop_eq_nil_of_le (by omega)
  | opreturn =>
    simp only [payloadLength] at hlen
    by_cases hheader : 44≤bs.length
    · simp only [streamKind,streamR_header hheader]
      exact List.drop_eq_nil_of_le (by omega)
    · simp only [streamKind,streamR,freadWord,List.drop_drop]
      exact List.drop_eq_nil_of_le (by omega)
  | prices =>
    cases bs with
    | nil => rfl
    | cons num bs =>
      by_cases hnum : num.toNat≤128
      · simp only [payloadLength,countedLength,if_pos hnum,List.length_cons] at hlen
        simp only [streamKind,streamV,if_pos hnum]
        exact List.drop_eq_nil_of_le (by omega)
      · simp [payloadLength,countedLength,if_neg hnum] at hlen
  | other => simp [payloadLength] at hlen

/-- The kinds that make their call whatever the file holds. -/
def RecordKind.adds : RecordKind → Bool
  | .notarized _ => true
  | .hushheight => true
  | .timestamp => true
  | .opreturn => true
  | _ => false

theorem streamKind_cut_call (kind : RecordKind) (hadds : kind.adds=false)
    (hlen : bs=[] ∨ ¬payloadLength bs kind ≤ bs.length) :
    (streamKind c u ht bs kind).2=none := by
  cases kind with
  | pubkeys =>
    cases bs with
    | nil => rfl
    | cons num bs =>
      have hlen := hlen.resolve_left (List.cons_ne_nil num bs)
      by_cases hnum : num.toNat≤64
      · simp only [payloadLength,countedLength,if_pos hnum,List.length_cons] at hlen
        simp only [streamKind,streamP,if_pos hnum]
        exact if_neg (by omega)
      · simp only [streamKind,streamP,if_neg hnum]
  | prices =>
    cases bs with
    | nil => rfl
    | cons num bs =>
      have hlen := hlen.resolve_left (List.cons_ne_nil num bs)
      by_cases hnum : num.toNat≤128
      · simp only [payloadLength,countedLength,if_pos hnum,List.length_cons] at hlen
        simp only [streamKind,streamV,if_pos hnum]
        exact if_neg (by omega)
      · simp only [streamKind,streamV,if_neg hnum]
  | utxo => rfl
  | other => rfl
  | notarized withMoM => simp [RecordKind.adds] at hadds
  | hushheight => simp [RecordKind.adds] at hadds
  | timestamp => simp [RecordKind.adds] at hadds
  | opreturn => simp [RecordKind.adds] at hadds

theorem streamKind_nil (kind : RecordKind) : (streamKind c u ht [] kind).1=[] := by
  by_cases hlen : payloadLength [] kind ≤ ([] : List Byte).length
  · have hstep : InStep 0 (payloadLength [] kind) [] (streamKind c u ht [] kind)
        (bufferKind c u [] ht 0 kind) := inStep_kind kind (At.start []) hlen
    rw [hstep.1,List.drop_nil]
  · exact streamKind_cut kind hlen

/-- The call of the stream parser for a record. -/
def streamCall (c : Chain) (u : Uninit) (func : Byte) (rest : List Byte) : Option EventCall :=
  (streamKind c u (freadWord u.ht rest).1 (rest.drop 4) (recordKind func)).2

/-- Behind a record that is cut off the stream is at its end. -/
theorem hushParsestatefile_cut {func : Byte} {rest : List Byte} (hcut : ¬Whole func rest) :
    hushParsestatefile c u (func::rest)=some (func,[],streamCall c u func rest) := by
  have hrest : (streamKind c u (freadWord u.ht rest).1 (rest.drop 4) (recordKind func)).1=[] := by
    by_cases hheader : 4 ≤ rest.length
    · apply streamKind_cut
      intro hlen
      apply hcut
      rw [Whole]
      rw [List.length_drop] at hlen
      omega
    · rw [List.drop_eq_nil_of_le (by omega)]
      exact streamKind_nil _
  rw [hushParsestatefile]
  dsimp only
  rw [streamPayload_kind]
  exact congrArg some (Prod.ext rfl (Prod.ext hrest rfl))

theorem streamCall_none {func : Byte} {rest : List Byte} (hcut : ¬Whole func rest)
    (hadds : (recordKind func).adds=false) : streamCall c u func rest=none := by
  apply streamKind_cut_call _ hadds
  by_cases hheader : 4 ≤ rest.length
  · right
    intro hlen
    apply hcut
    rw [Whole]
    rw [List.length_drop] at hlen
    omega
  · exact Or.inl (List.drop_eq_nil_of_le (by omega))

theorem streamCall_isSome {func : Byte} {rest : List Byte} (hadds : (recordKind func).adds) :
    ∃call,streamCall c u func rest=some call := by
  unfold streamCall
  cases hkind : recordKind func with
  | notarized withMoM => exact ⟨_,rfl⟩
  | hushheight => exact ⟨_,rfl⟩
  | timestamp => exact ⟨_,rfl⟩
  | opreturn => exact ⟨_,rfl⟩
  | pubkeys => simp [hkind,RecordKind.adds] at hadds
  | prices => simp [hkind,RecordKind.adds] at hadds
  | utxo => simp [hkind,RecordKind.adds] at hadds
  | other => simp [hkind,RecordKind.adds] at hadds

end CutRecords

section QuietRecords

variable {c : Chain} {u : Uninit} {f bs : List Byte} {p : Nat} {ht : Int32}

theorem memread_beyond {size q : Nat} (h : f.length<q) : memread f size q=none := by
  rw [memread,if_neg (by omega)]

theorem drop_beyond {q : Nat} (h : f.length≤q) : f.drop q=[] := List.drop_eq_nil_of_le h

theorem bufferP_unread (h : At f p bs) :
    f.drop (bufferP c u f ht p).1=skipCounted 64 33 bs ∧
      ((bufferP c u f ht p).2=none ↔ ¬(hasCounted 64 33 bs ∧ takesPubkeys c)) := by
  cases bs with
  | nil =>
    have hend : p=f.length := by simpa using h.length_eq
    simp only [bufferP,skipCounted,hasCounted,false_and,not_false_eq_true,iff_true]
    split
    · rw [memread_beyond (by omega)]
      exact ⟨drop_beyond (by simp only; omega),rfl⟩
    · exact ⟨drop_beyond (by simp only; omega),rfl⟩
  | cons num bs =>
    simp only [bufferP,byteAt_at h,skipCounted,hasCounted]
    by_cases hnum : num.toNat≤64
    · simp only [if_pos hnum,skipWord]
      by_cases harray : 33*num.toNat≤bs.length
      · rw [memread_whole h.tail harray,if_pos harray]
        refine ⟨(h.tail.skip harray).2,?_⟩
        by_cases htakes : takesPubkeys c
        · simp [htakes,hnum,harray]
        · simp [htakes]
      · rw [memread_short h.tail harray,if_neg harray]
        exact ⟨h.tail.2,by simp [harray]⟩
    · simp only [if_neg hnum]
      exact ⟨h.tail.2,by simp [hnum]⟩

theorem bufferV_unread (h : At f p bs) :
    f.drop (bufferV u f ht p).1=skipCounted 128 4 bs ∧
      ((bufferV u f ht p).2=none ↔ ¬hasCounted 128 4 bs) := by
  cases bs with
  | nil =>
    have hend : p=f.length := by simpa using h.length_eq
    simp only [bufferV,skipCounted,hasCounted,not_false_eq_true,iff_true]
    split
    · rw [memread_beyond (by omega)]
      exact ⟨drop_beyond (by simp only; omega),rfl⟩
    · exact ⟨drop_beyond (by simp only; omega),rfl⟩
  | cons num bs =>
    simp only [bufferV,byteAt_at h,skipCounted,hasCounted]
    by_cases hnum : num.toNat≤128
    · simp only [if_pos hnum,skipWord]
      by_cases harray : 4*num.toNat≤bs.length
      · rw [memread_whole h.tail harray,if_pos harray]
        exact ⟨(h.tail.skip harray).2,by simp [hnum,harray]⟩
      · rw [memread_short h.tail harray,if_neg harray]
        exact ⟨h.tail.2,by simp [harray]⟩
    · simp only [if_neg hnum]
      exact ⟨h.tail.2,by simp [hnum]⟩

theorem bufferU_unread (h : At f p bs) :
    f.drop (bufferU f p).1=skipWord 32 (skipWord 8 (bs.drop 2)) := by
  by_cases htwo : 2≤bs.length
  · have hmask := readWord_skip (0 : BitVec 64) (h.skip htwo)
    exact (readWord_skip (0 : Uint256) hmask).2
  · have hpos := h.length_eq
    have hbeyond : f.length<p+2 := by omega
    have hmask : readWord f (0 : BitVec 64) (p+2)=(0,p+2) := by
      rw [readWord,memread_beyond hbeyond]
    have hhash : readWord f (0 : Uint256) (p+2)=(0,p+2) := by
      rw [readWord,memread_beyond hbeyond]
    rw [bufferU,hmask]
    simp only
    rw [hhash,drop_beyond (by simp only; omega),List.drop_eq_nil_of_le (by omega)]
    rfl

theorem bufferKind_call (kind : RecordKind) (h : At f p bs) :
    (bufferKind c u f ht p kind).2=none ↔ Silent c bs kind := by
  cases kind with
  | pubkeys => exact (bufferP_unread h).2
  | prices => exact (bufferV_unread h).2
  | utxo => simp [bufferKind,bufferU,Silent]
  | other => simp [bufferKind,Silent]
  | notarized withMoM => simp [bufferKind,bufferNotarized,Silent]
  | hushheight => simp [bufferKind,bufferK,Silent]
  | timestamp => simp [bufferKind,bufferT,Silent]
  | opreturn => simp [bufferKind,bufferR,Silent]

theorem bufferKind_unread (kind : RecordKind) (h : At f p bs) (hsilent : Silent c bs kind) :
    f.drop (bufferKind c u f ht p kind).1=unread bs kind := by
  cases kind with
  | pubkeys => exact (bufferP_unread h).1
  | prices => exact (bufferV_unread h).1
  | utxo => exact bufferU_unread h
  | other => exact h.2
  | notarized withMoM => exact hsilent.elim
  | hushheight => exact hsilent.elim
  | timestamp => exact hsilent.elim
  | opreturn => exact hsilent.elim

theorem bufferRecord_cons {func : Byte} {rest : List Byte} (h : At f p (func::rest)) :
    bufferRecord c u f p=some (func,bufferKind c u f (readWord f u.ht (p+1)).1
      (readWord f u.ht (p+1)).2 (recordKind func)) := by
  have hpos := h.length_eq
  rw [List.length_cons] at hpos
  rw [bufferRecord,if_pos (by omega),byteAt_at h,← bufferPayload_kind]

/-- One call of the buffer parser: it is silent exactly on silent records, and
then leaves what is unread. -/
theorem bufferRecord_silent {func : Byte} {rest : List Byte} (h : At f p (func::rest)) :
    ∃q call,bufferRecord c u f p=some (func,q,call) ∧
      (call=none ↔ Silent c (skipWord 4 rest) (recordKind func)) ∧
      (Silent c (skipWord 4 rest) (recordKind func) →
        f.drop q=unread (skipWord 4 rest) (recordKind func)) := by
  have hbody := readWord_skip u.ht h.tail
  refine ⟨_,_,bufferRecord_cons h,bufferKind_call _ hbody,?_⟩
  intro hsilent
  exact bufferKind_unread _ hbody hsilent

theorem length_skipWord (size : Nat) (bs : List Byte) : (skipWord size bs).length≤bs.length := by
  rw [skipWord]
  split
  · rw [List.length_drop]
    omega
  · exact le_rfl

theorem length_skipCounted (most size : Nat) (bs : List Byte) :
    (skipCounted most size bs).length≤bs.length := by
  cases bs with
  | nil => exact le_rfl
  | cons num bs =>
    have hskip := length_skipWord (size*num.toNat) bs
    simp only [skipCounted,List.length_cons]
    split
    · omega
    · omega

theorem length_unread (bs : List Byte) (kind : RecordKind) :
    (unread bs kind).length≤bs.length := by
  cases kind with
  | pubkeys => exact length_skipCounted 64 33 bs
  | prices => exact length_skipCounted 128 4 bs
  | utxo =>
    have hhash := length_skipWord 32 (skipWord 8 (bs.drop 2))
    have hmask := length_skipWord 8 (bs.drop 2)
    rw [List.length_drop] at hmask
    simp only [unread]
    omega
  | notarized withMoM => exact le_rfl
  | hushheight => exact le_rfl
  | timestamp => exact le_rfl
  | opreturn => exact le_rfl
  | other => exact le_rfl

end QuietRecords

/-- The buffer parser makes no call exactly on the quiet files, whatever its
variables hold. -/
theorem bufferLoop_quiet (c : Chain) (u : Nat → Uninit) (f : List Byte) (k p : Nat)
    (t : List Byte) (h : f.drop p=t) (hk : t.length<k) :
    bufferLoop c u f k p=some [] ↔ Quiet c t := by
  induction k generalizing p t with
  | zero => omega
  | succ k ih =>
    cases t with
    | nil =>
      have hend : ¬p<f.length := by
        have hlen := congrArg List.length h
        rw [List.length_drop,List.length_nil] at hlen
        omega
      rw [bufferLoop,bufferRecord,if_neg hend]
      exact iff_of_true rfl .done
    | cons func rest =>
      obtain ⟨q,call,hrecord,hcall,hunread⟩ :=
        bufferRecord_silent (c := c) (u := u p) (At.of_drop h)
      have hless : (unread (skipWord 4 rest) (recordKind func)).length<k := by
        have hunreadLe := length_unread (skipWord 4 rest) (recordKind func)
        have hskipLe := length_skipWord 4 rest
        rw [List.length_cons] at hk
        omega
      rw [bufferLoop,hrecord]
      simp only
      constructor
      · intro hnone
        obtain ⟨calls,hcalls,happend⟩ := Option.map_eq_some_iff.mp hnone
        obtain ⟨hfirst,hrest⟩ := List.append_eq_nil_iff.mp happend
        have hsilent := hcall.mp (Option.toList_eq_nil_iff.mp hfirst)
        rw [hrest] at hcalls
        exact .record hsilent ((ih q _ (hunread hsilent) hless).mp hcalls)
      · intro hquiet
        cases hquiet with
        | record silent next =>
          rw [(ih q _ (hunread silent) hless).mpr next,hcall.mpr silent]
          rfl

/-- Variables that differ from every argument of a call. -/
def EventCall.against : EventCall → Uninit
  | .notarized ht _ _ notarized_height _ MoMdepth =>
      {noGarbage with
        ht := ht+1,notarized_height := notarized_height+1,MoMdepth := MoMdepth+1}
  | .hushheight ht kheight ktimestamp =>
      {noGarbage with ht := ht+1,kheight := kheight+1,ktimestamp := ktimestamp+1}
  | .opreturn ht _ ovalue v opret =>
      {noGarbage with
        ht := ht+1,v := v+1,ovalue := ovalue+1,
        olen := BitVec.ofNat 16 opret.length+1,opret := fun _ => opret.headD 0+1}
  | .pubkeys ht _ => {noGarbage with ht := ht+1}
  | .pricefeed ht _ => {noGarbage with ht := ht+1}

def EventCall.ht : EventCall → Int32
  | .notarized ht .. => ht
  | .hushheight ht .. => ht
  | .opreturn ht .. => ht
  | .pubkeys ht .. => ht
  | .pricefeed ht .. => ht

section Garbage

variable {c : Chain} {f bs : List Byte} {p : Nat} {ht : Int32} {call : EventCall}

theorem against_ht (call : EventCall) : call.against.ht=call.ht+1 := by
  cases call with
  | _ => rfl

theorem ne_succ {w : Nat} (hw : 0<w) (x : BitVec w) : x≠x+1 := by
  intro h
  have hpow : 1<2^w := Nat.one_lt_two_pow (by omega)
  have hlt := x.isLt
  have hnat := congrArg BitVec.toNat h
  simp only [BitVec.toNat_add,BitVec.ofNat_eq_ofNat,BitVec.toNat_ofNat,
    Nat.mod_eq_of_lt hpow] at hnat
  by_cases htop : x.toNat+1<2^w
  · rw [Nat.mod_eq_of_lt htop] at hnat
    omega
  · have hwrap : x.toNat+1=2^w := by omega
    rw [hwrap,Nat.mod_self] at hnat
    omega

/-- A variable one above the argument it ended in was filled from the file. -/
theorem whole_of_succ {w : Nat} (hw : 0<w) {x : BitVec w} (h : At f p bs)
    (hsucc : (readWord f x p).1+1=x) : w/8≤bs.length := by
  apply whole_of_readWord_ne (x := x) h
  intro hsame
  rw [hsame] at hsucc
  exact ne_succ hw x hsucc.symm

/-- A word read from the file, and where the next one stands. -/
theorem read_of_succ {w : Nat} (hw : 0<w) {x : BitVec w} (h : At f p bs)
    (hsucc : (readWord f x p).1+1=x) :
    w/8≤bs.length ∧ At f (readWord f x p).2 (bs.drop (w/8)) := by
  have hlen := whole_of_succ hw h hsucc
  refine ⟨hlen,?_⟩
  rw [readWord_whole x h hlen]
  exact h.skip hlen

theorem whole_hushheight (h : At f p bs)
    (hcall : (bufferK call.against f ht p).2=some call) : 4≤bs.length := by
  have heq : EventCall.hushheight ht (readWord f call.against.kheight p).1 0=call :=
    Option.some.inj hcall
  exact whole_of_succ (by decide) h (congrArg (fun c : EventCall => c.against.kheight) heq)

theorem whole_timestamp (h : At f p bs)
    (hcall : (bufferT call.against f ht p).2=some call) : 8≤bs.length := by
  have heq : EventCall.hushheight ht (readWord f call.against.kheight p).1
      (readWord f call.against.ktimestamp (readWord f call.against.kheight p).2).1=call :=
    Option.some.inj hcall
  obtain ⟨hheight,hnext⟩ :=
    read_of_succ (by decide) h (congrArg (fun c : EventCall => c.against.kheight) heq)
  have hstamp := whole_of_succ (by decide) hnext
    (congrArg (fun c : EventCall => c.against.ktimestamp) heq)
  rw [List.length_drop] at hstamp
  omega

theorem height_notarized {withMoM : Bool} (h : At f p bs)
    (hcall : (bufferNotarized call.against f withMoM ht p).2=some call) : 4≤bs.length := by
  have heq := Option.some.inj hcall
  exact whole_of_succ (by decide) h
    (congrArg (fun c : EventCall => c.against.notarized_height) heq)

/-- What `bufferR` hands on as `opret` has the length that was read. -/
theorem length_opret (f : List Byte) (size q : Nat) (g : Nat → Byte) :
    ((memread f size q).getD ((List.range size).map g,q)).1.length=size := by
  by_cases hlen : q+size≤f.length
  · rw [memread,if_pos hlen,Option.getD_some,List.length_take,List.length_drop]
    omega
  · rw [memread,if_neg hlen]
    simp

theorem whole_opret {size : Nat} (h : At f p bs) {xs : List Byte}
    (hread : ((memread f size p).getD ((List.range size).map fun _ => xs.headD 0+1,p)).1=xs) :
    size≤bs.length := by
  by_contra hlen
  rw [memread_short h hlen,Option.getD_none] at hread
  cases size with
  | zero => omega
  | succ n =>
    have hhead : xs.headD 0+1=xs.headD 0 := by
      conv_rhs => rw [← hread]
      simp [List.range_succ_eq_map]
    exact ne_succ (by decide) _ hhead.symm

theorem whole_opreturn (h : At f p bs) (htxid : 32≤bs.length)
    (hcall : (bufferR call.against f ht p).2=some call) :
    44+(ofBytes 16 ((bs.drop 42).take 2)).toNat ≤ bs.length := by
  rw [bufferR] at hcall
  rw [readWord_whole (0 : Uint256) h htxid] at hcall
  have hv : At f (p+32) (bs.drop 32) := h.skip htxid
  obtain ⟨⟨v,p₂⟩,hr₂⟩ : ∃r,readWord f call.against.v (p+32)=r := ⟨_,rfl⟩
  simp only [hr₂] at hcall
  obtain ⟨⟨ovalue,p₃⟩,hr₃⟩ : ∃r,readWord f call.against.ovalue p₂=r := ⟨_,rfl⟩
  simp only [hr₃] at hcall
  obtain ⟨⟨olen,p₄⟩,hr₄⟩ : ∃r,readWord f call.against.olen p₃=r := ⟨_,rfl⟩
  simp only [hr₄] at hcall
  obtain ⟨⟨opret,p₅⟩,hr₅⟩ : ∃r,(memread f olen.toNat p₄).getD
      ((List.range olen.toNat).map call.against.opret,p₄)=r := ⟨_,rfl⟩
  simp only [hr₅] at hcall
  have heq : EventCall.opreturn ht (ofBytes 256 (bs.take 32)) ovalue v opret=call :=
    Option.some.inj hcall
  subst heq
  have hlength : opret.length=olen.toNat := by
    have hlen := length_opret f olen.toNat p₄
      (EventCall.opreturn ht (ofBytes 256 (bs.take 32)) ovalue v opret).against.opret
    rwa [hr₅] at hlen
  have hsucc : (readWord f (BitVec.ofNat 16 opret.length+1) p₃).1+1=
      BitVec.ofNat 16 opret.length+1 := by
    have hread : readWord f (BitVec.ofNat 16 opret.length+1) p₃=(olen,p₄) := hr₄
    rw [hread,hlength,BitVec.ofNat_toNat,BitVec.setWidth_eq]
  obtain ⟨hvlen,hvalue⟩ := read_of_succ (x := v+1) (by decide) hv (by
    rw [show readWord f (v+1) (p+32)=(v,p₂) from hr₂])
  rw [show readWord f (v+1) (p+32)=(v,p₂) from hr₂] at hvalue
  obtain ⟨hvaluelen,holen⟩ := read_of_succ (x := ovalue+1) (by decide) hvalue (by
    rw [show readWord f (ovalue+1) p₂=(ovalue,p₃) from hr₃])
  rw [show readWord f (ovalue+1) p₂=(ovalue,p₃) from hr₃] at holen
  obtain ⟨holenlen,hopret⟩ := read_of_succ (by decide) holen hsucc
  have hwhole := readWord_whole (BitVec.ofNat 16 opret.length+1) holen holenlen
  have hread : readWord f (BitVec.ofNat 16 opret.length+1) p₃=(olen,p₄) := hr₄
  rw [hread] at hwhole hopret
  have holenEq : olen=ofBytes 16 ((bs.drop 42).take 2) := by
    have hfst := (Prod.mk.inj hwhole).1
    simpa only [List.drop_drop] using hfst
  have hfst : ((memread f olen.toNat p₄).getD
      ((List.range olen.toNat).map fun _ => opret.headD 0+1,p₄)).1=opret :=
    congrArg Prod.fst hr₅
  have hfull := whole_opret hopret hfst
  simp only [List.length_drop] at hvlen hvaluelen holenlen hfull
  rw [← holenEq]
  omega

theorem bufferKind_ht (kind : RecordKind) (u : Uninit) {q : Nat} (hadds : kind.adds)
    (hcall : (bufferKind c u f ht q kind).2=some call) : call.ht=ht := by
  cases kind with
  | notarized withMoM => exact (congrArg EventCall.ht (Option.some.inj hcall)).symm
  | hushheight => exact (congrArg EventCall.ht (Option.some.inj hcall)).symm
  | timestamp => exact (congrArg EventCall.ht (Option.some.inj hcall)).symm
  | opreturn => exact (congrArg EventCall.ht (Option.some.inj hcall)).symm
  | pubkeys => simp [RecordKind.adds] at hadds
  | prices => simp [RecordKind.adds] at hadds
  | utxo => simp [RecordKind.adds] at hadds
  | other => simp [RecordKind.adds] at hadds

/-- The word that the stream leaves as it is at its end. -/
theorem freadWord_nil {w : Nat} (hw : 8∣w) (x : BitVec w) : (freadWord x []).1=x := by
  rw [freadWord,List.take_nil,List.length_nil,List.drop_zero,List.nil_append]
  exact ofBytes_toBytes hw x

/-- The depth of a call for a notarization, and the output number of one for an OP_RETURN. -/
def EventCall.MoMdepth : EventCall → Int32
  | .notarized _ _ _ _ _ MoMdepth => MoMdepth
  | _ => 0

def EventCall.vout : EventCall → BitVec 16
  | .opreturn _ _ _ v _ => v
  | _ => 0

/-- With the stream at its end the depth is garbage, and with a depth cut off in the buffer. -/
theorem whole_of_sameMoM (h : At f p bs) (hheight : 4≤bs.length)
    (hsame : ∀us ub,(streamNotarized us true ht bs).2=(bufferNotarized ub f true ht p).2) :
    104≤bs.length := by
  by_contra hlen
  rcases Nat.lt_or_ge 100 bs.length with hlong | hshort
  · obtain ⟨call,hcall⟩ : ∃call,(streamNotarized noGarbage true ht bs).2=some call := ⟨_,rfl⟩
    have hhash := h.skip hheight
    have hdest := hhash.skip (show 32≤(bs.drop 4).length by rw [List.length_drop]; omega)
    have hMoM := hdest.skip (show 32≤((bs.drop 4).drop 32).length by
      simp only [List.length_drop]; omega)
    have hdepth := hMoM.skip (show 32≤(((bs.drop 4).drop 32).drop 32).length by
      simp only [List.length_drop]; omega)
    have hbuffer : ((bufferNotarized {noGarbage with MoMdepth := call.MoMdepth+1} f true ht p).2.map
        EventCall.MoMdepth)=some (call.MoMdepth+1) := by
      simp only [bufferNotarized]
      rw [readWord_whole _ h hheight]
      simp only
      rw [readWord_whole (0 : Uint256) hhash (by simp only [List.length_drop]; omega)]
      simp only
      rw [readWord_whole (0 : Uint256) hdest (by simp only [List.length_drop]; omega)]
      simp only [if_true]
      rw [readWord_whole (0 : Uint256) hMoM (by simp only [List.length_drop]; omega)]
      simp only
      rw [readWord_short _ hdepth (by simp only [List.length_drop]; omega)]
      rfl
    rw [← hsame noGarbage,hcall] at hbuffer
    exact ne_succ (by decide) _ (Option.some.inj hbuffer)
  · obtain ⟨call,hcall⟩ : ∃call,(bufferNotarized noGarbage f true ht p).2=some call := ⟨_,rfl⟩
    have hstream : ((streamNotarized {noGarbage with MoMdepth := call.MoMdepth+1} true ht
        bs).2.map EventCall.MoMdepth)=some (call.MoMdepth+1) := by
      have hend : (((bs.drop (32/8)).drop (256/8)).drop (256/8)).drop (256/8)=[] := by
        simp only [List.drop_drop]
        exact List.drop_eq_nil_of_le (by omega)
      simp only [streamNotarized,if_true,Option.map_some]
      change some (freadWord _ ((((bs.drop (32/8)).drop (256/8)).drop (256/8)).drop (256/8))).1=_
      rw [hend,freadWord_nil (by decide)]
    rw [hsame _ noGarbage,hcall] at hstream
    exact ne_succ (by decide) _ (Option.some.inj hstream)

/-- With the stream at its end behind the txid the output number is garbage. -/
theorem txid_of_same (hsame : ∀us ub,(streamR us ht bs).2=(bufferR ub f ht p).2) :
    32≤bs.length := by
  by_contra hlen
  obtain ⟨call,hcall⟩ : ∃call,(bufferR noGarbage f ht p).2=some call := ⟨_,rfl⟩
  have hstream : ((streamR {noGarbage with v := call.vout+1} ht bs).2.map
      EventCall.vout)=some (call.vout+1) := by
    have hend : bs.drop (256/8)=[] := List.drop_eq_nil_of_le (by omega)
    simp only [streamR,Option.map_some]
    change some (freadWord _ (bs.drop (256/8))).1=_
    rw [hend,freadWord_nil (by decide)]
  rw [hsame _ noGarbage,hcall] at hstream
  exact ne_succ (by decide) _ (Option.some.inj hstream)

/-- A hash of zeros that is filled up with zeros, and the other way around. -/
theorem freadWord_eq_zero_iff (hlen : bs.length≤32) :
    (freadWord (0 : Uint256) bs).1=0 ↔ ∀b∈bs,b=0 := by
  have hzeros : toBytes (0 : Uint256)=List.replicate 32 0 := rfl
  have htake : bs.take (256/8)=bs := List.take_of_length_le hlen
  rw [freadWord,htake,hzeros,List.drop_replicate]
  constructor
  · intro hzero b hb
    have hbytes := congrArg toBytes hzero
    rw [toBytes_ofBytes (by decide) (by simp; omega),hzeros] at hbytes
    have hmem : b∈List.replicate 32 (0 : Byte) := by
      rw [← hbytes]
      exact List.mem_append_left _ hb
    exact List.eq_of_mem_replicate hmem
  · intro hall
    have hbs : bs=List.replicate bs.length 0 := List.eq_replicate_iff.mpr ⟨rfl,hall⟩
    have hfull : bs++List.replicate (32-bs.length) 0=List.replicate 32 0 := by
      conv_lhs => rw [hbs]
      rw [List.length_replicate,← List.replicate_add]
      congr 1
      omega
    rw [hfull,← hzeros]
    exact ofBytes_toBytes (by decide) _

/-- A notarization without a root, cut off behind its height: the calls are the same exactly when
what is left is zeros, which the buffer parser leaves unread. -/
theorem sameNotarized_iff (us ub : Uninit) (h : At f p bs) (hheight : 4≤bs.length)
    (hcut : bs.length<68) :
    ((streamNotarized us false ht bs).2=(bufferNotarized ub f false ht p).2 ↔
      ∀b∈bs.drop (if 36≤bs.length then 36 else 4),b=0) ∧
    At f (bufferNotarized ub f false ht p).1 (bs.drop (if 36≤bs.length then 36 else 4)) := by
  have hhash := h.skip hheight
  simp only [streamNotarized,bufferNotarized]
  rw [freadWord_whole us.notarized_height hheight,readWord_whole ub.notarized_height h hheight]
  simp only [Bool.false_eq_true,if_false]
  by_cases hdest : 36≤bs.length
  · have hafter := hhash.skip (show 32≤(bs.drop 4).length by rw [List.length_drop]; omega)
    rw [if_pos hdest,@freadWord_whole (bs.drop 4) 256 0 (by simp only [List.length_drop]; omega),
      readWord_whole (0 : Uint256) hhash (by simp only [List.length_drop]; omega)]
    simp only
    rw [readWord_short (0 : Uint256) hafter (by simp only [List.length_drop]; omega)]
    have hzero := @freadWord_eq_zero_iff (bs.drop 36) (by rw [List.length_drop]; omega)
    rw [List.drop_drop] at hafter ⊢
    refine ⟨?_,hafter⟩
    rw [← hzero]
    simp only [Option.some.injEq,EventCall.notarized.injEq,true_and,and_true]
  · rw [if_neg hdest,readWord_short (0 : Uint256) hhash (by simp only [List.length_drop]; omega)]
    simp only
    rw [readWord_short (0 : Uint256) hhash (by simp only [List.length_drop]; omega)]
    have hzero := @freadWord_eq_zero_iff (bs.drop 4) (by rw [List.length_drop]; omega)
    have hend : (freadWord (0 : Uint256) (bs.drop (32/8))).2=[] := by
      rw [freadWord,List.drop_drop]
      exact List.drop_eq_nil_of_le (by omega)
    rw [hend,freadWord_nil (by decide)]
    refine ⟨?_,hhash⟩
    rw [← hzero]
    simp only [Option.some.injEq,EventCall.notarized.injEq,true_and,and_true]

/-- The call of the buffer parser for a record. -/
def bufferCall (c : Chain) (u : Uninit) (f : List Byte) (p : Nat) (func : Byte) :
    Option EventCall :=
  (bufferKind c u f (readWord f u.ht (p+1)).1 (readWord f u.ht (p+1)).2 (recordKind func)).2

/-- Parsers that make the same call whatever their variables hold have read the height. -/
theorem header_of_same {func : Byte} {rest : List Byte} (h : At f p (func::rest))
    (hadds : (recordKind func).adds)
    (hsame : ∀us ub,streamCall c us func rest=bufferCall c ub f p func) : 4≤ rest.length := by
  obtain ⟨call,hcall⟩ := @streamCall_isSome c noGarbage func rest hadds
  have hother : bufferCall c call.against f p func=some call := (hsame _ _).symm.trans hcall
  have hht := bufferKind_ht _ _ hadds hother
  refine whole_of_succ (x := call.against.ht) (by decide) h.tail ?_
  rw [← hht,against_ht]

/-- A record that is cut off, with the same calls whatever the variables hold, is a notarization
that ends in zeros. -/
theorem zeroTail_of_same {func : Byte} {rest : List Byte} (h : At f p (func::rest))
    (hcut : ¬Whole func rest) (hadds : (recordKind func).adds)
    (hsame : ∀us ub,streamCall c us func rest=bufferCall c ub f p func) :
    ZeroTail func rest := by
  have hheader : 32/8≤ rest.length := header_of_same h hadds hsame
  have hbody : At f (p+1+4) (rest.drop 4) := h.tail.skip hheader
  have hkinds : ∀us ub,(streamKind c us (ofBytes 32 (rest.take 4)) (rest.drop 4)
      (recordKind func)).2=(bufferKind c ub f (ofBytes 32 (rest.take 4)) (p+1+4)
        (recordKind func)).2 := by
    intro us ub
    have hcalls := hsame us ub
    unfold streamCall bufferCall at hcalls
    rwa [freadWord_whole us.ht hheader,readWord_whole ub.ht h.tail hheader] at hcalls
  have hshort : (rest.drop 4).length<payloadLength (rest.drop 4) (recordKind func) := by
    rw [Whole] at hcut
    rw [List.length_drop]
    omega
  have hagainst : ∃call,(bufferKind c (EventCall.against call) f (ofBytes 32 (rest.take 4)) (p+1+4)
      (recordKind func)).2=some call := by
    obtain ⟨call,hcall⟩ := @streamCall_isSome c noGarbage func rest hadds
    unfold streamCall at hcall
    rw [freadWord_whole noGarbage.ht hheader] at hcall
    exact ⟨call,(hkinds _ _).symm.trans hcall⟩
  obtain ⟨call,hcall⟩ := hagainst
  cases hkind : recordKind func with
  | notarized withMoM =>
    rw [hkind] at hkinds hcall hshort
    have hheight : 4≤(rest.drop 4).length := height_notarized hbody hcall
    cases withMoM with
    | true =>
      have hwhole := whole_of_sameMoM hbody hheight hkinds
      simp only [payloadLength,if_true] at hshort
      omega
    | false =>
      simp only [payloadLength,Bool.false_eq_true,if_false] at hshort
      have hzeros := (sameNotarized_iff noGarbage noGarbage hbody hheight hshort).1.mp
        (hkinds _ _)
      rw [List.length_drop] at hheight hshort hzeros
      refine ⟨hkind,by omega,?_⟩
      have hsplit : 36≤ rest.length-4 ↔ 40≤ rest.length := by omega
      rw [List.drop_drop] at hzeros
      by_cases hdest : 40≤ rest.length
      · rw [if_pos (hsplit.mpr hdest)] at hzeros
        rwa [if_pos hdest]
      · rw [if_neg (fun hcon => hdest (hsplit.mp hcon))] at hzeros
        rwa [if_neg hdest]
  | hushheight =>
    rw [hkind] at hcall hshort
    exact absurd (whole_hushheight hbody hcall) (not_le.mpr hshort)
  | timestamp =>
    rw [hkind] at hcall hshort
    exact absurd (whole_timestamp hbody hcall) (not_le.mpr hshort)
  | opreturn =>
    rw [hkind] at hkinds hcall hshort
    exact absurd (whole_opreturn hbody (txid_of_same hkinds) hcall) (not_le.mpr hshort)
  | pubkeys => simp [hkind,RecordKind.adds] at hadds
  | prices => simp [hkind,RecordKind.adds] at hadds
  | utxo => simp [hkind,RecordKind.adds] at hadds
  | other => simp [hkind,RecordKind.adds] at hadds

/-- Zeros are no events. -/
theorem quiet_of_zeros (c : Chain) {bs : List Byte} (h : ∀b∈bs,b=0) : Quiet c bs := by
  induction hlen : bs.length using Nat.strong_induction_on generalizing bs with
  | _ n ih =>
    cases bs with
    | nil => exact .done
    | cons func rest =>
      rw [List.forall_mem_cons] at h
      obtain ⟨rfl,hrest⟩ := h
      refine .record trivial (ih (skipWord 4 rest).length ?_ ?_ rfl)
      · have hskip := length_skipWord 4 rest
        rw [List.length_cons] at hlen
        omega
      · intro b hb
        unfold skipWord at hb
        split_ifs at hb
        · exact hrest b (List.mem_of_mem_drop hb)
        · exact hrest b hb

end Garbage

/-- Both parsers make the same call for a whole record and stand behind it. -/
theorem parse_whole (c : Chain) (us ub : Uninit) {f rest : List Byte} {p : Nat}
    {func : Byte} (h : At f p (func::rest)) (hwhole : Whole func rest) :
    ∃call,hushParsestatefile c us (func::rest)=some (func,
        rest.drop (4+payloadLength (rest.drop 4) (recordKind func)),call) ∧
      bufferRecord c ub f p=
        some (func,p+1+(4+payloadLength (rest.drop 4) (recordKind func)),call) := by
  rw [Whole] at hwhole
  have hheader : 32/8 ≤ rest.length := by omega
  have hbody := h.tail.skip hheader
  have hpayload : payloadLength (rest.drop 4) (recordKind func)≤(rest.drop 4).length := by
    rw [List.length_drop]
    omega
  have hstep : InStep (p+1+4) (payloadLength (rest.drop 4) (recordKind func)) (rest.drop 4)
      (streamKind c us (ofBytes 32 (rest.take 4)) (rest.drop 4) (recordKind func))
      (bufferKind c ub f (ofBytes 32 (rest.take 4)) (p+1+4) (recordKind func)) :=
    inStep_kind _ hbody hpayload
  obtain ⟨hstream,hbuffer,hcall⟩ := hstep
  rw [List.drop_drop] at hstream
  refine ⟨(bufferKind c ub f (ofBytes 32 (rest.take 4)) (p+1+4) (recordKind func)).2,?_,?_⟩
  · rw [hushParsestatefile,freadWord_whole us.ht hheader]
    simp only
    rw [streamPayload_kind]
    exact congrArg some (Prod.ext rfl (Prod.ext hstream hcall))
  · rw [bufferRecord_cons h,readWord_whole ub.ht h.tail hheader]
    exact congrArg some (Prod.ext rfl (Prod.ext (hbuffer.trans (Nat.add_assoc _ _ _)) rfl))

theorem Agrees.whole_iff {c : Chain} {func : Byte} {rest : List Byte} (hwhole : Whole func rest) :
    Agrees c (func::rest) ↔
      Agrees c (rest.drop (4+payloadLength (rest.drop 4) (recordKind func))) := by
  constructor
  · intro hagrees
    cases hagrees with
    | record _ next => exact next
    | cut short _ => exact absurd hwhole short
    | zeros short _ => exact absurd hwhole short
  · intro next
    exact .record hwhole next

theorem Agrees.cut_iff {c : Chain} {func : Byte} {rest : List Byte} (hcut : ¬Whole func rest) :
    Agrees c (func::rest) ↔ Quiet c (func::rest) ∨ ZeroTail func rest := by
  constructor
  · intro hagrees
    cases hagrees with
    | record whole _ => exact absurd whole hcut
    | cut _ quiet => exact .inl quiet
    | zeros _ tail => exact .inr tail
  · rintro (quiet | tail)
    · exact .cut hcut quiet
    · exact .zeros hcut tail

theorem Quiet.not_adds {c : Chain} {func : Byte} {rest : List Byte}
    (hquiet : Quiet c (func::rest)) : (recordKind func).adds=false := by
  cases hquiet with
  | record silent _ =>
    cases hkind : recordKind func with
    | notarized withMoM => simp [hkind,Silent] at silent
    | hushheight => simp [hkind,Silent] at silent
    | timestamp => simp [hkind,Silent] at silent
    | opreturn => simp [hkind,Silent] at silent
    | _ => rfl

/-- The stream loop on a record that is cut off. -/
theorem streamLoop_cut {c : Chain} (u : Nat → Uninit) {func : Byte} {rest : List Byte} (k : Nat)
    (hcut : ¬Whole func rest) : streamLoop c u (k+2) (func::rest)=
      some (streamCall c (u (func::rest).length) func rest).toList := by
  rw [streamLoop,hushParsestatefile_cut hcut]
  simp only [streamLoop,hushParsestatefile,Option.map_some,List.append_nil]

/-- The first call of the buffer parser for a kind that always makes one. -/
theorem bufferCall_isSome {c : Chain} (u : Uninit) {f rest : List Byte} {p : Nat} {func : Byte}
    (h : At f p (func::rest)) (hadds : (recordKind func).adds) :
    ∃call,bufferCall c u f p func=some call := by
  apply Option.ne_none_iff_exists'.mp
  unfold bufferCall
  rw [Ne,bufferKind_call _ (readWord_skip u.ht h.tail)]
  cases hkind : recordKind func with
  | notarized withMoM => exact id
  | hushheight => exact id
  | timestamp => exact id
  | opreturn => exact id
  | _ => simp [hkind,RecordKind.adds] at hadds

/-- Loops that agree on a record that is cut off make the same call for it. -/
theorem calls_of_loops {c : Chain} {f rest : List Byte} {p k : Nat} {func : Byte}
    (h : At f p (func::rest)) (hcut : ¬Whole func rest) (hadds : (recordKind func).adds)
    (hsame : ∀us ub,streamLoop c us (k+2) (func::rest)=bufferLoop c ub f (k+2) p) (us ub : Uninit) :
    streamCall c us func rest=bufferCall c ub f p func := by
  have hloops := hsame (fun _ => us) (fun _ => ub)
  obtain ⟨call,hcall⟩ := @streamCall_isSome c us func rest hadds
  obtain ⟨other,hother⟩ := bufferCall_isSome (c := c) ub h hadds
  rw [streamLoop_cut _ k hcut,hcall,bufferLoop,bufferRecord_cons h] at hloops
  simp only at hloops
  obtain ⟨calls,-,happend⟩ := Option.map_eq_some_iff.mp hloops.symm
  change (bufferCall c ub f p func).toList++calls=_ at happend
  rw [hother] at happend
  rw [hcall,hother,(List.cons.inj happend).1]

/-- On a notarization that ends in zeros both loops make its call and no other. -/
theorem loops_zeroTail {c : Chain} {f rest : List Byte} {p k : Nat} {func : Byte}
    (h : At f p (func::rest)) (hcut : ¬Whole func rest) (htail : ZeroTail func rest)
    (hk : rest.length<k+1) (us ub : Nat → Uninit) :
    streamLoop c us (k+2) (func::rest)=bufferLoop c ub f (k+2) p := by
  obtain ⟨hkind,hheight,hzeros⟩ := htail
  have hheader : 32/8≤ rest.length := by omega
  have hbody : At f (p+1+4) (rest.drop 4) := h.tail.skip hheader
  have hshort : (rest.drop 4).length<68 := by
    rw [Whole,hkind] at hcut
    simp only [payloadLength,Bool.false_eq_true,if_false] at hcut
    rw [List.length_drop]
    omega
  have hsplit : (rest.drop 4).drop (if 36≤(rest.drop 4).length then 36 else 4)=
      rest.drop (if 40≤ rest.length then 40 else 8) := by
    rw [List.drop_drop,List.length_drop]
    by_cases hdest : 40≤ rest.length
    · rw [if_pos hdest,if_pos (by omega)]
    · rw [if_neg hdest,if_neg (by omega)]
  obtain ⟨hiff,hat⟩ := @sameNotarized_iff f (rest.drop 4) (p+1+4) (ofBytes 32 (rest.take 4))
    (us (func::rest).length) (ub p) hbody (by rw [List.length_drop]; omega) hshort
  rw [hsplit] at hiff hat
  rw [streamLoop_cut _ k hcut,bufferLoop,bufferRecord_cons h]
  unfold streamCall
  rw [freadWord_whole _ hheader,readWord_whole _ h.tail hheader,hkind]
  have hquiet := (bufferLoop_quiet c ub f (k+1) _ _ hat.2 (by rw [List.length_drop]; omega)).mpr
    (quiet_of_zeros c hzeros)
  have hcall := hiff.mpr hzeros
  change some (Option.toList (streamNotarized (us (func::rest).length) false
      (ofBytes 32 (rest.take 4)) (rest.drop 4)).2)=
    (bufferLoop c ub f (k+1) (bufferNotarized (ub p) f false (ofBytes 32 (rest.take 4))
      (p+1+4)).1).map ((bufferNotarized (ub p) f false (ofBytes 32 (rest.take 4))
        (p+1+4)).2.toList++·)
  rw [hquiet,hcall,Option.map_some,List.append_nil]

/-- From a common position on, the parsers agree for all contents of their
variables exactly when the rest of the file agrees. -/
theorem loops_agree_iff (c : Chain) (f : List Byte) (k p : Nat) (t : List Byte) (h : At f p t)
    (hk : t.length<k) :
    (∀us ub,streamLoop c us k t=bufferLoop c ub f k p) ↔ Agrees c t := by
  induction k generalizing p t with
  | zero => omega
  | succ k ih =>
    cases t with
    | nil =>
      have hend : ¬p<f.length := by
        have hlen := h.length_eq
        rw [List.length_nil] at hlen
        omega
      refine iff_of_true ?_ .done
      intro us ub
      rw [bufferLoop,bufferRecord,if_neg hend]
      rfl
    | cons func rest =>
      rw [List.length_cons] at hk
      by_cases hwhole : Whole func rest
      · have hless : (rest.drop (4+payloadLength (rest.drop 4) (recordKind func))).length<k := by
          rw [List.length_drop]
          omega
        rw [Agrees.whole_iff hwhole,← ih _ _ (h.tail.skip hwhole) hless]
        refine forall_congr' fun us => forall_congr' fun ub => ?_
        obtain ⟨call,hstream,hbuffer⟩ := parse_whole c
          (us (func::rest).length) (ub p) h hwhole
        rw [streamLoop,bufferLoop,hstream,hbuffer]
        exact (Option.map_injective (List.append_right_injective call.toList)).eq_iff
      · obtain ⟨m,rfl⟩ : ∃m,k=m+1 := ⟨k-1,by omega⟩
        rw [Agrees.cut_iff hwhole]
        constructor
        · intro hsame
          cases hadds : (recordKind func).adds with
          | true =>
            exact .inr (zeroTail_of_same h hwhole hadds (calls_of_loops h hwhole hadds hsame))
          | false =>
            left
            rw [← bufferLoop_quiet c (fun _ => noGarbage) f (m+2) p _ h.2
              (by rw [List.length_cons]; omega),← hsame (fun _ => noGarbage),
              streamLoop_cut (fun _ => noGarbage) m hwhole,streamCall_none hwhole hadds]
            rfl
        · rintro (hquiet | htail) us ub
          · rw [streamLoop_cut us m hwhole,streamCall_none hwhole hquiet.not_adds,
              (bufferLoop_quiet c ub f (m+2) p _ h.2 (by rw [List.length_cons]; omega)).mpr hquiet]
            rfl
          · exact loops_zeroTail h hwhole htail (by omega) us ub

theorem length_streamKind (c : Chain) (u : Uninit) (ht : Int32) (bs : List Byte)
    (kind : RecordKind) : (streamKind c u ht bs kind).1.length≤bs.length := by
  by_cases hlen : payloadLength bs kind ≤ bs.length
  · have hstep : InStep 0 (payloadLength bs kind) bs (streamKind c u ht bs kind)
        (bufferKind c u bs ht 0 kind) := inStep_kind kind (At.start bs) hlen
    rw [hstep.1,List.length_drop]
    omega
  · rw [streamKind_cut kind hlen,List.length_nil]
    omega

/-- Every call consumes the function byte, so the stream ends in time. -/
theorem streamLoop_isSome (c : Chain) (u : Nat → Uninit) (k : Nat) (t : List Byte)
    (hk : t.length<k) : (streamLoop c u k t).isSome := by
  induction k generalizing t with
  | zero => omega
  | succ k ih =>
    cases t with
    | nil => rfl
    | cons func rest =>
      rw [List.length_cons] at hk
      have hless : (streamPayload c (u (func::rest).length) func
          (freadWord (u (func::rest).length).ht rest).1 (rest.drop 4)).1.length<k := by
        rw [streamPayload_kind]
        have hle := length_streamKind c (u (func::rest).length)
          (freadWord (u (func::rest).length).ht rest).1 (rest.drop 4) (recordKind func)
        rw [List.length_drop] at hle
        omega
      rw [streamLoop,hushParsestatefile]
      simp only [Option.isSome_map]
      exact ih _ hless

/-- Both parsers come to an end with the same calls, whatever their variables hold
before, exactly when no record of the file is cut off, or the first one that is starts no event
for the buffer parser or is a notarization without a root that ends in zeros. -/
theorem parsers_agree_iff (c : Chain) (f : List Byte) :
    (∀us ub,∃calls,streamCalls c us f=some calls ∧ bufferCalls c ub f=some calls) ↔
      Agrees c f := by
  rw [← loops_agree_iff c f (f.length+1) 0 f (At.start f) (by omega)]
  refine forall_congr' fun us => forall_congr' fun ub => ?_
  constructor
  · rintro ⟨calls,hstream,hbuffer⟩
    exact hstream.trans hbuffer.symm
  · intro hsame
    obtain ⟨calls,hstream⟩ :=
      Option.isSome_iff_exists.mp (streamLoop_isSome c us (f.length+1) f (by omega))
    exact ⟨calls,hstream,hsame.symm.trans hstream⟩

/-- A `K` record of height 7, cut off behind the first byte of its block height,
which is again the letter `K`. -/
def cutOffFile : List Byte := letter 'K'::(toBytes (7 : Int32)++[letter 'K'])

/-- The stream parser makes one call, the buffer parser two. -/
theorem parsers_disagree_cutOff :
    ¬∃us ub,streamCalls smartChain us cutOffFile=bufferCalls smartChain ub cutOffFile := by
  rintro ⟨us,ub,hsame⟩
  have hstream : (streamCalls smartChain us cutOffFile).map List.length=some 1 := rfl
  have hbuffer : (bufferCalls smartChain ub cutOffFile).map List.length=some 2 := rfl
  rw [hsame,hbuffer] at hstream
  exact absurd hstream (by decide)

end Zdeex.Notary
