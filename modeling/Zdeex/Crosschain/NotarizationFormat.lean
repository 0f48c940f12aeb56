import Mathlib.Tactic.IntervalCases
import Zdeex.Crosschain.NotarizationDb
import Zdeex.Framework.Codec

namespace Zdeex.NotarizationDb

open Zdeex.Block
open Zdeex.Crosschain (unmarshal)
open Zdeex.Framework
open Zdeex.Script

section Definitions

/-- `strcmp` with a literal, which ends with its null: whether the two are equal, and no
result when it runs beyond the end of the bytes. -/
def strcmp : List Byte → List Byte → Option Bool
  | [],_ => some true
  | _::_,[] => none
  | c::literal,b::bs => if b=c then strcmp literal bs else some false

/-- The names of the chains that back notarizations are for: `BTC` and `HUSH3`. -/
def symbolBtc : List Byte := [0x42,0x54,0x43]

def symbolHush : List Byte := [0x48,0x55,0x53,0x48,0x33]

/-- `DetectBackNotarization` of the bytes in the stream; `smart` says that the chain has a
symbol. -/
def detectBackNotarization (smart : Bool) (s : List Byte) : Option Bool :=
  if smart=true then some true
  else if 72 ≤ s.length then
    match strcmp (symbolBtc++[0]) (s.drop 68) with
    | none => none
    | some true => some true
    | some false => strcmp (symbolHush++[0]) (s.drop 68)
  else some false

def readBackTail (isBack : Bool) (n : NotarizationData) : Reader NotarizationData :=
  if isBack then readMoMoM n else pure n

def readTail (isBack : Bool) (n : NotarizationData) : Reader NotarizationData := fun bs =>
  if bs.isEmpty then some (n,bs)
  else (do
    let MoM ← Reader.word 256
    let MoMDepth ← Reader.word 16
    let ccId ← Reader.word 16
    readBackTail isBack {n with MoM,MoMDepth,ccId} : Reader NotarizationData) bs

def readTxHash (isBack : Bool) : Reader Uint256 := if isBack then Reader.word 256 else pure 0

/-- The fields of a record, back notarization or not. -/
def readFields (isBack : Bool) : Reader NotarizationData := do
  let blockHash ← Reader.word 256
  let height ← Reader.word 32
  let txHash ← readTxHash isBack
  let symbol ← readSymbol
  readTail isBack ⟨blockHash,height,txHash,symbol,0,0,0,0,0⟩

def readRecord (smart : Bool) : Reader NotarizationData := fun bs =>
  match detectBackNotarization smart bs with
  | none => none
  | some isBack => readFields isBack bs

def readNamedRecord (smart : Bool) : Reader Notarization := do
  let hash ← Reader.word 256
  let data ← readRecord smart
  return (hash,data)

def opReturnBytes (tx : CTransaction) : Option (List Byte) :=
  match tx.vout[1]? with
  | none => none
  | some out => (getOpReturnData out.scriptPubKey).map fun vdata => vdata.map UInt8.toBitVec

/-- `ParseNotarizationOpReturn` on a chain with or without a symbol; no result where it reads
beyond the bytes of the op_return. -/
def parseOpReturn (smart : Bool) (tx : CTransaction) : Option (Option NotarizationData) :=
  match opReturnBytes tx with
  | none => some none
  | some vdata =>
      match detectBackNotarization smart vdata with
      | none => none
      | some isBack => some (unmarshal (readFields isBack) vdata)

/-- The records of a block as the database of the same chain gives them back. -/
def readBlockNotarizations (smart : Bool) (db : Db) (blockHash : Uint256) :
    Option NotarizationsInBlock :=
  db.read blockHash (readVector (readNamedRecord smart))

def writeBlockNotarizations (db : Db) (blockHash : Uint256) (ns : NotarizationsInBlock) : Db :=
  Function.update db blockHash (some (writeVector writeNotarization ns))

/-- The bytes end inside the name `HUSH3` at the place of the symbol. -/
def EndsInName (s : List Byte) : Prop :=
  72 ≤ s.length ∧ s.length<74 ∧ List.IsPrefix (s.drop 68) symbolHush

/-- The record names a transaction, or it is read as it was written: on a chain without a
symbol, without a second tree, and not mistaken for a back notarization. -/
def Stable (smart : Bool) (d : NotarizationData) : Prop :=
  d.txHash≠0 ∨ (smart=false ∧ d.MoMoM=0 ∧ d.MoMoMDepth=0 ∧
    detectBackNotarization smart (writeNotarizationData d)=some false)

end Definitions

section Names

theorem strcmp_append {literal s : List Byte} {b : Bool} (h : strcmp literal s=some b)
    (rest : List Byte) : strcmp literal (s++rest)=some b := by
  fun_induction strcmp literal s with
  | case1 => simpa [strcmp] using h
  | case2 => cases h
  | case3 literal c s ih => simpa [strcmp] using ih h
  | case4 literal c b s hne => simpa [strcmp,hne] using h

/-- Two C strings. -/
theorem strcmp_cstring {name a : List Byte} (hname : 0∉name) (ha : 0∉a) (t : List Byte) :
    strcmp (name++[0]) (a++0::t)=some (decide (name=a)) := by
  induction name generalizing a with
  | nil =>
    cases a with
    | nil => rfl
    | cons b a =>
      have hb : ¬b=0#8 := fun h => ha (by simp [h])
      simp [strcmp,hb]
  | cons c name ih =>
    have hc : ¬0#8=c := fun h => hname (by simp [← h])
    cases a with
    | nil => simp [strcmp,hc]
    | cons b a =>
      have hrest := ih (fun h => hname (List.mem_cons_of_mem c h))
        (fun h => ha (List.mem_cons_of_mem b h))
      by_cases hbc : b=c
      · subst hbc
        simpa [strcmp] using hrest
      · simp [strcmp,hbc,Ne.symm hbc]

theorem strcmp_eq_none {literal s : List Byte} :
    strcmp literal s=none ↔ s.length<literal.length ∧ List.IsPrefix s literal := by
  fun_induction strcmp literal s with
  | case1 => simp
  | case2 => simp
  | case3 literal c s ih => simpa [List.cons_prefix_cons] using ih
  | case4 literal c b s hne => simp [List.cons_prefix_cons,hne]

theorem strcmp_eq_true {literal s : List Byte} (h : strcmp literal s=some true) :
    List.IsPrefix literal s := by
  fun_induction strcmp literal s with
  | case1 => exact List.nil_prefix
  | case2 => cases h
  | case3 literal c s ih => exact List.cons_prefix_cons.mpr ⟨rfl,ih h⟩
  | case4 => cases h

theorem detect_append {smart : Bool} {s : List Byte} {b : Bool} (hlen : 72 ≤ s.length)
    (h : detectBackNotarization smart s=some b) (rest : List Byte) :
    detectBackNotarization smart (s++rest)=some b := by
  unfold detectBackNotarization at h ⊢
  split_ifs at h ⊢ with hsmart hlong
  · exact h
  · rw [List.drop_append_of_le_length (by omega)]
    rcases hbtc : strcmp (symbolBtc++[0]) (s.drop 68) with _ | _ | _
    · rw [hbtc] at h
      cases h
    · rw [hbtc] at h
      rw [strcmp_append hbtc]
      exact strcmp_append h rest
    · rw [hbtc] at h
      rw [strcmp_append hbtc]
      exact h
  · rw [List.length_append] at hlong
    omega

/-- The name at position 68 decides. -/
theorem detect_named {s before a t : List Byte} (hlen : 72 ≤ s.length) (hs : s=before++(a++0::t))
    (hbefore : before.length=68) (ha : 0∉a) :
    detectBackNotarization false s=some (decide (a=symbolBtc ∨ a=symbolHush)) := by
  have hdrop : s.drop 68=a++0::t := by
    rw [hs]
    exact List.drop_left' hbefore
  unfold detectBackNotarization
  rw [if_neg (by decide),if_pos hlen,hdrop,strcmp_cstring (by decide) ha,
    strcmp_cstring (by decide) ha]
  by_cases hbtc : symbolBtc=a
  · simp [hbtc]
  · have hne : ¬a=symbolBtc := fun h => hbtc h.symm
    simp [hbtc,hne,eq_comm]

theorem detect_eq_none {smart : Bool} {s : List Byte} :
    detectBackNotarization smart s=none ↔ smart=false ∧ EndsInName s := by
  unfold detectBackNotarization EndsInName
  cases smart with
  | true => simp
  | false =>
    rw [if_neg (by decide)]
    by_cases hlong : 72 ≤ s.length
    · have hbtc : strcmp (symbolBtc++[0]) (s.drop 68)≠none := by
        rw [Ne,strcmp_eq_none,List.length_drop]
        rintro ⟨hlt,-⟩
        simp [symbolBtc] at hlt
        omega
      have hname : strcmp (symbolHush++[0]) (s.drop 68)=none ↔
          s.length<74 ∧ List.IsPrefix (s.drop 68) symbolHush := by
        rw [strcmp_eq_none,List.length_drop]
        constructor
        · rintro ⟨hlt,hstarts⟩
          have hlt : s.length<74 := by
            simp [symbolHush] at hlt
            omega
          refine ⟨hlt,List.prefix_of_prefix_length_le hstarts (List.prefix_append _ _) ?_⟩
          rw [List.length_drop]
          simp [symbolHush]
          omega
        · rintro ⟨hlt,hstarts⟩
          refine ⟨?_,hstarts.trans (List.prefix_append _ _)⟩
          simp [symbolHush]
          omega
      rw [if_pos hlong]
      rcases hb : strcmp (symbolBtc++[0]) (s.drop 68) with _ | _ | _
      · exact absurd hb hbtc
      · exact hname.trans ⟨fun h => ⟨rfl,hlong,h⟩,fun h => h.2.2⟩
      · refine iff_of_false (by simp) ?_
        rintro ⟨-,-,-,hstarts⟩
        obtain ⟨t,ht⟩ := strcmp_eq_true hb
        rw [← ht] at hstarts
        obtain ⟨u,hu⟩ := hstarts
        simp [symbolBtc,symbolHush] at hu
    · rw [if_neg hlong]
      simp [hlong]

end Names

section Fields

variable {isBack : Bool} {d : NotarizationData} {bs rest : List Byte}

theorem word_eq_some {w : Nat} (hw : 8∣w) {x : BitVec w} (h : Reader.word w bs=some (x,rest)) :
    bs=toBytes x++rest := by
  obtain ⟨e,he,hbs⟩ := (Codec.word w hw).write_read h
  obtain rfl := Option.some.inj he
  exact hbs

theorem readSymbol_eq_some {s : Symbol} (h : readSymbol bs=some (s,rest)) :
    bs=s.1++0::rest := by
  unfold readSymbol at h
  split_ifs at h with hlt
  obtain ⟨rfl,rfl⟩ := Prod.mk.inj (Option.some.inj h)
  have hsplit := List.takeWhile_append_dropWhile (p := (· != 0)) (l := bs.take 64)
  have hend : ((bs.take 64).dropWhile (· != 0))≠[] := by
    intro hnil
    rw [hnil,List.append_nil] at hsplit
    rw [hsplit] at hlt
    omega
  obtain ⟨c,t,hct⟩ := List.exists_cons_of_ne_nil hend
  have hc : c=0 := by
    have hhead := List.head_dropWhile_not (· != 0) hend
    simp only [hct,List.head_cons] at hhead
    simpa using hhead
  rw [hct,hc] at hsplit
  dsimp only
  set s := (bs.take 64).takeWhile (· != 0) with hs
  have hbs : bs=s++0::(t++bs.drop 64) := by
    calc bs=bs.take 64++bs.drop 64 := (List.take_append_drop 64 bs).symm
      _=s++0::(t++bs.drop 64) := by rw [← hsplit,List.append_assoc,List.cons_append]
  have hdrop : bs.drop (s.length+1)=t++bs.drop 64 := by
    conv_lhs => rw [hbs]
    rw [← List.drop_drop,List.drop_left]
    rfl
  rw [hdrop]
  exact hbs

/-- What may follow the symbol: nothing, the first tree, or both trees. -/
inductive Tail (isBack : Bool) (d : NotarizationData) : List Byte → List Byte → Prop where
  | bare (hMoM : d.MoM=0) (hdepth : d.MoMDepth=0) (hccId : d.ccId=0) (hMoMoM : d.MoMoM=0)
      (hMoMoMDepth : d.MoMoMDepth=0) : Tail isBack d [] []
  | single (rest : List Byte) (hrest : isBack=true → rest=[]) (hMoMoM : d.MoMoM=0)
      (hMoMoMDepth : d.MoMoMDepth=0) :
      Tail isBack d (toBytes d.MoM++(toBytes d.MoMDepth++(toBytes d.ccId++rest))) rest
  | double (rest : List Byte) (hback : isBack=true) :
      Tail isBack d (toBytes d.MoM++(toBytes d.MoMDepth++(toBytes d.ccId++
        (toBytes d.MoMoM++(toBytes d.MoMoMDepth++rest))))) rest

/-- The bytes behind a record that was read. -/
structure Layout (isBack : Bool) (d : NotarizationData) (bs rest : List Byte) : Prop where
  txHash : isBack=false → d.txHash=0
  bytes : ∃tail,Tail isBack d tail rest ∧ bs=toBytes d.blockHash++(toBytes d.height++
    ((if isBack then toBytes d.txHash else [])++(d.symbol.1++0::tail)))

theorem readTail_layout {n : NotarizationData} (hempty : n.MoM=0 ∧ n.MoMDepth=0 ∧ n.ccId=0 ∧
    n.MoMoM=0 ∧ n.MoMoMDepth=0) (h : readTail isBack n bs=some (d,rest)) :
    Tail isBack d bs rest ∧ d.blockHash=n.blockHash ∧ d.height=n.height ∧ d.txHash=n.txHash ∧
      d.symbol=n.symbol := by
  obtain ⟨h₁,h₂,h₃,h₄,h₅⟩ := hempty
  unfold readTail at h
  split_ifs at h with hend
  · obtain ⟨rfl,rfl⟩ := Prod.mk.inj (Option.some.inj h)
    obtain rfl := List.isEmpty_iff.mp hend
    exact ⟨.bare h₁ h₂ h₃ h₄ h₅,rfl,rfl,rfl,rfl⟩
  · obtain ⟨MoM,bs₁,hMoM,h⟩ := Reader.bind_eq_some h
    obtain ⟨MoMDepth,bs₂,hdepth,h⟩ := Reader.bind_eq_some h
    obtain ⟨ccId,bs₃,hccId,h⟩ := Reader.bind_eq_some h
    rw [word_eq_some (by decide) hMoM,word_eq_some (by decide) hdepth,
      word_eq_some (by decide) hccId]
    unfold readBackTail at h
    split_ifs at h with hback
    · unfold readMoMoM at h
      split_ifs at h with hend'
      · obtain ⟨rfl,rfl⟩ := Prod.mk.inj (Option.some.inj h)
        exact ⟨.single _ (fun _ => List.isEmpty_iff.mp hend') h₄ h₅,rfl,rfl,rfl,rfl⟩
      · obtain ⟨MoMoM,bs₄,hMoMoM,h⟩ := Reader.bind_eq_some h
        obtain ⟨MoMoMDepth,bs₅,hMoMoMDepth,h⟩ := Reader.bind_eq_some h
        obtain ⟨rfl,rfl⟩ := Prod.mk.inj (Option.some.inj h)
        rw [word_eq_some (by decide) hMoMoM,word_eq_some (by decide) hMoMoMDepth]
        exact ⟨.double _ hback,rfl,rfl,rfl,rfl⟩
    · obtain ⟨rfl,rfl⟩ := Prod.mk.inj (Option.some.inj h)
      exact ⟨.single _ (fun hyes => absurd hyes hback) h₄ h₅,rfl,rfl,rfl,rfl⟩

theorem readFields_layout (h : readFields isBack bs=some (d,rest)) : Layout isBack d bs rest := by
  obtain ⟨blockHash,bs₁,hblockHash,h⟩ := Reader.bind_eq_some h
  obtain ⟨height,bs₂,hheight,h⟩ := Reader.bind_eq_some h
  obtain ⟨txHash,bs₃,htxHash,h⟩ := Reader.bind_eq_some h
  obtain ⟨symbol,bs₄,hsymbol,h⟩ := Reader.bind_eq_some h
  obtain ⟨htail,rfl,rfl,rfl,rfl⟩ := readTail_layout ⟨rfl,rfl,rfl,rfl,rfl⟩ h
  rw [word_eq_some (by decide) hblockHash,word_eq_some (by decide) hheight]
  cases isBack with
  | true =>
    rw [readTxHash,if_pos rfl] at htxHash
    rw [word_eq_some (by decide) htxHash,readSymbol_eq_some hsymbol]
    exact ⟨fun hno => absurd hno (by decide),_,htail,rfl⟩
  | false =>
    rw [readTxHash,if_neg (by decide)] at htxHash
    obtain ⟨hzero,rfl⟩ := Prod.mk.inj (Option.some.inj htxHash)
    rw [readSymbol_eq_some hsymbol]
    exact ⟨fun _ => hzero.symm,_,htail,rfl⟩

end Fields

section Records

variable {smart : Bool} {d : NotarizationData} {bs rest rest' : List Byte}

theorem isNull_eq_false_iff : d.txHash.isNull=false ↔ d.txHash≠0 := by
  rw [← Bool.not_eq_true,Uint256.isNull_iff]

theorem write_named (h : d.txHash≠0) : writeNotarizationData d=
    toBytes d.blockHash++(toBytes d.height++(toBytes d.txHash++(d.symbol.1++0::(toBytes d.MoM++
      (toBytes d.MoMDepth++(toBytes d.ccId++(toBytes d.MoMoM++toBytes d.MoMoMDepth))))))) := by
  simp [writeNotarizationData,isNull_eq_false_iff.mpr h]

theorem write_unnamed (h : d.txHash=0) : writeNotarizationData d=
    toBytes d.blockHash++(toBytes d.height++(d.symbol.1++0::(toBytes d.MoM++
      (toBytes d.MoMDepth++toBytes d.ccId)))) := by
  have hnull : d.txHash.isNull=true := (Uint256.isNull_iff d.txHash).mpr h
  simp [writeNotarizationData,hnull]

theorem length_write (d : NotarizationData) : (writeNotarizationData d).length+
    (if d.txHash=0 then 68 else 0)=141+d.symbol.1.length := by
  split_ifs with h
  · rw [write_unnamed h]
    simp
    omega
  · rw [write_named h]
    simp
    omega

theorem reads_unnamed (htxHash : d.txHash=0) (hMoMoM : d.MoMoM=0) (hdepth : d.MoMoMDepth=0) :
    Reads (readFields false) (writeNotarizationData d) d := by
  obtain ⟨blockHash,height,txHash,symbol,MoM,MoMDepth,ccId,MoMoM,MoMoMDepth⟩ := d
  obtain rfl : txHash=0 := htxHash
  obtain rfl : MoMoM=0 := hMoMoM
  obtain rfl : MoMoMDepth=0 := hdepth
  have hwrite : writeNotarizationData ⟨blockHash,height,0,symbol,MoM,MoMDepth,ccId,0,0⟩=
      toBytes blockHash++(toBytes height++([]++((symbol.1++[0])++(toBytes MoM++
        (toBytes MoMDepth++toBytes ccId))))) := by
    rw [write_unnamed rfl]
    simp
  rw [hwrite]
  apply (Reads.word (by decide) blockHash).bind
  apply (Reads.word (by decide) height).bind
  apply (Reads.pure (0 : Uint256)).bind
  apply (reads_symbol symbol).bind
  apply reads_of_nonempty (toBytes_append_ne (by decide) MoM _)
  apply (Reads.word (by decide) MoM).bind
  apply (Reads.word (by decide) MoMDepth).bind
  exact (Reads.word (by decide) ccId).map _

/-- The op_return a record was read from. -/
theorem exists_of_parsed {tx : CTransaction} (h : parseOpReturn smart tx=some (some d)) :
    ∃vdata isBack,detectBackNotarization smart vdata=some isBack ∧
      readFields isBack vdata=some (d,[]) := by
  unfold parseOpReturn at h
  split at h
  · cases h
  · rename_i vdata _
    split at h
    · cases h
    · rename_i isBack hdetect
      refine ⟨vdata,isBack,hdetect,?_⟩
      have hread := Option.some.inj h
      unfold unmarshal at hread
      split at hread
      · rename_i heq
        obtain rfl := Option.some.inj hread
        exact heq
      · cases hread

/-- The name of a back notarization, and whether it is one of the two. -/
theorem detect_back {tail : List Byte} (hlen : 72≤bs.length)
    (hbytes : bs=toBytes d.blockHash++(toBytes d.height++(toBytes d.txHash++(d.symbol.1++0::tail)))) :
    detectBackNotarization false bs=
      some (decide (d.symbol.1=symbolBtc ∨ d.symbol.1=symbolHush)) := by
  have hsplit : bs=(toBytes d.blockHash++(toBytes d.height++toBytes d.txHash))++
      (d.symbol.1++0::tail) := by
    rw [hbytes,List.append_assoc,List.append_assoc]
  exact detect_named hlen hsplit (by simp) d.symbol.2.2

theorem symbol_ne_nil (h : d.symbol.1=symbolBtc ∨ d.symbol.1=symbolHush) :
    0<d.symbol.1.length := by
  rcases h with h | h
  · rw [h]
    decide
  · rw [h]
    decide

/-- Zeros are no part of the name. -/
theorem not_endsInName_of_zeros {before : List Byte} (hbefore : before.length=36) (k : Nat) :
    ¬EndsInName (before++List.replicate (33+k) 0) := by
  rintro ⟨hlong,-,hstarts⟩
  have hdrop : (before++List.replicate (33+k) (0 : Byte)).drop 68=0::List.replicate k 0 := by
    rw [← List.drop_drop (i := 32) (j := 36),List.drop_left' hbefore,List.drop_replicate]
    have hcount : 33+k-32=k+1 := by omega
    rw [hcount,List.replicate_succ]
  rw [hdrop] at hstarts
  obtain ⟨t,ht⟩ := hstarts
  exact absurd (List.cons.inj ht).1 (by decide)

/-- A record that was read without a look beyond the end is looked at in the same way when it
is written. -/
theorem detect_of_parsed {tx : CTransaction} (h : parseOpReturn smart tx=some (some d)) :
    ∃b,detectBackNotarization smart (writeNotarizationData d)=some b ∧ (d.txHash≠0 → b=true) := by
  obtain ⟨vdata,isBack,hdetect,hread⟩ := exists_of_parsed h
  have hlength := length_write d
  cases smart with
  | true => exact ⟨true,rfl,fun _ => rfl⟩
  | false =>
    obtain ⟨htxHash,tail,htail,hbytes⟩ := readFields_layout hread
    have hinside : d.txHash=0 → ¬EndsInName (writeNotarizationData d) →
        ∃b,detectBackNotarization false (writeNotarizationData d)=some b ∧
          (d.txHash≠0 → b=true) := by
      intro hzero hends
      rcases hwritten : detectBackNotarization false (writeNotarizationData d) with _ | b
      · exact absurd (detect_eq_none.mp hwritten).2 hends
      · exact ⟨b,rfl,fun hne => absurd hzero hne⟩
    cases isBack with
    | true =>
      have hlong : 72≤vdata.length := by
        by_contra hshort
        rw [detectBackNotarization,if_neg (by decide),if_neg hshort] at hdetect
        cases hdetect
      have hnamed : d.symbol.1=symbolBtc ∨ d.symbol.1=symbolHush := by
        rw [detect_back hlong hbytes] at hdetect
        exact of_decide_eq_true (Option.some.inj hdetect)
      have hpos := symbol_ne_nil hnamed
      by_cases hzero : d.txHash=0
      · refine hinside hzero fun hends => ?_
        rw [if_pos hzero] at hlength
        have hshort := hends.2.1
        omega
      · rw [if_neg hzero] at hlength
        refine ⟨true,?_,fun _ => rfl⟩
        rw [detect_back (by omega) (write_named hzero),decide_eq_true hnamed]
    | false =>
      have hzero := htxHash rfl
      refine hinside hzero fun hends => ?_
      rw [if_pos hzero] at hlength
      have hshort := hends.2.1
      have hsymbol : d.symbol.1=[] := List.eq_nil_of_length_eq_zero (by omega)
      have hwrite := write_unnamed hzero
      rw [hsymbol] at hwrite hbytes
      generalize htail' : ([] : List Byte)=rest at htail
      cases htail with
      | bare hMoM hdepth hccId =>
        have hzeros : writeNotarizationData d=
            (toBytes d.blockHash++toBytes d.height)++List.replicate (33+4) 0 := by
          rw [hwrite,hMoM,hdepth,hccId,List.append_assoc]
          rfl
        rw [hzeros] at hends
        exact not_endsInName_of_zeros (by simp) 4 hends
      | single =>
        subst htail'
        have hsame : vdata=writeNotarizationData d := by
          rw [hbytes,hwrite,List.append_nil]
          rfl
        have hnone := detect_eq_none.mpr ⟨rfl,hends⟩
        rw [← hsame,hdetect] at hnone
        cases hnone
      | double _ hback => cases hback

/-- Stable records come back, whatever follows. -/
theorem reads_record {tx : CTransaction} (h : parseOpReturn smart tx=some (some d))
    (hstable : Stable smart d) : Reads (readRecord smart) (writeNotarizationData d) d := by
  intro rest
  obtain ⟨b,hdetect,hnamed⟩ := detect_of_parsed h
  have hlength := length_write d
  have hlong : 72≤(writeNotarizationData d).length := by
    split_ifs at hlength <;> omega
  unfold readRecord
  rw [detect_append hlong hdetect rest]
  by_cases hzero : d.txHash=0
  · obtain hne | ⟨rfl,hMoMoM,hdepth,hfalse⟩ := hstable
    · exact absurd hzero hne
    · obtain rfl : b=false := Option.some.inj (hdetect.symm.trans hfalse)
      exact reads_unnamed hzero hMoMoM hdepth rest
  · obtain rfl := hnamed hzero
    exact reads_notarizationData (isNull_eq_false_iff.mpr hzero) rest

/-- On a chain without a symbol only stable records come back. -/
theorem stable_of_read {tx : CTransaction} (h : parseOpReturn false tx=some (some d))
    (hread : readRecord false (writeNotarizationData d++rest)=some (d,rest')) :
    Stable false d := by
  by_cases hzero : d.txHash=0
  · obtain ⟨b,hdetect,-⟩ := detect_of_parsed h
    have hlength := length_write d
    rw [if_pos hzero] at hlength
    unfold readRecord at hread
    rw [detect_append (by omega) hdetect rest] at hread
    obtain ⟨-,tail,htail,hbytes⟩ := readFields_layout hread
    cases b with
    | false =>
      cases htail with
      | bare _ _ _ hMoMoM hdepth => exact .inr ⟨rfl,hMoMoM,hdepth,hdetect⟩
      | single _ _ hMoMoM hdepth => exact .inr ⟨rfl,hMoMoM,hdepth,hdetect⟩
      | double _ hback => cases hback
    | true =>
      have hback := detect_append (by omega) hdetect rest
      rw [detect_back (by rw [List.length_append]; omega) hbytes] at hback
      have hnamed := of_decide_eq_true (Option.some.inj hback)
      rw [write_unnamed hzero,if_pos rfl,hzero,List.append_assoc,List.append_assoc] at hbytes
      have hsame := List.append_cancel_left (List.append_cancel_left hbytes)
      have hfirst : (d.symbol.1).head?=some 0 := by
        have hhead := congrArg List.head? hsame
        rw [List.append_assoc,List.head?_append_of_ne_nil _
          (List.ne_nil_of_length_pos (symbol_ne_nil hnamed))] at hhead
        rw [hhead]
        rfl
      rcases hnamed with hname | hname
      · rw [hname] at hfirst
        exact absurd hfirst (by decide)
      · rw [hname] at hfirst
        exact absurd hfirst (by decide)
  · exact .inl hzero

end Records

section Lists

variable {smart : Bool} {ns : NotarizationsInBlock} {bs rest rest' : List Byte}

/-- The record behind its transaction id. -/
theorem readNamedRecord_eq_some {n : Notarization}
    (h : readNamedRecord smart (toBytes n.1++bs)=some (n,rest)) :
    readRecord smart bs=some (n.2,rest) := by
  have hrun := (Reads.word (by decide) n.1).run_bind (f := fun hash => do
    let data ← readRecord smart
    return (hash,data)) bs
  obtain ⟨data,_,hdata,hpure⟩ := Reader.bind_eq_some (hrun.symm.trans h)
  obtain ⟨heq,rfl⟩ := Prod.mk.inj (Option.some.inj hpure)
  have hsnd : data=n.2 := congrArg Prod.snd heq
  rw [← hsnd]
  exact hdata

theorem items_cons {n : Notarization}
    (h : Reader.items (readNamedRecord smart) (ns.length+1) bs=some (n::ns,rest)) :
    ∃bs',readNamedRecord smart bs=some (n,bs') ∧
      Reader.items (readNamedRecord smart) ns.length bs'=some (ns,rest) := by
  obtain ⟨m,bs₁,hm,h⟩ := Reader.bind_eq_some h
  obtain ⟨ms,bs₂,hms,h⟩ := Reader.bind_eq_some h
  obtain ⟨heq,rfl⟩ := Prod.mk.inj (Option.some.inj h)
  obtain ⟨rfl,rfl⟩ := List.cons.inj heq
  exact ⟨bs₁,hm,hms⟩

/-- On a chain without a symbol only lists of stable records come back. -/
theorem stable_of_items (hparsed : ∀n∈ns,∃tx,parseOpReturn false tx=some (some n.2))
    (h : Reader.items (readNamedRecord false) ns.length (ns.flatMap writeNotarization++rest)=
      some (ns,rest')) : ∀n∈ns,Stable false n.2 := by
  induction ns generalizing rest with
  | nil => simp
  | cons n ns ih =>
    obtain ⟨tx,htx⟩ := hparsed n List.mem_cons_self
    obtain ⟨bs,hn,hns⟩ := items_cons h
    rw [List.flatMap_cons,List.append_assoc,writeNotarization,List.append_assoc] at hn
    have hread := readNamedRecord_eq_some hn
    have hstable := stable_of_read htx hread
    rw [reads_record htx hstable] at hread
    obtain ⟨-,rfl⟩ := Prod.mk.inj (Option.some.inj hread)
    have hrest := ih (fun m hm => hparsed m (List.mem_cons_of_mem n hm)) hns
    exact List.forall_mem_cons.mpr ⟨hstable,hrest⟩

/-- What is missing from a full back notarization: only at the end of the stream, and then
one tree or both. -/
def Gap (gap : Nat) (rest : List Byte) : Prop := gap=0 ∨ (rest=[] ∧ (gap=36 ∨ gap=72))

theorem readNamedRecord_length {n : Notarization}
    (h : readNamedRecord true bs=some (n,rest)) :
    ∃gap,Gap gap rest ∧ bs.length+gap=rest.length+(173+n.2.symbol.1.length) := by
  obtain ⟨hash,bs₁,hhash,h⟩ := Reader.bind_eq_some h
  obtain ⟨data,bs₂,hdata,h⟩ := Reader.bind_eq_some h
  obtain ⟨rfl,rfl⟩ := Prod.mk.inj (Option.some.inj h)
  obtain ⟨-,tail,htail,hbytes⟩ := readFields_layout hdata
  have hlen := congrArg List.length hbytes
  rw [word_eq_some (by decide) hhash,List.length_append,hlen]
  cases htail with
  | bare =>
    refine ⟨72,.inr ⟨rfl,.inr rfl⟩,?_⟩
    simp
    omega
  | single _ hrest =>
    obtain rfl := hrest rfl
    refine ⟨36,.inr ⟨rfl,.inl rfl⟩,?_⟩
    simp
    omega
  | double =>
    refine ⟨0,.inl rfl,?_⟩
    simp
    omega

/-- The bytes of full back notarizations. -/
def fullSize (ns : NotarizationsInBlock) : Nat := (ns.map fun n => 173+n.2.symbol.1.length).sum

theorem items_length (h : Reader.items (readNamedRecord true) ns.length bs=some (ns,rest)) :
    ∃gap,Gap gap rest ∧ bs.length+gap=rest.length+fullSize ns := by
  induction ns generalizing bs with
  | nil =>
    obtain ⟨-,rfl⟩ := Prod.mk.inj (Option.some.inj h)
    exact ⟨0,.inl rfl,rfl⟩
  | cons n ns ih =>
    obtain ⟨bs',hn,hns⟩ := items_cons h
    obtain ⟨gap,hgap,hlen⟩ := readNamedRecord_length hn
    obtain ⟨gap',hgap',hlen'⟩ := ih hns
    have hsize : fullSize (n::ns)=173+n.2.symbol.1.length+fullSize ns := by
      simp [fullSize]
    rcases hgap with rfl | ⟨rfl,hgap⟩
    · exact ⟨gap',hgap',by omega⟩
    · -- nothing is left for another record
      have hlast : ns=[] := by
        cases ns with
        | nil => rfl
        | cons m ns =>
          obtain ⟨_,hm,-⟩ := items_cons hns
          cases hm
      subst hlast
      obtain ⟨-,rfl⟩ := Prod.mk.inj (Option.some.inj hns)
      exact ⟨gap,.inr ⟨rfl,hgap⟩,by rw [hsize]; simpa [fullSize] using hlen⟩

theorem length_writeNotarizations (ns : NotarizationsInBlock) :
    (ns.flatMap writeNotarization).length+68*ns.countP (fun n => decide (n.2.txHash=0))=
      fullSize ns := by
  induction ns with
  | nil => rfl
  | cons n ns ih =>
    have hlen := length_write n.2
    have hsize : fullSize (n::ns)=173+n.2.symbol.1.length+fullSize ns := by
      simp [fullSize]
    rw [List.flatMap_cons,List.length_append,writeNotarization,List.length_append,
      List.countP_cons,hsize]
    simp only [length_toBytes]
    split_ifs at hlen with hzero
    · rw [if_pos (decide_eq_true hzero)]
      omega
    · rw [if_neg (by simpa using hzero)]
      omega

/-- On a chain with a symbol every record that does not name a transaction makes the list
too short to come back. -/
theorem named_of_items (h : Reader.items (readNamedRecord true) ns.length
    (ns.flatMap writeNotarization)=some (ns,rest)) : ∀n∈ns,n.2.txHash≠0 := by
  obtain ⟨gap,hgap,hlen⟩ := items_length h
  have hwritten := length_writeNotarizations ns
  have hcount : ns.countP (fun n => decide (n.2.txHash=0))=0 := by
    rcases hgap with rfl | ⟨rfl,rfl | rfl⟩
    · omega
    · rw [List.length_nil] at hlen
      omega
    · rw [List.length_nil] at hlen
      omega
  intro n hn hzero
  exact List.countP_eq_zero.mp hcount n hn (decide_eq_true hzero)

end Lists

section Storage

/-- On a chain with a symbol these are the readers of back notarizations. -/
theorem readNamedRecord_true : readNamedRecord true=readNotarization := rfl

theorem parseOpReturn_true (tx : CTransaction) :
    parseOpReturn true tx=some (parseNotarizationOpReturn tx) := by
  unfold parseOpReturn opReturnBytes parseNotarizationOpReturn
  rcases tx.vout[1]? with _ | out
  · rfl
  · dsimp only
    rcases getOpReturnData out.scriptPubKey with _ | vdata
    · rfl
    · rfl

theorem parseOpReturn_isSome (smart : Bool) (tx : CTransaction) :
    (parseOpReturn smart tx).isSome=true ↔
      smart=true ∨ ∀vdata,opReturnBytes tx=some vdata → ¬EndsInName vdata := by
  unfold parseOpReturn
  rcases hbytes : opReturnBytes tx with _ | vdata
  · simp
  · dsimp only
    rcases hdetect : detectBackNotarization smart vdata with _ | isBack
    · obtain ⟨rfl,hends⟩ := detect_eq_none.mp hdetect
      simp [hends]
    · have hnot : ¬(smart=false ∧ EndsInName vdata) := by
        rw [← detect_eq_none,hdetect]
        simp
      cases smart with
      | true => simp
      | false => simpa using hnot

/-- Exactly the records that are stable survive on the chain that wrote them, and exactly the
op_returns that end inside the name are read beyond their end. -/
theorem notarizations_survive_iff (smart : Bool) :
    (∀tx,(parseOpReturn smart tx).isSome=true ↔
      smart=true ∨ ∀vdata,opReturnBytes tx=some vdata → ¬EndsInName vdata) ∧
    ∀(db : Db) (blockHash : Uint256) (ns : NotarizationsInBlock),
      (∀n∈ns,∃tx,parseOpReturn smart tx=some (some n.2)) →
        (readBlockNotarizations smart (writeBlockNotarizations db blockHash ns) blockHash=some ns ↔
          ns.length≤MAX_SIZE ∧ ∀n∈ns,Stable smart n.2) := by
  refine ⟨parseOpReturn_isSome smart,fun db blockHash ns hparsed => ?_⟩
  have hstored : writeBlockNotarizations db blockHash ns blockHash=
      some (writeVector writeNotarization ns) := by
    simp [writeBlockNotarizations]
  constructor
  · intro hread
    unfold readBlockNotarizations Db.read at hread
    rw [hstored] at hread
    obtain ⟨⟨ms,rest⟩,hvector,rfl⟩ := Option.map_eq_some_iff.mp hread
    have hsize := readVector_sized hvector
    have hitems := ((reads_compactSize hsize).run_bind
      (f := fun nSize => Reader.items (readNamedRecord smart) nSize) _).symm.trans hvector
    refine ⟨hsize,?_⟩
    cases smart with
    | true => exact fun n hn => .inl (named_of_items hitems n hn)
    | false =>
      rw [← List.append_nil (ms.flatMap writeNotarization)] at hitems
      exact stable_of_items hparsed hitems
  · rintro ⟨hsize,hstable⟩
    refine read_of_reads hstored (reads_vector hsize fun n hn => ?_)
    obtain ⟨tx,htx⟩ := hparsed n hn
    exact (Reads.word (by decide) n.1).bind ((reads_record htx (hstable n hn)).map _)

/-- A transaction with one op_return. -/
def notarizationTx (vdata : List UInt8) : CTransaction where
  hash := 2
  fOverwintered := false
  nVersion := 1
  nVersionGroupId := 0
  vin := []
  vout := [⟨0,[]⟩,⟨0,0x6a::UInt8.ofNat vdata.length::vdata⟩]
  nExpiryHeight := 0
  valueBalance := 0
  vShieldedSpend := []
  vShieldedOutput := []
  vjoinsplit := []

/-- A notarization of chain `Z` by the transaction `txHash`. -/
def notarizationOfZ (txHash : UInt8) : List UInt8 :=
  List.replicate 36 0++(txHash::List.replicate 31 0)++[0x5A,0]

def recordOfZ (txHash : Uint256) : NotarizationData :=
  ⟨0,0,txHash,⟨[0x5A],by decide⟩,0,0,0,0,0⟩

theorem named_record_survives :
    readBlockNotarizations true (writeBlockNotarizations (fun _ => none) 1 [(2,recordOfZ 7)]) 1=
      some [(2,recordOfZ 7)] := by
  obtain ⟨-,hsurvives⟩ := notarizations_survive_iff true
  refine (hsurvives _ 1 [(2,recordOfZ 7)] ?_).mpr ⟨by decide,?_⟩
  · intro n hn
    obtain rfl := List.mem_singleton.mp hn
    exact ⟨notarizationTx (notarizationOfZ 7),by decide +kernel⟩
  · intro n hn
    obtain rfl := List.mem_singleton.mp hn
    exact .inl (by decide)

/-- A record without a transaction is lost, and on a chain without a symbol an op_return that
ends inside the name is read beyond its end. -/
theorem null_record_lost :
    parseOpReturn true (notarizationTx (notarizationOfZ 0))=some (some (recordOfZ 0)) ∧
      readBlockNotarizations true (writeBlockNotarizations (fun _ => none) 1 [(2,recordOfZ 0)]) 1=
        none ∧
      parseOpReturn false (notarizationTx (List.replicate 68 0++[0x48,0x55,0x53,0x48]))=none := by
  decide +kernel

end Storage

end Zdeex.NotarizationDb
