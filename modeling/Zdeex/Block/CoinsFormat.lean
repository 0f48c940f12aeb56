import Zdeex.Block.UndoBlock

namespace Zdeex.Coins

open Zdeex.Framework
open Zdeex.Block

def HUSH_MAXNVALUE : Int := 2^63-1

namespace CCoins

/-- Whether any of the outputs of a byte of the bitmask is available. -/
def usedByte (c : CCoins) (b : Nat) : Bool := (List.range 8).any fun i => c.isAvailable (2+b*8+i)

/-- The number of bytes of the bitmask, and how many of them are not zero. -/
def calcMaskSize (c : CCoins) : Nat × Nat :=
  (List.range ((c.vout.length+5)/8)).foldl
    (fun (nBytes,nNonzeroBytes) b =>
      if c.usedByte b then (b+1,nNonzeroBytes+1) else (nBytes,nNonzeroBytes)) (0,0)

def chAvail (c : CCoins) (b : Nat) : Byte :=
  (List.range 8).foldl
    (fun chAvail i => if c.isAvailable (2+b*8+i) then chAvail ||| 1#8 <<< i else chAvail) 0#8

/-- The header code: non-zero bytes of the bitmask and three flags. -/
def headerCode (c : CCoins) (nMaskCode : Nat) : Nat :=
  (8*(nMaskCode-(if c.isAvailable 0 || c.isAvailable 1 then 0 else 1))+
    (if c.fCoinBase then 1 else 0)+(if c.isAvailable 0 then 2 else 0)+
    (if c.isAvailable 1 then 4 else 0))%2^32

/-- `none` is the failed assertion of a record without unspent outputs. -/
def serialize (K : PubKeys) (c : CCoins) : Option (List Byte) :=
  let nMaskSize := c.calcMaskSize.1
  let nMaskCode := c.calcMaskSize.2
  if c.isAvailable 0 || c.isAvailable 1 || nMaskCode≠0 then
    some (writeVarInt 32 c.nVersion++(writeVarInt 32 (c.headerCode nMaskCode : Nat)++
      ((List.range nMaskSize).map c.chAvail++
        ((c.vout.filter fun o => !o.isNull).flatMap (writeTxOut K)++writeVarInt 32 c.nHeight))))
  else none

def bitsOf (chAvail : Byte) : List Bool := (List.range 8).map chAvail.getLsbD

/-- Bytes of the bitmask until so many of them were not zero. -/
def readMask : Nat → Reader (List Bool)
  | 0,bs => some ([],bs)
  | _+1,[] => none
  | nMaskCode+1,chAvail::bs =>
      (readMask (if chAvail=0#8 then nMaskCode+1 else nMaskCode) bs).map fun (vAvail,rest) =>
        (bitsOf chAvail++vAvail,rest)

/-- An output that is not available stays null. -/
def readOut (K : PubKeys) (avail : Bool) : Reader CTxOut :=
  if avail then readTxOut K else pure CTxOut.setNull

def readOuts (K : PubKeys) : List Bool → Reader (List CTxOut)
  | [] => pure []
  | avail::vAvail => do
      let txout ← readOut K avail
      let vout ← readOuts K vAvail
      return txout::vout

def unserialize (K : PubKeys) : Reader CCoins := do
  let nVersion ← readVarInt 32
  let nCode ← readVarInt 32
  let mask ← readMask (nCode/8+if nCode/2%4≠0 then 0 else 1)
  let vout ← readOuts K ((nCode/2%2==1)::(nCode/4%2==1)::mask)
  let nHeight ← readVarInt 32
  return cleanup ⟨nCode%2==1,vout,(nHeight : Int).bmod (2^32),(nVersion : Int).bmod (2^32)⟩

section Mask

variable (c : CCoins)

private theorem bitsOf_eight : ∀a₀ a₁ a₂ a₃ a₄ a₅ a₆ a₇ : Bool,
    bitsOf ([(a₀,0),(a₁,1),(a₂,2),(a₃,3),(a₄,4),(a₅,5),(a₆,6),(a₇,7)].foldl
      (fun chAvail p => if p.1 then chAvail ||| 1#8 <<< p.2 else chAvail) 0#8)=
        [a₀,a₁,a₂,a₃,a₄,a₅,a₆,a₇] := by
  decide +kernel

theorem bitsOf_chAvail (b : Nat) :
    bitsOf (c.chAvail b)=(List.range 8).map fun i => c.isAvailable (2+b*8+i) :=
  bitsOf_eight ..

theorem chAvail_ne_zero (b : Nat) : c.chAvail b≠0#8 ↔ c.usedByte b=true := by
  have hbits := c.bitsOf_chAvail b
  have hzero : ∀ch : Byte,ch≠0#8 ↔ (bitsOf ch).any id=true := by decide +kernel
  rw [hzero,hbits,usedByte,List.any_map]
  rfl

/-- The loop over the bytes: it counts the used ones and stops after the last of them. -/
private theorem maskLoop_spec (k : Nat) :
    let p := (List.range k).foldl
      (fun (nBytes,nNonzeroBytes) b =>
        if c.usedByte b then (b+1,nNonzeroBytes+1) else (nBytes,nNonzeroBytes)) (0,0)
    p.2=(List.range p.1).countP c.usedByte ∧ (∀n,p.1=n+1 → c.usedByte n=true) ∧
      p.1≤k ∧ ∀b<k,c.usedByte b=true → b<p.1 := by
  induction k with
  | zero => simp
  | succ k ih =>
    rw [List.range_succ,List.foldl_append,List.foldl_cons,List.foldl_nil]
    revert ih
    generalize (List.range k).foldl (fun (p : Nat × Nat) b =>
      if c.usedByte b then (b+1,p.2+1) else (p.1,p.2)) (0,0)=p
    rintro ⟨hcount,hlast,hle,hused⟩
    by_cases hk : c.usedByte k=true
    · simp only [hk,if_true]
      refine ⟨?_,?_,le_rfl,fun b hb _ => hb⟩
      · have hrest : (List.range k).countP c.usedByte=(List.range p.1).countP c.usedByte := by
          have hsplit : List.range k=List.range p.1++(List.range (k-p.1)).map (p.1+·) := by
            rw [← List.range_add,Nat.add_sub_cancel' hle]
          rw [hsplit,List.countP_append,Nat.add_eq_left,List.countP_eq_zero]
          intro b hb hb'
          obtain ⟨j,hj,rfl⟩ := List.mem_map.mp hb
          have hlt := hused (p.1+j) (by rw [List.mem_range] at hj; omega) hb'
          omega
        rw [List.range_succ,List.countP_append,hrest,hcount,List.countP_singleton,if_pos hk]
      · intro n hn
        obtain rfl : n=k := by omega
        exact hk
    · simp only [hk]
      refine ⟨hcount,hlast,Nat.le_succ_of_le hle,fun b hb hb' => ?_⟩
      rcases Nat.lt_succ_iff_lt_or_eq.mp hb with hlt | rfl
      · exact hused b hlt hb'
      · exact absurd hb' hk

theorem calcMaskSize_spec :
    c.calcMaskSize.2=(List.range c.calcMaskSize.1).countP c.usedByte ∧
      (∀n,c.calcMaskSize.1=n+1 → c.usedByte n=true) ∧
      c.calcMaskSize.1≤(c.vout.length+5)/8 ∧
      ∀b<(c.vout.length+5)/8,c.usedByte b=true → b<c.calcMaskSize.1 :=
  maskLoop_spec c ((c.vout.length+5)/8)

theorem reads_mask (ms : List Byte) (hlast : ∀m∈ms.getLast?,m≠0#8) :
    Reads (readMask (ms.countP fun m => decide (m≠0#8))) ms (ms.flatMap bitsOf) := by
  induction ms with
  | nil =>
    intro rest
    simp [readMask]
  | cons m ms ih =>
    have hlast' : ∀m'∈ms.getLast?,m'≠0#8 := by
      intro m' hm'
      apply hlast m'
      cases ms with
      | nil => cases hm'
      | cons => rwa [List.getLast?_cons_cons]
    intro rest
    have hread := ih hlast' rest
    rw [List.countP_cons]
    by_cases hm : m=0#8
    · obtain ⟨k,hk⟩ : ∃k,ms.countP (fun m => decide (m≠0#8))=k+1 := by
        apply Nat.exists_eq_succ_of_ne_zero
        intro hzero
        cases hms : ms.getLast? with
        | none =>
          rw [List.getLast?_eq_none_iff.mp hms] at hlast
          exact hlast m rfl hm
        | some m' =>
          have hno := List.countP_eq_zero.mp hzero m' (List.mem_of_getLast? hms)
          exact hno (decide_eq_true (hlast' m' hms))
      rw [hk] at hread ⊢
      have hzero : decide (m≠0#8)=false := decide_eq_false (not_not_intro hm)
      rw [hzero]
      simp only [Bool.false_eq_true,if_false,Nat.add_zero,List.cons_append,readMask,hm,if_true,
        hread,Option.map_some,List.flatMap_cons]
    · have hone : decide (m≠0#8)=true := decide_eq_true hm
      rw [hone]
      simp only [if_true,List.cons_append,readMask,if_neg hm,hread,Option.map_some,
        List.flatMap_cons]

/-- The two flags and the bitmask list the outputs in order. -/
theorem avail_range (n : Nat) :
    c.isAvailable 0::c.isAvailable 1::((List.range n).map c.chAvail).flatMap bitsOf=
      (List.range (2+n*8)).map c.isAvailable := by
  induction n with
  | zero => rfl
  | succ n ih =>
    have hsplit : List.range (2+(n+1)*8)=List.range (2+n*8)++(List.range 8).map (2+n*8+·) := by
      rw [← List.range_add,Nat.succ_mul,Nat.add_assoc]
    rw [hsplit,List.map_append,← ih,List.range_succ,List.map_append,List.flatMap_append,
      List.map_map]
    simp only [List.map_cons,List.map_nil,List.flatMap_cons,List.flatMap_nil,List.append_nil,
      bitsOf_chAvail,List.cons_append]
    rfl

end Mask

section Outputs

variable (K : PubKeys) (c : CCoins)

def returned (o : CTxOut) : CTxOut := if o.isNull then CTxOut.setNull else storedTxOut o

theorem reads_outs (w : List CTxOut) (hw : ∀o∈w,o.scriptPubKey.length+6<2^32) :
    Reads (readOuts K (w.map fun o => !o.isNull))
      ((w.filter fun o => !o.isNull).flatMap (writeTxOut K)) (w.map returned) := by
  induction w with
  | nil => exact Reads.pure []
  | cons o w ih =>
    have htail := (ih fun p hp => hw p (List.mem_cons_of_mem o hp)).map fun vout =>
      returned o::vout
    cases ho : o.isNull with
    | true =>
      have hfirst : Reads (readOut K (!o.isNull)) [] (returned o) := by
        rw [readOut,returned,ho]
        exact Reads.pure CTxOut.setNull
      rw [List.filter_cons_of_neg (by simp [ho])]
      exact hfirst.bind htail
    | false =>
      have hfirst : Reads (readOut K (!o.isNull)) (writeTxOut K o) (returned o) := by
        rw [readOut,returned,ho]
        exact reads_storedTxOut K (hw o List.mem_cons_self)
      rw [List.filter_cons_of_pos (by simp [ho])]
      exact hfirst.bind htail

/-- The outputs and the positions of the bitmask after them. -/
def padded (N : Nat) : List CTxOut := c.vout++List.replicate (N-c.vout.length) CTxOut.setNull

theorem isAvailable_map_range {N : Nat} (hN : c.vout.length≤N) :
    (List.range N).map c.isAvailable=(c.padded N).map fun o => !o.isNull := by
  apply List.ext_getElem?
  intro i
  rw [List.getElem?_map,List.getElem?_map,padded]
  by_cases hi : i<c.vout.length
  · rw [List.getElem?_range (by omega),List.getElem?_append_left hi,
      List.getElem?_eq_getElem hi,Option.map_some,Option.map_some,isAvailable,
      List.getElem?_eq_getElem hi]
  · have hout : c.isAvailable i=false := by
      rw [isAvailable,List.getElem?_eq_none (by omega)]
    rw [List.getElem?_append_right (by omega),List.getElem?_replicate]
    by_cases hN' : i<N
    · rw [List.getElem?_range hN',if_pos (by omega),Option.map_some,hout]
      rfl
    · rw [List.getElem?_eq_none (by simpa using hN'),if_neg (by omega)]
      rfl

theorem filter_padded (N : Nat) :
    (c.padded N).filter (fun o => !o.isNull)=c.vout.filter fun o => !o.isNull := by
  have hnull : (List.replicate (N-c.vout.length) CTxOut.setNull).filter (fun o => !o.isNull)=[] :=
    List.filter_eq_nil_iff.mpr fun o ho => by simp [List.eq_of_mem_replicate ho,CTxOut.isNull,
      CTxOut.setNull]
  rw [padded,List.filter_append,hnull,List.append_nil]

/-- A record without spent outputs at its end ends within the bitmask. -/
theorem length_le_mask (hclean : c.cleanup=c) : c.vout.length≤2+c.calcMaskSize.1*8 := by
  obtain ⟨-,-,-,hused⟩ := c.calcMaskSize_spec
  by_contra hlong
  have hlast : c.isAvailable (c.vout.length-1)=true := by
    have hdrop : c.vout.rdropWhile CTxOut.isNull=c.vout := congrArg CCoins.vout hclean
    have hne : c.vout≠[] := by
      intro hnil
      simp [hnil] at hlong
    have hget := (List.rdropWhile_eq_self_iff.mp hdrop) hne
    rw [isAvailable,List.getElem?_eq_getElem (by omega),← List.getLast_eq_getElem hne]
    simpa using hget
  have hbyte : c.usedByte ((c.vout.length-3)/8)=true := by
    rw [usedByte,List.any_eq_true]
    refine ⟨(c.vout.length-3)%8,List.mem_range.mpr (by omega),?_⟩
    have hpos : 2+(c.vout.length-3)/8*8+(c.vout.length-3)%8=c.vout.length-1 := by omega
    rwa [hpos]
  have hlt := hused _ (by omega) hbyte
  omega

end Outputs

section Record

variable (K : PubKeys) (c : CCoins)

/-- Whether the assertion of `Serialize` holds. -/
theorem isPruned_eq_false_iff :
    c.isPruned=false ↔ (c.isAvailable 0 || c.isAvailable 1 || c.calcMaskSize.2≠0)=true := by
  obtain ⟨hcount,hlast,-,hused⟩ := c.calcMaskSize_spec
  have hpruned : c.isPruned=false ↔ ∃i,c.isAvailable i=true := by
    rw [isPruned,List.all_eq_false]
    constructor
    · rintro ⟨o,ho,hnull⟩
      obtain ⟨i,hi⟩ := List.mem_iff_getElem?.mp ho
      exact ⟨i,by rw [isAvailable,hi]; simpa using hnull⟩
    · rintro ⟨i,hi⟩
      rw [isAvailable] at hi
      cases ho : c.vout[i]? with
      | none => simp [ho] at hi
      | some o =>
        rw [ho] at hi
        exact ⟨o,List.mem_of_getElem? ho,by simpa using hi⟩
  rw [hpruned]
  simp only [Bool.or_eq_true,decide_eq_true_eq]
  constructor
  · rintro ⟨i,hi⟩
    by_cases h0 : i=0
    · exact .inl (.inl (h0 ▸ hi))
    by_cases h1 : i=1
    · exact .inl (.inr (h1 ▸ hi))
    right
    have hlen : i<c.vout.length := by
      by_contra hno
      rw [isAvailable,List.getElem?_eq_none (by omega)] at hi
      cases hi
    have hbyte : c.usedByte ((i-2)/8)=true := by
      rw [usedByte,List.any_eq_true]
      refine ⟨(i-2)%8,List.mem_range.mpr (by omega),?_⟩
      have hpos : 2+(i-2)/8*8+(i-2)%8=i := by omega
      rwa [hpos]
    rw [hcount]
    intro hzero
    exact List.countP_eq_zero.mp hzero _ (List.mem_range.mpr (hused _ (by omega) hbyte)) hbyte
  · rintro ((h | h) | h)
    · exact ⟨0,h⟩
    · exact ⟨1,h⟩
    · obtain ⟨n,hn⟩ : ∃n,c.calcMaskSize.1=n+1 := by
        apply Nat.exists_eq_succ_of_ne_zero
        intro hzero
        rw [hcount,hzero] at h
        exact h rfl
      have hbyte := hlast n hn
      rw [usedByte,List.any_eq_true] at hbyte
      obtain ⟨i,-,hi⟩ := hbyte
      exact ⟨_,hi⟩

/-- The flags and the number of bytes come back from the header code. -/
theorem headerCode_spec {nMaskCode : Nat} (hsmall : nMaskCode<2^28)
    (hsome : (c.isAvailable 0 || c.isAvailable 1 || nMaskCode≠0)=true) :
    c.headerCode nMaskCode<2^32 ∧ (c.headerCode nMaskCode%2==1)=c.fCoinBase ∧
      (c.headerCode nMaskCode/2%2==1)=c.isAvailable 0 ∧
      (c.headerCode nMaskCode/4%2==1)=c.isAvailable 1 ∧
      (c.headerCode nMaskCode/8+if c.headerCode nMaskCode/2%4≠0 then 0 else 1)=nMaskCode := by
  unfold headerCode
  generalize c.isAvailable 0=fFirst at hsome ⊢
  generalize c.isAvailable 1=fSecond at hsome ⊢
  cases fFirst <;> cases fSecond <;> cases c.fCoinBase <;> simp at hsome ⊢ <;> split_ifs <;> omega

/-- A value that connecting blocks can produce. -/
structure Produced (c : CCoins) : Prop where
  height : 0 ≤ c.nHeight ∧ c.nHeight<2^30
  version : 0 ≤ c.nVersion ∧ c.nVersion<2^31
  cleaned : c.cleanup=c
  size : c.vout.length≤MAX_SIZE
  spent : ∀o∈c.vout,o.isNull=true → o=CTxOut.setNull
  unspent : ∀o∈c.vout,o.isNull=false → (0≤o.nValue ∧ o.nValue≤HUSH_MAXNVALUE) ∧
    isUnspendable o.scriptPubKey=false

variable {c}

theorem Produced.script (h : c.Produced) : ∀o∈c.vout,o.scriptPubKey.length≤MAX_SCRIPT_SIZE := by
  intro o ho
  cases hnull : o.isNull with
  | true =>
    rw [h.spent o ho hnull]
    exact Nat.zero_le _
  | false =>
    have hspend := (h.unspent o ho hnull).2
    simp only [isUnspendable,Bool.or_eq_false_iff,decide_eq_false_iff_not] at hspend
    omega

/-- What comes back of a record that has unspent outputs. -/
theorem reads_produced (h : c.Produced) (hunspent : c.isPruned=false) :
    ∃bytes,c.serialize K=some bytes ∧ Reads (unserialize K) bytes
      (cleanup ⟨c.fCoinBase,(c.padded (2+c.calcMaskSize.1*8)).map returned,c.nHeight,
        c.nVersion⟩) := by
  obtain ⟨hcount,hlast,hbytes,-⟩ := c.calcMaskSize_spec
  have hsome := c.isPruned_eq_false_iff.mp hunspent
  have hmax : MAX_SIZE=33554432 := rfl
  have hscript : MAX_SCRIPT_SIZE=10000 := rfl
  have hsize := h.size
  have hle : c.calcMaskSize.2 ≤ c.calcMaskSize.1 := by
    have hcountle := List.countP_le_length (p := c.usedByte) (l := List.range c.calcMaskSize.1)
    rwa [← hcount,List.length_range] at hcountle
  obtain ⟨hcode,hbase,hfirst,hsecond,hmask⟩ := c.headerCode_spec (by omega) hsome
  have hversion := reads_varInt (w := 32) (n := c.nVersion.toNat) (by decide)
    (by have := h.version; omega)
  have hheight := reads_varInt (w := 32) (n := c.nHeight.toNat) (by decide)
    (by have := h.height; omega)
  rw [Int.toNat_of_nonneg h.version.1] at hversion
  rw [Int.toNat_of_nonneg h.height.1] at hheight
  have hbits : Reads (readMask c.calcMaskSize.2) ((List.range c.calcMaskSize.1).map c.chAvail)
      (((List.range c.calcMaskSize.1).map c.chAvail).flatMap bitsOf) := by
    have hnonzero : ((List.range c.calcMaskSize.1).map c.chAvail).countP
        (fun m => decide (m≠0#8))=c.calcMaskSize.2 := by
      rw [hcount,List.countP_map]
      congr 1
      funext b
      exact Bool.eq_iff_iff.mpr (decide_eq_true_iff.trans (c.chAvail_ne_zero b))
    rw [← hnonzero]
    apply reads_mask
    intro m hm
    cases hn : c.calcMaskSize.1 with
    | zero => simp [hn] at hm
    | succ n =>
      rw [hn,List.range_succ,List.map_append,List.map_singleton,List.getLast?_concat] at hm
      obtain rfl := Option.some.inj hm
      exact (c.chAvail_ne_zero n).mpr (hlast n hn)
  have houts := reads_outs K (c.padded (2+c.calcMaskSize.1*8)) (by
    intro o ho
    rcases List.mem_append.mp ho with ho | ho
    · have := h.script o ho
      omega
    · rw [List.eq_of_mem_replicate ho]
      decide)
  rw [filter_padded,← c.isAvailable_map_range (c.length_le_mask h.cleaned),← c.avail_range] at houts
  have hbmod : ∀n : Int,0≤n → n<2^31 → ((n.toNat : Int)).bmod (2^32)=n := by
    intro n hn hn'
    rw [Int.toNat_of_nonneg hn]
    exact Int.bmod_eq_of_le (by omega) (by omega)
  refine ⟨_,if_pos hsome,hversion.bind ((reads_varInt (by decide) hcode).bind ?_)⟩
  rw [hmask,hfirst,hsecond,hbase,hbmod c.nVersion h.version.1 h.version.2]
  have hend := hheight.map fun nHeight : Nat => cleanup ⟨c.fCoinBase,
    (c.padded (2+c.calcMaskSize.1*8)).map returned,(nHeight : Int).bmod (2^32),c.nVersion⟩
  rw [hbmod c.nHeight h.height.1 (by have := h.height; omega)] at hend
  exact hbits.bind (houts.bind hend)

theorem returned_eq_iff (h : c.Produced) {o : CTxOut} (ho : o∈c.vout) :
    returned o=o ↔ (o.isNull=false → AmountFits o.nValue.toNat) := by
  unfold returned
  cases hnull : o.isNull with
  | true => simp [h.spent o ho hnull]
  | false =>
    obtain ⟨⟨hnonneg,hle⟩,-⟩ := h.unspent o ho hnull
    have hmax : HUSH_MAXNVALUE=2^63-1 := rfl
    have hmod : o.nValue%2^64=o.nValue := by omega
    have hiff := storedTxOut_eq_iff (o := o) (by omega)
    rw [hmod] at hiff
    rw [if_neg (by decide),hiff]
    simp [h.script o ho]

theorem cleanup_padded (hclean : c.cleanup=c) (N : Nat) :
    cleanup ⟨c.fCoinBase,c.padded N,c.nHeight,c.nVersion⟩=c := by
  have hdrop : ∀k,(c.vout++List.replicate k CTxOut.setNull).rdropWhile CTxOut.isNull=c.vout := by
    intro k
    induction k with
    | zero =>
      rw [List.replicate_zero,List.append_nil]
      exact congrArg CCoins.vout hclean
    | succ k ih =>
      rw [List.replicate_succ',← List.append_assoc,List.rdropWhile_concat,if_pos (by decide),ih]
  unfold cleanup padded
  rw [hdrop]

/-- A record comes back as it was exactly when each of its amounts does. -/
theorem cleanup_returned_iff (h : c.Produced) {N : Nat} :
    cleanup ⟨c.fCoinBase,(c.padded N).map returned,c.nHeight,c.nVersion⟩=c ↔
      ∀o∈c.vout,o.isNull=false → AmountFits o.nValue.toNat := by
  constructor
  · intro heq o ho
    rw [← returned_eq_iff h ho]
    have hvout : ((c.padded N).map returned).rdropWhile CTxOut.isNull=c.vout :=
      congrArg CCoins.vout heq
    obtain ⟨t,ht⟩ := List.rdropWhile_prefix CTxOut.isNull ((c.padded N).map returned)
    obtain ⟨i,hi⟩ := List.mem_iff_getElem?.mp ho
    have hlen : i<c.vout.length := (List.getElem?_eq_some_iff.mp hi).1
    have hsame : (c.vout++t)[i]?=((c.padded N).map returned)[i]? := by rw [← ht,hvout]
    rw [padded,List.getElem?_map,List.getElem?_append_left hlen,List.getElem?_append_left hlen,
      hi] at hsame
    exact (Option.some.inj hsame).symm
  · intro hfits
    have hmap : (c.padded N).map returned=c.padded N := by
      refine (List.map_congr_left ?_).trans (List.map_id _)
      intro o ho
      rcases List.mem_append.mp ho with ho | ho
      · exact (returned_eq_iff h ho).mpr (hfits o ho)
      · rw [List.eq_of_mem_replicate ho]
        rfl
    rw [hmap]
    exact cleanup_padded h.cleaned N

end Record

end CCoins

end Zdeex.Coins

namespace Zdeex.Block

open Zdeex.Framework
open Zdeex.Coins

/-- The entries of a view that blocks were connected to survive a flush. -/
theorem Stored.survives (K : PubKeys) {c : CCoins} (h : Stored c) (hunspent : c.isPruned=false)
    (hheight : c.nHeight<2^30) (hsize : c.vout.length≤MAX_SIZE) :
    ∃bytes,c.serialize K=some bytes ∧ Reads (CCoins.unserialize K) bytes c := by
  have hmax : HUSH_MAXNVALUE=2^63-1 := rfl
  have hpos := h.height hunspent
  have houts : ∀o∈c.vout,o.isNull=false →
      CTxOut.Storable o ∧ isUnspendable o.scriptPubKey=false := by
    intro o ho hnull
    rcases h.outputs o ho with rfl | hstored
    · cases hnull
    · exact hstored
  have hproduced : c.Produced := by
    refine ⟨⟨by omega,hheight⟩,h.version hunspent,h.trimmed,hsize,?_,?_⟩
    · intro o ho hnull
      rcases h.outputs o ho with rfl | ⟨⟨⟨hnonneg,-⟩,-⟩,-⟩
      · rfl
      · have hvalue : o.nValue= -1 := by simpa [CTxOut.isNull] using hnull
        omega
    · intro o ho hnull
      obtain ⟨⟨⟨hnonneg,hlt⟩,-⟩,hspend⟩ := houts o ho hnull
      exact ⟨⟨hnonneg,by omega⟩,hspend⟩
  obtain ⟨bytes,hbytes,hread⟩ := CCoins.reads_produced K hproduced hunspent
  have hback := (CCoins.cleanup_returned_iff hproduced (N := 2+c.calcMaskSize.1*8)).mpr (by
    intro o ho hnull
    obtain ⟨⟨⟨hnonneg,hlt⟩,-⟩,-⟩ := houts o ho hnull
    exact .inr (by omega))
  rw [hback] at hread
  exact ⟨bytes,hbytes,hread⟩

/-- The largest value out that a block may have in a transaction, in base units. -/
def largestValueOut : Nat := 10000000001*100000000

/-- Records with amounts that the code of amounts holds survive, no output of a block exceeds
them, and every script survives. -/
theorem records_survive (K : PubKeys) :
    (∀c : CCoins,c.Produced →
      ((∃bytes,c.serialize K=some bytes ∧ Reads (CCoins.unserialize K) bytes c) ↔
        c.isPruned=false ∧ ∀o∈c.vout,o.isNull=false → AmountFits o.nValue.toNat)) ∧
    (∀u : CTxInUndo,u.Typed → (Reads (readTxInUndo K) (writeTxInUndo K u) u ↔ u.Fits)) ∧
    (∀n<2^64,decompressAmount (compressAmount n)=n ↔ AmountFits n) ∧
    (∀n≤largestValueOut,AmountFits n) ∧
    ∀script : List UInt8,script.length≤MAX_SCRIPT_SIZE →
      Reads (readScript K) (writeScript K script) script := by
  refine ⟨fun c hc => ⟨?_,?_⟩,fun u hu => reads_txInUndo_iff K hu,
    fun n hn => decompressAmount_iff_fits hn,fun n hn => ?_,fun script hlen => reads_script K hlen⟩
  · rintro ⟨bytes,hbytes,hread⟩
    have hunspent : c.isPruned=false := by
      rw [CCoins.isPruned_eq_false_iff]
      by_contra hno
      rw [CCoins.serialize,if_neg hno] at hbytes
      cases hbytes
    obtain ⟨bytes',hbytes',hread'⟩ := CCoins.reads_produced K hc hunspent
    obtain rfl := Option.some.inj (hbytes.symm.trans hbytes')
    exact ⟨hunspent,(CCoins.cleanup_returned_iff hc).mp (hread'.unique hread)⟩
  · rintro ⟨hunspent,hfits⟩
    obtain ⟨bytes,hbytes,hread⟩ := CCoins.reads_produced K hc hunspent
    rw [(CCoins.cleanup_returned_iff hc).mpr hfits] at hread
    exact ⟨bytes,hbytes,hread⟩
  · unfold largestValueOut at hn
    exact .inr (by omega)

/-- One unspent output of the given amount. -/
def singleCoin (nValue : Int) : CCoins := ⟨false,[⟨nValue,[0x51]⟩],1,1⟩

theorem singleCoin_produced {nValue : Int} (h : 0≤nValue ∧ nValue≤HUSH_MAXNVALUE) :
    (singleCoin nValue).Produced := by
  have hnull : (nValue== -1)=false := by
    rw [beq_eq_false_iff_ne]
    omega
  have hspend : isUnspendable [0x51]=false := by decide
  refine ⟨by simp [singleCoin],by simp [singleCoin],?_,by simp [singleCoin,MAX_SIZE],?_,?_⟩
  · simp [singleCoin,CCoins.cleanup,CTxOut.isNull,hnull]
  · intro o ho hn
    obtain rfl : o=⟨nValue,[0x51]⟩ := by simpa [singleCoin] using ho
    exact absurd hn (by simp [CTxOut.isNull,hnull])
  · intro o ho hn
    obtain rfl : o=⟨nValue,[0x51]⟩ := by simpa [singleCoin] using ho
    exact ⟨h,hspend⟩

theorem small_coin_survives :
    (∃bytes,(singleCoin 5).serialize noKeys=some bytes ∧
      Reads (CCoins.unserialize noKeys) bytes (singleCoin 5)) ∧
    Reads (readTxInUndo noKeys) (writeTxInUndo noKeys ⟨⟨5,[0x51]⟩,true,7,4⟩)
      ⟨⟨5,[0x51]⟩,true,7,4⟩ := by
  constructor
  · apply ((records_survive noKeys).1 (singleCoin 5)
      (singleCoin_produced (by decide +kernel))).mpr
    exact ⟨by decide,by decide⟩
  · apply ((records_survive noKeys).2.1 ⟨⟨5,[0x51]⟩,true,7,4⟩
      ⟨by decide,by decide,by decide,by decide⟩).mpr
    exact ⟨by decide,by decide,by decide,by decide,by decide⟩

theorem large_amount_lost :
    ¬∀(K : PubKeys) (c : CCoins),c.Produced → c.isPruned=false →
      ∃bytes,c.serialize K=some bytes ∧ Reads (CCoins.unserialize K) bytes c := by
  intro hall
  have hproduced : (singleCoin 2049638230412172403).Produced :=
    singleCoin_produced (by decide +kernel)
  obtain ⟨bytes,hbytes,hread⟩ := hall noKeys _ hproduced rfl
  obtain ⟨bytes',hbytes',hread'⟩ := CCoins.reads_produced noKeys hproduced rfl
  obtain rfl := Option.some.inj (hbytes.symm.trans hbytes')
  have hfits := (CCoins.cleanup_returned_iff hproduced).mp (hread'.unique hread)
  exact absurd (hfits _ (List.mem_singleton.mpr rfl) rfl) (by decide)

end Zdeex.Block
