import Mathlib.Tactic.IntervalCases
import Zdeex.Primitives.Serialize

namespace Zdeex

open Zdeex.Framework

section VarInt

def getSizeOfVarInt (n : Nat) : Nat :=
  if n≤127 then 1 else getSizeOfVarInt (n/128-1)+1
termination_by n
decreasing_by omega

/-- The digits that the loop of `WriteVarInt` stores, however many there are; `len` says
whether it has stored one before. -/
def storedDigits (len : Bool) (n : Nat) : List Byte :=
  BitVec.ofNat 8 (n%128+if len then 128 else 0)::
    (if n≤127 then [] else storedDigits true (n/128-1))
termination_by n
decreasing_by omega

/-- `ReadVarInt` that stops where a number does not fit into `w` bits. -/
def exactVarIntLoop (w : Nat) : Nat → Reader Nat
  | _,[] => none
  | n,chData::is =>
      let n := n*128+chData.toNat%128
      if 2^w≤n then none
      else if 128 ≤ chData.toNat then
        if 2^w≤n+1 then none else exactVarIntLoop w (n+1) is
      else some (n,is)

theorem storedDigits_short {n : Nat} (hn : n≤127) (len : Bool) :
    storedDigits len n=[BitVec.ofNat 8 (n%128+if len then 128 else 0)] := by
  rw [storedDigits,if_pos hn]

theorem storedDigits_long {n : Nat} (hn : ¬n≤127) (len : Bool) :
    storedDigits len n=
      BitVec.ofNat 8 (n%128+if len then 128 else 0)::storedDigits true (n/128-1) := by
  rw [storedDigits,if_neg hn]

theorem length_storedDigits (len : Bool) (n : Nat) :
    (storedDigits len n).length=getSizeOfVarInt n := by
  induction n using Nat.strongRecOn generalizing len with
  | ind n ih =>
    rw [getSizeOfVarInt]
    split_ifs with hn
    · rw [storedDigits_short hn]
      rfl
    · rw [storedDigits_long hn,List.length_cons,ih _ (by omega)]

theorem getSizeOfVarInt_le {k n : Nat} (hn : n<128^(k+1)) : getSizeOfVarInt n≤k+1 := by
  induction k generalizing n with
  | zero =>
    rw [getSizeOfVarInt,if_pos (by omega)]
  | succ k ih =>
    rw [getSizeOfVarInt]
    split_ifs with hsmall
    · omega
    · have hdiv : n/128<128^(k+1) := by
        apply Nat.div_lt_of_lt_mul
        rwa [← pow_succ']
      have hrest := ih (n := n/128-1) (by omega)
      omega

/-- The buffer of `WriteVarInt` has room for all digits. -/
theorem getSizeOfVarInt_le_buffer {w n : Nat} (hw : 0<w) (hn : n<2^w) :
    getSizeOfVarInt n≤(w+6)/7 := by
  obtain ⟨k,hk⟩ : ∃k,(w+6)/7=k+1 := ⟨(w+6)/7-1,by omega⟩
  have hpow : 2^w≤128^(k+1) := by
    rw [show 128=2^7 from rfl,← pow_mul]
    exact Nat.pow_le_pow_right (by decide) (by omega)
  rw [hk]
  exact getSizeOfVarInt_le (hn.trans_le hpow)

/-- With enough slots the model of the buffer holds what the loop stores. -/
theorem varIntDigits_eq {slots n : Nat} (hslots : getSizeOfVarInt n ≤ slots) (len : Bool) :
    varIntDigits slots len n=storedDigits len n := by
  induction slots generalizing n len with
  | zero =>
    rw [getSizeOfVarInt] at hslots
    split_ifs at hslots <;> omega
  | succ slots ih =>
    have hmod : ((n : Int)%128).toNat=n%128 := by omega
    rw [varIntDigits,hmod]
    by_cases hn : n≤127
    · have hle : (n : Int)≤127 := by omega
      rw [storedDigits_short hn,if_pos hle]
    · have hle : ¬(n : Int)≤127 := by omega
      have hnext : (n : Int)/128-1=((n/128-1 : Nat) : Int) := by omega
      rw [getSizeOfVarInt,if_neg hn] at hslots
      rw [storedDigits_long hn,if_neg hle,hnext,ih (by omega)]

theorem writeVarInt_eq {w n : Nat} (hw : 0<w) (hn : n<2^w) :
    writeVarInt w n=(storedDigits false n).reverse := by
  rw [writeVarInt,varIntDigits_eq (getSizeOfVarInt_le_buffer hw hn)]

/-- Without wrap-around the check makes no difference. -/
theorem readVarIntLoop_of_exact {w n m : Nat} {bs rest : List Byte}
    (h : exactVarIntLoop w n bs=some (m,rest)) : readVarIntLoop w n bs=some (m,rest) := by
  induction bs generalizing n with
  | nil => cases h
  | cons chData is ih =>
    rw [exactVarIntLoop] at h
    rw [readVarIntLoop]
    split_ifs at h with hfits hmore hnext
    · have hdigit : (n*128+chData.toNat%128)%2^w=n*128+chData.toNat%128 :=
        Nat.mod_eq_of_lt (by omega)
      have hsucc : (n*128+chData.toNat%128+1)%2^w=n*128+chData.toNat%128+1 :=
        Nat.mod_eq_of_lt (by omega)
      rw [hdigit,if_pos hmore,hsucc]
      exact ih h
    · have hdigit : (n*128+chData.toNat%128)%2^w=n*128+chData.toNat%128 :=
        Nat.mod_eq_of_lt (by omega)
      rw [hdigit,if_neg hmore]
      exact h

/-- The digits behind an accumulator of the reader. -/
def digitsBefore : Nat → List Byte
  | 0 => []
  | n+1 => (storedDigits true n).reverse

theorem storedDigits_reverse (len : Bool) (k d : Nat) (hd : d<128) :
    (storedDigits len (k*128+d)).reverse=
      digitsBefore k++[BitVec.ofNat 8 (d+if len then 128 else 0)] := by
  have hmod : (k*128+d)%128=d := by omega
  cases k with
  | zero =>
    rw [storedDigits_short (by omega),hmod]
    rfl
  | succ k =>
    have hdiv : ((k+1)*128+d)/128-1=k := by omega
    rw [storedDigits_long (by omega),hmod,hdiv,List.reverse_cons]
    rfl

/-- What is read without wrap-around are the digits of the number. -/
theorem digits_of_exact {w n m : Nat} {bs rest : List Byte}
    (h : exactVarIntLoop w n bs=some (m,rest)) :
    ∃d,bs=d++rest ∧ (storedDigits false m).reverse=digitsBefore n++d := by
  induction bs generalizing n with
  | nil => cases h
  | cons chData is ih =>
    have hbyte : chData.toNat<256 := chData.isLt
    rw [exactVarIntLoop] at h
    split_ifs at h with hfits hmore hnext
    · obtain ⟨d,rfl,hd⟩ := ih h
      refine ⟨chData::d,rfl,?_⟩
      have hdigit : chData.toNat%128+128=chData.toNat := by omega
      have hbefore : digitsBefore (n*128+chData.toNat%128+1)=digitsBefore n++[chData] := by
        rw [digitsBefore,storedDigits_reverse _ _ _ (by omega),if_pos rfl,hdigit,
          BitVec.ofNat_toNat,BitVec.setWidth_eq]
      rw [hd,hbefore,List.append_assoc]
      rfl
    · obtain ⟨rfl,rfl⟩ := Prod.mk.inj (Option.some.inj h)
      refine ⟨[chData],rfl,?_⟩
      have hdigit : chData.toNat%128+0=chData.toNat := by omega
      rw [storedDigits_reverse _ _ _ (by omega),if_neg (by decide),hdigit,
        BitVec.ofNat_toNat,BitVec.setWidth_eq]

end VarInt

section CompactSize

def getSizeOfCompactSize (nSize : Nat) : Nat :=
  if nSize<253 then 1
  else if nSize≤0xFFFF then 3
  else if nSize≤0xFFFFFFFF then 5
  else 9

/-- `ReadCompactSize` with its second argument. -/
def readCompactSizeOf (range_check : Bool) : Reader Nat := do
  let chSize ← Reader.byte
  let nSizeRet ← readMarkedSize chSize
  if range_check=true ∧ MAX_SIZE<nSizeRet then Reader.fail else pure nSizeRet

theorem readCompactSizeOf_true : readCompactSizeOf true=readCompactSize := by
  unfold readCompactSizeOf readCompactSize
  simp only [true_and]

theorem length_writeCompactSize_eq (nSize : Nat) :
    (writeCompactSize nSize).length=getSizeOfCompactSize nSize := by
  unfold writeCompactSize getSizeOfCompactSize
  split_ifs <;> simp

theorem reads_sizeCheck {range_check : Bool} {n : Nat} (hn : n<2^64) :
    Reads (readCompactSizeOf range_check) (writeCompactSize n) n ↔
      (range_check=true → n≤MAX_SIZE) := by
  obtain ⟨b,bs,hwrite,hmarked⟩ := reads_markedSize hn
  have hrun : ∀rest,readCompactSizeOf range_check (writeCompactSize n++rest)=
      (if range_check=true ∧ MAX_SIZE<n then Reader.fail else pure n : Reader Nat) rest := by
    intro rest
    rw [hwrite]
    exact hmarked.run_bind (f := fun y =>
      if range_check=true ∧ MAX_SIZE<y then Reader.fail else (pure y : Reader Nat)) rest
  constructor
  · intro hread hcheck
    by_contra hlong
    have hsome := (hrun []).symm.trans (hread [])
    rw [if_pos ⟨hcheck,by omega⟩] at hsome
    cases hsome
  · intro hcheck rest
    rw [hrun,if_neg (fun h => by have := hcheck h.1; omega)]
    rfl

theorem readCompactSizeOf_eq_some {range_check : Bool} {n : Nat} {bs rest : List Byte}
    (h : readCompactSizeOf range_check bs=some (n,rest)) :
    n<2^64 ∧ bs=writeCompactSize n++rest := by
  obtain ⟨chSize,bs₁,hbyte,hmarked⟩ := Reader.bind_eq_some h
  obtain ⟨nSizeRet,bs₂,hsize,hcheck⟩ := Reader.bind_eq_some hmarked
  cases bs with
  | nil => cases hbyte
  | cons b bs =>
    obtain ⟨rfl,rfl⟩ := Prod.mk.inj (Option.some.inj hbyte)
    split_ifs at hcheck
    · cases hcheck
    · obtain ⟨rfl,rfl⟩ := Prod.mk.inj (Option.some.inj hcheck)
      exact readMarkedSize_eq_some hsize

end CompactSize

/-- Numbers of each width are read back from as many bytes as `GetSizeOfVarInt` says, within
the buffer, and have no other encoding. Sizes are read back from their one encoding, up to
`MAX_SIZE` if the range is checked. -/
theorem encodings_canonical :
    (∀w∈[8,16,32,64],
      (∀n : Nat,n<2^w → Reads (readVarInt w) (writeVarInt w n) n ∧
        writeVarInt w n=(storedDigits false n).reverse ∧
        (writeVarInt w n).length=getSizeOfVarInt n ∧ getSizeOfVarInt n≤(8*(w/8)+6)/7) ∧
      ∀e e' n,exactVarIntLoop w 0 e=some (n,[]) → exactVarIntLoop w 0 e'=some (n,[]) →
        e=e' ∧ readVarInt w e=some (n,[])) ∧
    ∀range_check : Bool,
      (∀n : Nat,n<2^64 → (Reads (readCompactSizeOf range_check) (writeCompactSize n) n ↔
          (range_check=true → n≤MAX_SIZE)) ∧
        (writeCompactSize n).length=getSizeOfCompactSize n) ∧
      ∀n bs rest,readCompactSizeOf range_check bs=some (n,rest) →
        n<2^64 ∧ bs=writeCompactSize n++rest := by
  constructor
  · intro w hw
    obtain ⟨hw7,hbytes⟩ : 7<w ∧ 8*(w/8)=w := by
      simp only [List.mem_cons,List.not_mem_nil,or_false] at hw
      omega
    refine ⟨fun n hn => ⟨reads_varInt hw7 hn,writeVarInt_eq (by omega) hn,?_,?_⟩,?_⟩
    · rw [writeVarInt_eq (by omega) hn,List.length_reverse,length_storedDigits]
    · rw [hbytes]
      exact getSizeOfVarInt_le_buffer (by omega) hn
    · intro e e' n he he'
      obtain ⟨d,hd,hdigits⟩ := digits_of_exact he
      obtain ⟨d',hd',hdigits'⟩ := digits_of_exact he'
      have hsame : digitsBefore 0++d=digitsBefore 0++d' := hdigits.symm.trans hdigits'
      rw [List.append_nil] at hd hd'
      exact ⟨by rw [hd,hd',List.append_cancel_left hsame],readVarIntLoop_of_exact he⟩
  · exact fun range_check => ⟨fun n hn => ⟨reads_sizeCheck hn,length_writeCompactSize_eq n⟩,
      fun n bs rest => readCompactSizeOf_eq_some⟩

/-- The encodings of 300: a number, and a size. -/
theorem encodings_canonical_300 :
    (∃e,Reads (readVarInt 16) e 300 ∧ e.length=getSizeOfVarInt 300) ∧
    Reads (readCompactSizeOf true) (writeCompactSize 300) 300 :=
  ⟨⟨_,((encodings_canonical.1 16 (by decide)).1 300 (by decide)).1,
    ((encodings_canonical.1 16 (by decide)).1 300 (by decide)).2.2.1⟩,
    ((encodings_canonical.2 true).1 300 (by decide)).1.mpr fun _ => by decide⟩

theorem large_size_refused :
    readCompactSizeOf true (writeCompactSize (MAX_SIZE+1))=none := by decide

end Zdeex
