import Mathlib.Tactic.Common
import Mathlib.Tactic.Ring
import Zdeex.Framework.Codec

namespace Zdeex

open Zdeex.Framework

def MAX_SIZE : Nat := 0x02000000

/-- One marker byte for sizes from 253 on. -/
def writeCompactSize (nSize : Nat) : List Byte :=
  if nSize<253 then bytesOf 1 nSize
  else if nSize≤0xFFFF then 253#8::bytesOf 2 nSize
  else if nSize≤0xFFFFFFFF then 254#8::bytesOf 4 nSize
  else 255#8::bytesOf 8 nSize

def readLittleEndian (n : Nat) : Reader Nat := do
  return natOf (← Reader.bytes n)

/-- What follows the marker byte; a size that has a shorter form throws. -/
def readMarkedSize (chSize : Byte) : Reader Nat :=
  if chSize.toNat<253 then pure chSize.toNat
  else if chSize.toNat=253 then do
    let nSizeRet ← readLittleEndian 2
    if nSizeRet<253 then Reader.fail else pure nSizeRet
  else if chSize.toNat=254 then do
    let nSizeRet ← readLittleEndian 4
    if nSizeRet<0x10000 then Reader.fail else pure nSizeRet
  else do
    let nSizeRet ← readLittleEndian 8
    if nSizeRet<0x100000000 then Reader.fail else pure nSizeRet

def readCompactSize : Reader Nat := do
  let chSize ← Reader.byte
  let nSizeRet ← readMarkedSize chSize
  if MAX_SIZE<nSizeRet then Reader.fail else pure nSizeRet

def writeVector {α : Type} (write : α → List Byte) (v : List α) : List Byte :=
  writeCompactSize v.length++v.flatMap write

def readVector {α : Type} (read : Reader α) : Reader (List α) := do
  let nSize ← readCompactSize
  Reader.items read nSize

/-- A vector of characters. -/
def readBytes : Reader (List Byte) := do
  let nSize ← readCompactSize
  Reader.bytes nSize

/-- The digits of `WriteVarInt` as its loop finds them, at most as many as the
buffer has room for; all but the first one carry the continuation bit. -/
def varIntDigits : Nat → Bool → Int → List Byte
  | 0,_,_ => []
  | slots+1,len,n =>
      BitVec.ofNat 8 ((n%128).toNat+if len then 128 else 0)::
        (if n≤127 then [] else varIntDigits slots true (n/128-1))

/-- `WriteVarInt` of an integer type of `w` bits. -/
def writeVarInt (w : Nat) (n : Int) : List Byte := (varIntDigits ((w+6)/7) false n).reverse

def readVarIntLoop (w : Nat) : Nat → Reader Nat
  | _,[] => none
  | n,chData::is =>
      let n := (n*128+chData.toNat%128)%2^w
      if 128 ≤ chData.toNat then readVarIntLoop w ((n+1)%2^w) is else some (n,is)

/-- `ReadVarInt` of an integer type of `w` bits. -/
def readVarInt (w : Nat) : Reader Nat := readVarIntLoop w 0

theorem reads_littleEndian {n x : Nat} (hx : x<256^n) :
    Reads (readLittleEndian n) (bytesOf n x) x := by
  have hread : Reads (Reader.bytes n) (bytesOf n x) (bytesOf n x) := by
    have hlen := Reads.bytes (bytesOf n x)
    rwa [length_bytesOf] at hlen
  have hmap := hread.map natOf
  rwa [natOf_bytesOf,Nat.mod_eq_of_lt hx] at hmap

/-- A checked value is passed on. -/
private theorem reads_unless {α : Type} {c : Prop} [Decidable c] (hc : ¬c) (a : α) :
    Reads (if c then Reader.fail else (pure a : Reader α)) [] a := by
  rw [if_neg hc]
  exact Reads.pure a

private theorem reads_checked {n x : Nat} {c : Nat → Prop} [DecidablePred c]
    (hx : x<256^n) (hc : ¬c x) :
    Reads (do let y ← readLittleEndian n; if c y then Reader.fail else pure y) (bytesOf n x) x := by
  have hbind := (reads_littleEndian hx).bind
    (f := fun y => if c y then Reader.fail else (pure y : Reader Nat)) (reads_unless hc x)
  rwa [List.append_nil] at hbind

/-- The marker byte of a size, and what is read behind it. -/
theorem reads_markedSize {n : Nat} (hn : n<2^64) :
    ∃b bs,writeCompactSize n=b::bs ∧ Reads (readMarkedSize b) bs n := by
  unfold writeCompactSize
  split_ifs with h₁ h₂ h₃
  · have hb : (BitVec.ofNat 8 n).toNat=n := by
      rw [BitVec.toNat_ofNat,Nat.mod_eq_of_lt (by omega)]
    refine ⟨_,_,rfl,?_⟩
    rw [readMarkedSize,if_pos (by omega),hb]
    exact Reads.pure n
  · exact ⟨_,_,rfl,reads_checked (c := fun y => y<253) (by omega) h₁⟩
  · exact ⟨_,_,rfl,reads_checked (c := fun y => y<0x10000) (by omega) (by omega)⟩
  · exact ⟨_,_,rfl,reads_checked (c := fun y => y<0x100000000) (by omega) (by omega)⟩

theorem reads_compactSize {n : Nat} (hn : n≤MAX_SIZE) :
    Reads readCompactSize (writeCompactSize n) n := by
  have hmax : MAX_SIZE=33554432 := rfl
  have hlast : Reads (if MAX_SIZE<n then Reader.fail else (pure n : Reader Nat)) [] n :=
    reads_unless (by omega) n
  obtain ⟨b,bs,hwrite,hmarked⟩ := reads_markedSize (n := n) (by omega)
  have hrest := hmarked.bind (f := fun y => if MAX_SIZE<y then Reader.fail else pure y) hlast
  rw [List.append_nil] at hrest
  rw [hwrite]
  exact (Reads.byte b).bind (f := fun b => readMarkedSize b>>=
    fun y => if MAX_SIZE<y then Reader.fail else pure y) hrest

theorem readLittleEndian_eq_some {n x : Nat} {bs rest : List Byte}
    (h : readLittleEndian n bs=some (x,rest)) : x<256^n ∧ bs=bytesOf n x++rest := by
  obtain ⟨taken,bs',hbytes,hx⟩ := Reader.bind_eq_some h
  unfold Reader.bytes at hbytes
  split_ifs at hbytes with hlen
  obtain ⟨rfl,rfl⟩ := Prod.mk.inj (Option.some.inj hbytes)
  obtain ⟨rfl,rfl⟩ := Prod.mk.inj (Option.some.inj hx)
  have htake : (bs.take n).length=n := by rw [List.length_take]; omega
  have hlt := natOf_lt (bs.take n)
  have hback := bytesOf_natOf (bs.take n)
  rw [htake] at hlt hback
  exact ⟨hlt,by rw [hback,List.take_append_drop]⟩

/-- A checked number, and what the check has seen. -/
private theorem checked_eq_some {n x : Nat} {c : Nat → Prop} [DecidablePred c]
    {bs rest : List Byte}
    (h : (do let y ← readLittleEndian n; if c y then Reader.fail else pure y : Reader Nat) bs=
      some (x,rest)) : x<256^n ∧ ¬c x ∧ bs=bytesOf n x++rest := by
  obtain ⟨y,bs',hread,hcheck⟩ := Reader.bind_eq_some h
  obtain ⟨hlt,hbs⟩ := readLittleEndian_eq_some hread
  split_ifs at hcheck with hc
  · cases hcheck
  · obtain ⟨rfl,rfl⟩ := Prod.mk.inj (Option.some.inj hcheck)
    exact ⟨hlt,hc,hbs⟩

/-- A size is read from the one form it is written in. -/
theorem readMarkedSize_eq_some {n : Nat} {b : Byte} {bs rest : List Byte}
    (h : readMarkedSize b bs=some (n,rest)) : n<2^64 ∧ b::bs=writeCompactSize n++rest := by
  have hb : BitVec.ofNat 8 b.toNat=b := BitVec.ofNat_toNat 8 b
  have hb256 : b.toNat<256 := b.isLt
  unfold readMarkedSize at h
  unfold writeCompactSize
  split_ifs at h with h₁ h₂ h₃
  · obtain ⟨rfl,rfl⟩ := Prod.mk.inj (Option.some.inj h)
    refine ⟨by omega,?_⟩
    rw [if_pos h₁]
    change b::bs=BitVec.ofNat 8 b.toNat::bs
    rw [hb]
  · obtain ⟨hlt,hc,rfl⟩ := checked_eq_some (c := fun y => y<253) h
    refine ⟨by omega,?_⟩
    rw [if_neg hc,if_pos (by omega),← hb,h₂]
    rfl
  · obtain ⟨hlt,hc,rfl⟩ := checked_eq_some (c := fun y => y<0x10000) h
    refine ⟨by omega,?_⟩
    rw [if_neg (by omega),if_neg (by omega),if_pos (by omega),← hb,h₃]
    rfl
  · obtain ⟨hlt,hc,rfl⟩ := checked_eq_some (c := fun y => y<0x100000000) h
    have h255 : b.toNat=255 := by omega
    refine ⟨by omega,?_⟩
    rw [if_neg (by omega),if_neg (by omega),if_neg (by omega),← hb,h255]
    rfl

theorem readCompactSize_eq_some {n : Nat} {bs rest : List Byte}
    (h : readCompactSize bs=some (n,rest)) : n≤MAX_SIZE ∧ bs=writeCompactSize n++rest := by
  obtain ⟨chSize,bs₁,hbyte,hmarked⟩ := Reader.bind_eq_some h
  obtain ⟨nSizeRet,bs₂,hsize,hcheck⟩ := Reader.bind_eq_some hmarked
  cases bs with
  | nil => cases hbyte
  | cons b bs =>
    obtain ⟨rfl,rfl⟩ := Prod.mk.inj (Option.some.inj hbyte)
    split_ifs at hcheck with hmax
    · cases hcheck
    obtain ⟨rfl,rfl⟩ := Prod.mk.inj (Option.some.inj hcheck)
    exact ⟨by omega,(readMarkedSize_eq_some hsize).2⟩

theorem reads_vector {α : Type} {write : α → List Byte} {read : Reader α} {v : List α}
    (hv : v.length≤MAX_SIZE) (h : ∀a∈v,Reads read (write a) a) :
    Reads (readVector read) (writeVector write v) v :=
  (reads_compactSize hv).bind (Reads.items v h)

theorem readVector_sized {α : Type} {read : Reader α} {bs rest : List Byte} {v : List α}
    (h : readVector read bs=some (v,rest)) : v.length≤MAX_SIZE := by
  obtain ⟨_,_,hsize,hitems⟩ := Reader.bind_eq_some h
  rw [Reader.length_items hitems]
  exact (readCompactSize_eq_some hsize).1

private theorem readVarIntLoop_cons {w n d : Nat} {b : Byte} (hb : b.toNat%128=d)
    (hd : n*128+d<2^w) (is : List Byte) :
    readVarIntLoop w n (b::is)=
      if 128≤b.toNat then readVarIntLoop w ((n*128+d+1)%2^w) is else some (n*128+d,is) := by
  rw [readVarIntLoop,hb,Nat.mod_eq_of_lt hd]

/-- The digit of a loop round, with and without the continuation bit. -/
private theorem digit_toNat (n : Nat) (c : Bool) :
    (BitVec.ofNat 8 (((n : Int)%128).toNat+if c then 128 else 0)).toNat=
      n%128+if c then 128 else 0 := by
  have hn : ((n : Int)%128).toNat=n%128 := by omega
  have hlt : n%128<128 := Nat.mod_lt n (by decide)
  rw [hn,BitVec.toNat_ofNat,Nat.mod_eq_of_lt (by split_ifs <;> omega)]

private theorem readVarIntLoop_digit {w n : Nat} (m : Nat) (hm : m*128+n%128=n) (hn : n+1<2^w)
    (rest : List Byte) :
    readVarIntLoop w m (BitVec.ofNat 8 (((n : Int)%128).toNat+if true then 128 else 0)::rest)=
      readVarIntLoop w (n+1) rest := by
  have hdigit := digit_toNat n true
  rw [readVarIntLoop_cons (d := n%128) (by rw [hdigit]; simp) (by omega),hm,hdigit,
    if_pos (by simp),Nat.mod_eq_of_lt hn]

private theorem next_digits {n k : Nat} (hle : ¬(n : Int)≤127) (hk : n<128^(k+1)) :
    (n : Int)/128-1=((n/128-1 : Nat) : Int) ∧ n/128-1<128^k ∧ n/128-1+1=n/128 := by
  have hlt : n/128<128^k := by
    apply Nat.div_lt_of_lt_mul
    rwa [← pow_succ']
  refine ⟨?_,?_,?_⟩ <;> omega

/-- Digits with the continuation bit leave one more than the number they spell. -/
private theorem readVarIntLoop_digits {w : Nat} (k n : Nat) (hk : n<128^(k+1)) (hn : n+1<2^w)
    (rest : List Byte) :
    readVarIntLoop w 0 ((varIntDigits (k+1) true n).reverse++rest)=
      readVarIntLoop w (n+1) rest := by
  induction k generalizing n rest with
  | zero =>
    have hle : (n : Int)≤127 := by omega
    rw [varIntDigits,if_pos hle]
    exact readVarIntLoop_digit 0 (by omega) hn rest
  | succ k ih =>
    rw [varIntDigits]
    by_cases hle : (n : Int)≤127
    · rw [if_pos hle]
      exact readVarIntLoop_digit 0 (by omega) hn rest
    · obtain ⟨hnext,hlt,hsucc⟩ := next_digits hle hk
      rw [if_neg hle,hnext,List.reverse_cons,List.append_assoc,ih _ hlt (by omega),hsucc]
      exact readVarIntLoop_digit (n/128) (by omega) hn rest

theorem reads_varInt {w n : Nat} (hw : 7<w) (hn : n<2^w) :
    Reads (readVarInt w) (writeVarInt w n) n := by
  intro rest
  have hpow : 2^w≤128^((w+6)/7) := by
    rw [show 128=2^7 from rfl,← pow_mul]
    exact Nat.pow_le_pow_right (by decide) (by omega)
  obtain ⟨k,hk⟩ : ∃k,(w+6)/7=k+1+1 := ⟨(w+6)/7-2,by omega⟩
  rw [hk] at hpow
  have hdigit := digit_toNat n false
  have hend : ∀m,m*128+n%128=n → readVarIntLoop w m
      ([BitVec.ofNat 8 (((n : Int)%128).toNat+if false then 128 else 0)]++rest)=
        some (n,rest) := by
    intro m hm
    have hlt : n%128<128 := Nat.mod_lt n (by decide)
    rw [List.singleton_append,readVarIntLoop_cons (d := n%128) (by rw [hdigit]; simp)
      (by omega),hm,hdigit,if_neg (by simpa using hlt)]
  rw [readVarInt,writeVarInt,hk,varIntDigits]
  by_cases hle : (n : Int)≤127
  · rw [if_pos hle]
    exact hend 0 (by omega)
  · obtain ⟨hnext,hlt,hsucc⟩ := next_digits hle (hn.trans_le hpow)
    rw [if_neg hle,hnext,List.reverse_cons,List.append_assoc,
      readVarIntLoop_digits k _ hlt (by omega),hsucc]
    exact hend (n/128) (by omega)

end Zdeex
