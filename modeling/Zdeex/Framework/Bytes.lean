import Mathlib.Data.List.Basic
import Mathlib.Tactic.Common
import Mathlib.Tactic.Ring

namespace Zdeex.Framework

abbrev Byte := BitVec 8

/-- The `n` low bytes of a number, least significant first. -/
def bytesOf : Nat → Nat → List Byte
  | 0,_ => []
  | n+1,x => BitVec.ofNat 8 x::bytesOf n (x/256)

def natOf : List Byte → Nat
  | [] => 0
  | b::bs => b.toNat+256*natOf bs

/-- Memory image of a word, as a little-endian machine writes it. -/
def toBytes {w : Nat} (x : BitVec w) : List Byte := bytesOf (w/8) x.toNat

def ofBytes (w : Nat) (bs : List Byte) : BitVec w := BitVec.ofNat w (natOf bs)

/-- The first `n` words of an array. -/
def wordsOf (w : Nat) : Nat → List Byte → List (BitVec w)
  | 0,_ => []
  | n+1,bs => ofBytes w (bs.take (w/8))::wordsOf w n (bs.drop (w/8))

@[simp] theorem length_bytesOf (n x : Nat) : (bytesOf n x).length=n := by
  induction n generalizing x with
  | zero => rfl
  | succ n ih => simp [bytesOf,ih]

theorem natOf_bytesOf (n x : Nat) : natOf (bytesOf n x)=x%256^n := by
  induction n generalizing x with
  | zero => simp [bytesOf,natOf,Nat.mod_one]
  | succ n ih =>
    rw [bytesOf,natOf,ih,BitVec.toNat_ofNat,pow_succ' 256,Nat.mod_mul]

@[simp] theorem length_toBytes {w : Nat} (x : BitVec w) : (toBytes x).length=w/8 :=
  length_bytesOf _ _

theorem ofBytes_toBytes {w : Nat} (hw : 8∣w) (x : BitVec w) : ofBytes w (toBytes x)=x := by
  have hpow : 256^(w/8)=2^w := by
    rw [show 256=2^8 from rfl,← pow_mul,Nat.mul_div_cancel' hw]
  apply BitVec.eq_of_toNat_eq
  rw [ofBytes,toBytes,natOf_bytesOf,hpow,BitVec.toNat_ofNat,Nat.mod_mod,
    Nat.mod_eq_of_lt x.isLt]

theorem natOf_lt (bs : List Byte) : natOf bs<256^bs.length := by
  induction bs with
  | nil => simp [natOf]
  | cons b bs ih =>
    have hb : b.toNat<256 := b.isLt
    rw [natOf,List.length_cons,pow_succ']
    omega

theorem bytesOf_natOf (bs : List Byte) : bytesOf bs.length (natOf bs)=bs := by
  induction bs with
  | nil => rfl
  | cons b bs ih =>
    have hb : b.toNat<256 := b.isLt
    have hlow : BitVec.ofNat 8 (b.toNat+256*natOf bs)=b := by
      apply BitVec.eq_of_toNat_eq
      rw [BitVec.toNat_ofNat]
      omega
    have hhigh : (b.toNat+256*natOf bs)/256=natOf bs := by omega
    rw [List.length_cons,natOf,bytesOf,hlow,hhigh,ih]

theorem toBytes_ofBytes {w : Nat} (hw : 8∣w) {bs : List Byte} (hlen : bs.length=w/8) :
    toBytes (ofBytes w bs)=bs := by
  have hpow : 256^(w/8)=2^w := by
    rw [show 256=2^8 from rfl,← pow_mul,Nat.mul_div_cancel' hw]
  have hlt := natOf_lt bs
  rw [hlen,hpow] at hlt
  rw [toBytes,ofBytes,BitVec.toNat_ofNat,Nat.mod_eq_of_lt hlt,← hlen,bytesOf_natOf]

theorem length_flatMap_toBytes {w : Nat} (xs : List (BitVec w)) :
    (xs.flatMap toBytes).length=w/8*xs.length := by
  induction xs with
  | nil => rfl
  | cons x xs ih =>
    rw [List.flatMap_cons,List.length_append,ih,length_toBytes,List.length_cons]
    ring

theorem wordsOf_flatMap_toBytes {w : Nat} (hw : 8∣w) (xs : List (BitVec w)) :
    wordsOf w xs.length (xs.flatMap toBytes)=xs := by
  induction xs with
  | nil => rfl
  | cons x xs ih =>
    have htake : (toBytes x++xs.flatMap toBytes).take (w/8)=toBytes x :=
      List.take_left' (length_toBytes x)
    have hdrop : (toBytes x++xs.flatMap toBytes).drop (w/8)=xs.flatMap toBytes :=
      List.drop_left' (length_toBytes x)
    rw [List.length_cons,List.flatMap_cons,wordsOf,htake,hdrop,ih,ofBytes_toBytes hw]

/-- `bs` is what the buffer holds from position `p` to its end. -/
def At (f : List Byte) (p : Nat) (bs : List Byte) : Prop := p≤f.length ∧ f.drop p=bs

namespace At

variable {f bs xs : List Byte} {p : Nat}

theorem start (f : List Byte) : At f 0 f := ⟨Nat.zero_le _,rfl⟩

theorem length_eq (h : At f p bs) : p+bs.length=f.length := by
  rw [← h.2,List.length_drop]
  have := h.1
  omega

theorem advance (h : At f p (xs++bs)) : At f (p+xs.length) bs := by
  have hlen := h.length_eq
  rw [List.length_append] at hlen
  refine ⟨by omega,?_⟩
  rw [← List.drop_drop,h.2,List.drop_left]

theorem word {w : Nat} {x : BitVec w} (h : At f p (toBytes x++bs)) : At f (p+w/8) bs := by
  simpa using h.advance

theorem take (h : At f p (xs++bs)) : (f.drop p).take xs.length=xs := by
  rw [h.2,List.take_left]

theorem get {b : Byte} (h : At f p (b::bs)) : f[p]?=some b := by
  have hhead : (f.drop p)[0]?=some b := by rw [h.2]; rfl
  simpa using hhead

theorem tail {b : Byte} (h : At f p (b::bs)) : At f (p+1) bs := by
  have hsplit : At f p ([b]++bs) := h
  exact hsplit.advance

theorem skip {k : Nat} (h : At f p bs) (hk : k≤bs.length) : At f (p+k) (bs.drop k) := by
  have hlen := h.length_eq
  refine ⟨by omega,?_⟩
  rw [← List.drop_drop,h.2]

/-- The part of the buffer behind a position inside it. -/
theorem of_drop {b : Byte} (h : f.drop p=b::bs) : At f p (b::bs) := by
  have hlen : (f.drop p).length=bs.length+1 := by rw [h,List.length_cons]
  rw [List.length_drop] at hlen
  exact ⟨by omega,h⟩

end At

end Zdeex.Framework
