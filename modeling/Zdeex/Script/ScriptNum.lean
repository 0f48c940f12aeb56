import Mathlib.Data.Nat.Digits.Lemmas
import Zdeex.Script.OpReturn

namespace Zdeex.Script

abbrev Valtype := List UInt8

/-- The bytes the loop over `absvalue` collects, least significant first. -/
def absBytes (absvalue : Nat) : List UInt8 := (Nat.digits 256 absvalue).map UInt8.ofNat

/-- `CScriptNum::serialize`: sign and magnitude, the sign in the top bit of the last byte. -/
def serialize (value : Int) : Valtype :=
  if value=0 then []
  else
    let neg := decide (value<0)
    let result := absBytes value.natAbs
    let back := result.getLastD 0
    if back &&& 0x80≠0 then result++[if neg then 0x80 else 0]
    else if neg then result.dropLast++[back ||| 0x80]
    else result

/-- The loop of `set_vch` over the bytes from the place `i` on. -/
def joined : Valtype → Nat → BitVec 64
  | [],_ => 0
  | b::vch,i => b.toBitVec.setWidth 64<<<(8*i) ||| joined vch (i+1)

/-- `set_vch`. From nine bytes on the source shifts by 64 or more, which is undefined. -/
def setVch (vch : Valtype) : Int :=
  let result := joined vch 0
  if vch.getLastD 0 &&& 0x80≠0 then
    -(result &&& ~~~(0x80#64<<<(8*(vch.length-1)))).toInt
  else result.toInt

/-- The number that the bytes stand for, in any length. -/
def signedValue (vch : Valtype) : Int :=
  let back := vch.getLastD 0
  if back &&& 0x80≠0 then -(readLength (vch.dropLast++[back &&& 0x7f]) : Int)
  else readLength vch

/-- The test under `fRequireMinimal`: no last byte that is only there for nothing. -/
def nonMinimal (vch : Valtype) : Bool :=
  vch≠[] ∧ vch.getLastD 0 &&& 0x7f=0 ∧
    (vch.length≤1 ∨ vch.getD (vch.length-2) 0 &&& 0x80=0)

def nDefaultMaxNumSize : Nat := 4

/-- The constructor of `CScriptNum` from a stack element. -/
def cScriptNum (vch : Valtype) (fRequireMinimal : Bool) (nMaxNumSize : Nat) :
    Except String Int :=
  if nMaxNumSize<vch.length then .error "script number overflow"
  else if fRequireMinimal && nonMinimal vch then
    .error "non-minimally encoded script number"
  else .ok (setVch vch)

/-- `getint` clamps to the range of an `int`. -/
def getint (value : Int) : Int :=
  if 2^31-1<value then 2^31-1 else if value< -2^31 then -2^31 else value

/-- `CastToBool`: zero in any length is false, and so is negative zero. -/
def castToBool : Valtype → Bool
  | [] => false
  | b::vch => if b≠0 then !(vch=[] && b=0x80) else castToBool vch

section Bytes

theorem and_sign (b : UInt8) : b &&& 0x80≠0 ↔ 128≤b.toNat := by
  have h : ∀n<256,(UInt8.ofNat n &&& 0x80≠0 ↔ 128≤n) := by decide +kernel
  simpa using h b.toNat b.toNat_lt

theorem toNat_and_low (b : UInt8) : (b &&& 0x7f).toNat=b.toNat%128 := by
  have h : ∀n<256,(UInt8.ofNat n &&& 0x7f).toNat=n%128 := by decide +kernel
  simpa using h b.toNat b.toNat_lt

theorem and_low_or_sign {b : UInt8} (hb : 128≤b.toNat) : (b &&& 0x7f) ||| 0x80=b := by
  have h : ∀n<256,128≤n → (UInt8.ofNat n &&& 0x7f) ||| 0x80=UInt8.ofNat n := by decide +kernel
  simpa using h b.toNat b.toNat_lt hb

theorem toNat_or_sign {b : UInt8} (hb : b.toNat<128) : (b ||| 0x80).toNat=b.toNat+128 := by
  have h : ∀n<128,(UInt8.ofNat n ||| 0x80).toNat=n+128 := by decide +kernel
  simpa using h b.toNat hb

theorem or_sign_and_low {b : UInt8} (hb : b.toNat<128) : (b ||| 0x80) &&& 0x7f=b := by
  have h : ∀n<128,(UInt8.ofNat n ||| 0x80) &&& 0x7f=UInt8.ofNat n := by decide +kernel
  simpa using h b.toNat hb

@[simp] theorem readLength_nil : readLength []=0 := rfl

theorem readLength_eq_ofDigits (bs : List UInt8) :
    readLength bs=Nat.ofDigits 256 (bs.map UInt8.toNat) := by
  induction bs with
  | nil => rfl
  | cons b bs ih =>
    rw [List.map_cons,Nat.ofDigits_cons,← ih]
    rfl

theorem readLength_append (bs cs : List UInt8) :
    readLength (bs++cs)=readLength bs+256^bs.length*readLength cs := by
  simp only [readLength_eq_ofDigits,List.map_append,Nat.ofDigits_append,List.length_map]

theorem readLength_lt (bs : List UInt8) : readLength bs<256^bs.length := by
  have h := Nat.ofDigits_lt_base_pow_length (b:=256) (l:=bs.map UInt8.toNat) (by decide)
    (by
      intro x hx
      obtain ⟨b,-,rfl⟩ := List.mem_map.mp hx
      exact b.toNat_lt)
  rwa [← readLength_eq_ofDigits,List.length_map] at h

theorem readLength_snoc (init : List UInt8) (b : UInt8) :
    readLength (init++[b])=readLength init+256^init.length*b.toNat := by
  rw [readLength_append]
  simp [readLength]

theorem readLength_snoc_zero (init : List UInt8) : readLength (init++[0])=readLength init := by
  rw [readLength_snoc]
  simp

theorem readLength_snoc_pos (init : List UInt8) {b : UInt8} (hb : b≠0) :
    0 < readLength (init++[b]) := by
  have hb1 : 0<b.toNat := Nat.pos_of_ne_zero fun h => hb (UInt8.toNat_inj.mp h)
  have hpow : 0<256^init.length := by positivity
  have hmul : 0<256^init.length*b.toNat := Nat.mul_pos hpow hb1
  have hsum := readLength_snoc init b
  omega

theorem readLength_snoc_eq_zero (init : List UInt8) (b : UInt8) :
    readLength (init++[b])=0 ↔ readLength init=0 ∧ b=0 := by
  by_cases hb : b=0
  · simp [hb,readLength_snoc_zero]
  · have hpos := readLength_snoc_pos init hb
    simp [hb]
    omega

theorem map_toNat_absBytes (n : Nat) : (absBytes n).map UInt8.toNat=Nat.digits 256 n := by
  rw [absBytes,List.map_map]
  refine (List.map_congr_left fun d hd => ?_).trans (List.map_id _)
  have hlt : d<256 := Nat.digits_lt_base (by decide) hd
  exact UInt8.toNat_ofNat_of_lt' hlt

theorem readLength_absBytes (n : Nat) : readLength (absBytes n)=n := by
  rw [readLength_eq_ofDigits,map_toNat_absBytes,Nat.ofDigits_digits]

theorem absBytes_readLength {init : List UInt8} {b : UInt8} (hb : b≠0) :
    absBytes (readLength (init++[b]))=init++[b] := by
  have hdigits : Nat.digits 256 (readLength (init++[b]))=(init++[b]).map UInt8.toNat := by
    rw [readLength_eq_ofDigits]
    refine Nat.digits_ofDigits 256 (by decide) _ ?_ ?_
    · intro d hd
      obtain ⟨c,-,rfl⟩ := List.mem_map.mp hd
      exact c.toNat_lt
    · intro _
      simpa [List.getLast_append] using fun h => hb (UInt8.toNat_inj.mp h)
  rw [absBytes,hdigits,List.map_map]
  exact (List.map_congr_left fun c _ => UInt8.ofNat_toNat).trans (List.map_id _)

/-- The magnitude of a number other than zero ends in a byte other than zero. -/
theorem absBytes_snoc {n : Nat} (hn : n≠0) : ∃init b,absBytes n=init++[b] ∧ b≠0 := by
  have hne : Nat.digits 256 n≠[] := Nat.digits_ne_nil_iff_ne_zero.mpr hn
  have hlast := Nat.getLast_digit_ne_zero 256 hn
  have hlt : (Nat.digits 256 n).getLast hne<256 :=
    Nat.digits_lt_base (by decide) (List.getLast_mem hne)
  refine ⟨((Nat.digits 256 n).dropLast).map UInt8.ofNat,
    UInt8.ofNat ((Nat.digits 256 n).getLast hne),?_,?_⟩
  · rw [absBytes,← List.map_singleton,← List.map_append,List.dropLast_append_getLast]
  · intro h
    exact hlast ((UInt8.toNat_ofNat_of_lt' hlt).symm.trans (congrArg UInt8.toNat h))

end Bytes

section Encoding

variable {value : Int} (init : List UInt8) {b : UInt8}

theorem serialize_zero : serialize 0=[] := rfl

/-- A magnitude that fills its last byte gets one more byte for the sign. -/
theorem serialize_full (hb : 128≤b.toNat) (hvalue : value.natAbs=readLength (init++[b])) :
    serialize value=init++[b,if value<0 then 0x80 else 0] := by
  have hb0 : b≠0 := by
    rintro rfl
    exact absurd hb (by decide)
  have hpos := readLength_snoc_pos init hb0
  have hne : value≠0 := Int.natAbs_pos.mp (hvalue▸hpos)
  rw [serialize,if_neg hne,hvalue,absBytes_readLength hb0]
  simp [(and_sign b).mpr hb]

/-- Otherwise the sign goes into the last byte itself. -/
theorem serialize_low (hb0 : b≠0) (hb : b.toNat<128)
    (hvalue : value.natAbs=readLength (init++[b])) :
    serialize value=init++[if value<0 then b ||| 0x80 else b] := by
  have hpos := readLength_snoc_pos init hb0
  have hne : value≠0 := Int.natAbs_pos.mp (hvalue▸hpos)
  have hsign : ¬(b &&& 0x80≠0) := fun h => absurd ((and_sign b).mp h) (by omega)
  rw [serialize,if_neg hne,hvalue,absBytes_readLength hb0]
  by_cases hneg : value<0
  · simp [hneg,not_not.mp hsign]
  · simp [hneg,not_not.mp hsign]

theorem signedValue_snoc (b : UInt8) :
    signedValue (init++[b])=
      if 128≤b.toNat then -(readLength (init++[b &&& 0x7f]) : Int) else readLength (init++[b]) := by
  by_cases hb : 128≤b.toNat
  · simp [signedValue,hb,(and_sign b).mpr hb]
  · have hsign : b &&& 0x80=0 := not_not.mp fun h => hb ((and_sign b).mp h)
    simp [signedValue,hb,hsign]

theorem nonMinimal_snoc (b : UInt8) :
    nonMinimal (init++[b])=false ↔
      b &&& 0x7f≠0 ∨ ∃pre c,init=pre++[c] ∧ 128 ≤ c.toNat := by
  rcases List.eq_nil_or_concat init with rfl | ⟨pre,c,rfl⟩
  · simp [nonMinimal]
  · have hget : (pre.concat c++[b]).getD ((pre.concat c++[b]).length-2) 0=c := by simp
    have hlen : ¬(pre.concat c++[b]).length≤1 := by simp
    have hsign : c &&& 0x80=0 ↔ ¬128 ≤ c.toNat := by rw [← and_sign c,not_not]
    simp only [nonMinimal,hget,hlen,hsign,List.getLastD_concat,false_or,decide_eq_false_iff_not,
      not_and,not_not,ne_eq,List.append_eq_nil_iff,List.cons_ne_self]
    simp [or_iff_not_imp_left]

/-- What the check under `fRequireMinimal` passes is what `serialize` writes. -/
theorem serialize_signedValue {vch : Valtype} (h : nonMinimal vch=false) :
    serialize (signedValue vch)=vch := by
  rcases List.eq_nil_or_concat vch with rfl | ⟨init,b,rfl⟩
  · rfl
  rw [List.concat_eq_append] at h ⊢
  rw [signedValue_snoc]
  have hlow := toNat_and_low b
  by_cases hzero : b &&& 0x7f=0
  · -- The last byte holds the sign alone: the magnitude fills the byte before it.
    obtain ⟨pre,c,rfl,hc⟩ := ((nonMinimal_snoc init b).mp h).resolve_left (not_not.mpr hzero)
    have hmod : b.toNat%128=0 := by rw [← hlow,hzero]; rfl
    by_cases hb : 128≤b.toNat
    · have hb80 : b=0x80 := by simpa [hzero] using (and_low_or_sign hb).symm
      have hpos := readLength_snoc_pos pre (b:=c) (by rintro rfl; exact absurd hc (by decide))
      rw [if_pos hb,hzero,readLength_snoc_zero,serialize_full pre hc (by simp)]
      simp [hb80,hpos]
    · have hb0 : b=0 := UInt8.toNat_inj.mp (by simp; omega)
      rw [if_neg hb,hb0,readLength_snoc_zero,serialize_full pre hc (by simp)]
      simp
  · by_cases hb : 128≤b.toNat
    · have hpos := readLength_snoc_pos init hzero
      rw [if_pos hb,serialize_low init hzero (by omega) (by simp)]
      simp [hpos,and_low_or_sign hb]
    · have hb0 : b≠0 := by
        rintro rfl
        exact hzero rfl
      rw [if_neg hb,serialize_low init hb0 (by omega) (by simp)]
      simp

theorem signedValue_serialize (value : Int) : signedValue (serialize value)=value := by
  by_cases hzero : value=0
  · rw [hzero]
    rfl
  obtain ⟨init,b,habs,hb0⟩ := absBytes_snoc (Int.natAbs_ne_zero.mpr hzero)
  have hvalue : value.natAbs=readLength (init++[b]) := by rw [← habs,readLength_absBytes]
  by_cases hb : 128≤b.toNat
  · have hsplit : ∀s,init++[b,s]=(init++[b])++[s] := by simp
    rw [serialize_full init hb hvalue,hsplit,signedValue_snoc]
    by_cases hneg : value<0
    · rw [if_pos hneg,if_pos (by decide),show (0x80 : UInt8) &&& 0x7f=0 from rfl,
        readLength_snoc_zero,← hvalue]
      omega
    · rw [if_neg hneg,if_neg (by decide),readLength_snoc_zero,← hvalue]
      omega
  · rw [serialize_low init hb0 (by omega) hvalue]
    by_cases hneg : value<0
    · have hor := toNat_or_sign (b:=b) (by omega)
      rw [if_pos hneg,signedValue_snoc,if_pos (by omega),or_sign_and_low (by omega),← hvalue]
      omega
    · rw [if_neg hneg,signedValue_snoc,if_neg hb,← hvalue]
      omega

theorem nonMinimal_serialize (value : Int) : nonMinimal (serialize value)=false := by
  by_cases hzero : value=0
  · rw [hzero]
    rfl
  obtain ⟨init,b,habs,hb0⟩ := absBytes_snoc (Int.natAbs_ne_zero.mpr hzero)
  have hvalue : value.natAbs=readLength (init++[b]) := by rw [← habs,readLength_absBytes]
  by_cases hb : 128≤b.toNat
  · have hsplit : ∀s,init++[b,s]=(init++[b])++[s] := by simp
    rw [serialize_full init hb hvalue,hsplit]
    exact (nonMinimal_snoc _ _).mpr (.inr ⟨init,b,rfl,hb⟩)
  · rw [serialize_low init hb0 (by omega) hvalue]
    refine (nonMinimal_snoc _ _).mpr (.inl ?_)
    by_cases hneg : value<0
    · rwa [if_pos hneg,or_sign_and_low (by omega)]
    · rw [if_neg hneg]
      intro hlow
      have hmod := toNat_and_low b
      rw [hlow] at hmod
      exact hb0 (UInt8.toNat_inj.mp (by simp at hmod ⊢; omega))

theorem readLength_snoc_lt {k : Nat} (hb : b.toNat<128) (hk : init.length<k) :
    readLength (init++[b])<2^(8*k-1) := by
  have hinit := readLength_lt init
  have hexp : 2^(8*k-1)=256^(k-1)*128 := by
    rw [show 256=2^8 from rfl,← pow_mul,show 128=2^7 from rfl,← pow_add]
    congr 1
    omega
  have hmono : 256^init.length≤256^(k-1) := Nat.pow_le_pow_right (by decide) (by omega)
  have hsum := readLength_snoc init b
  rw [hexp]
  nlinarith

theorem natAbs_signedValue_lt {vch : Valtype} {k : Nat} (hk : vch.length≤k) :
    (signedValue vch).natAbs<2^(8*k-1) := by
  rcases List.eq_nil_or_concat vch with rfl | ⟨init,b,rfl⟩
  · simp [signedValue]
  rw [List.concat_eq_append] at hk ⊢
  have hlen : init.length<k := by simpa using hk
  rw [signedValue_snoc]
  have hlow := toNat_and_low b
  by_cases hb : 128≤b.toNat
  · rw [if_pos hb,Int.natAbs_neg,Int.natAbs_natCast]
    exact readLength_snoc_lt init (by omega) hlen
  · rw [if_neg hb,Int.natAbs_natCast]
    exact readLength_snoc_lt init (by omega) hlen

theorem length_serialize_le_iff (value : Int) (k : Nat) :
    (serialize value).length≤k ↔ value.natAbs<2^(8*k-1) := by
  constructor
  · intro hk
    simpa only [signedValue_serialize] using natAbs_signedValue_lt hk
  · intro hlt
    by_cases hzero : value=0
    · simp [hzero,serialize_zero]
    obtain ⟨init,b,habs,hb0⟩ := absBytes_snoc (Int.natAbs_ne_zero.mpr hzero)
    have hvalue : value.natAbs=readLength (init++[b]) := by rw [← habs,readLength_absBytes]
    have hsum := readLength_snoc init b
    by_contra hlong
    by_cases hb : 128≤b.toNat
    · rw [serialize_full init hb hvalue] at hlong
      have hexp : 2^(8*k-1)≤256^init.length*128 := by
        rw [show 256=2^8 from rfl,← pow_mul,show 128=2^7 from rfl,← pow_add]
        exact Nat.pow_le_pow_right (by decide) (by simp at hlong; omega)
      nlinarith
    · rw [serialize_low init hb0 (by omega) hvalue] at hlong
      have hb1 : 0<b.toNat := Nat.pos_of_ne_zero fun h => hb0 (UInt8.toNat_inj.mp h)
      have hexp : 2^(8*k-1)≤256^init.length := by
        rw [show 256=2^8 from rfl,← pow_mul]
        exact Nat.pow_le_pow_right (by decide) (by simp at hlong; omega)
      nlinarith

theorem joined_eq (vch : Valtype) (i : Nat) :
    joined vch i=BitVec.ofNat 64 (readLength vch)<<<(8*i) := by
  induction vch generalizing i with
  | nil => simp [joined]
  | cons b vch ih =>
    have hcons : readLength (b::vch)=2^8*readLength vch+b.toNat := by
      rw [Nat.add_comm]
      rfl
    have hbyte : b.toBitVec.setWidth 64=BitVec.ofNat 64 b.toNat := by simp [BitVec.toNat_eq]
    have hjoin : BitVec.ofNat 64 (readLength (b::vch))=
        BitVec.ofNat 64 b.toNat ||| BitVec.ofNat 64 (readLength vch)<<<8 := by
      rw [hcons,Nat.two_pow_add_eq_or_of_lt b.toNat_lt,BitVec.ofNat_or,BitVec.or_comm]
      congr 1
      simp [BitVec.toNat_eq,Nat.shiftLeft_eq,Nat.mul_comm]
    rw [joined,ih,hjoin,hbyte,BitVec.shiftLeft_or_distrib,← BitVec.shiftLeft_add]
    congr 2
    omega

/-- The mask takes away a bit above a number. -/
theorem clear_bit {x : BitVec 64} {k : Nat} (hx : x.toNat<2^k) :
    (x ||| 1#64<<<k) &&& ~~~(1#64<<<k)=x := by
  refine BitVec.eq_of_getLsbD_eq fun i hi => ?_
  have hlow (hk : k≤ i) : x.getLsbD i=false :=
    Nat.testBit_lt_two_pow (Nat.lt_of_lt_of_le hx (Nat.pow_le_pow_right (by decide) hk))
  simp only [BitVec.getLsbD_and,BitVec.getLsbD_or,BitVec.getLsbD_not,BitVec.getLsbD_shiftLeft,hi,
    BitVec.getLsbD_one]
  rcases Nat.lt_trichotomy i k with h | rfl | h
  · simp [h]
  · simp [hlow]
  · simp [hlow (Nat.le_of_lt h)]

theorem toInt_ofNat_low {n : Nat} (hn : n<2^63) : (BitVec.ofNat 64 n).toInt=n := by
  have hnat : (BitVec.ofNat 64 n).toNat=n := by
    rw [BitVec.toNat_ofNat]
    exact Nat.mod_eq_of_lt (by omega)
  rw [BitVec.toInt_eq_toNat_of_lt (by omega),hnat]

/-- Without its sign a last byte leaves the number below. -/
theorem readLength_sign (hb : 128≤b.toNat) :
    readLength (init++[b])=2^(8*init.length+7)*1+readLength (init++[b &&& 0x7f]) := by
  have hlt := b.toNat_lt
  have hbyte : b.toNat=128+b.toNat%128 := by omega
  have hpow : 2^(8*init.length+7)=256^init.length*128 := by
    rw [pow_add,pow_mul]
    norm_num
  rw [readLength_snoc,readLength_snoc,toNat_and_low,hpow]
  nth_rewrite 1 [hbyte]
  ring

/-- Up to eight bytes the 64 bits hold the number. -/
theorem setVch_eq {vch : Valtype} (h : vch.length≤8) : setVch vch=signedValue vch := by
  rcases List.eq_nil_or_concat vch with rfl | ⟨init,b,rfl⟩
  · rfl
  rw [List.concat_eq_append] at h ⊢
  have hlen : init.length<8 := by simpa using h
  have hlast : (init++[b]).getLastD 0=b := by simp
  rw [signedValue_snoc,setVch,joined_eq,hlast]
  by_cases hb : 128≤b.toNat
  · have hlow : (b &&& 0x7f).toNat<128 := by
      rw [toNat_and_low]
      omega
    have hvalue := readLength_snoc_lt init hlow hlen
    have hfits : readLength (init++[b &&& 0x7f])<2^(8*init.length+7) :=
      readLength_snoc_lt init hlow (Nat.lt_succ_self init.length)
    have hsign : 0x80#64<<<(8*((init++[b]).length-1))=1#64<<<(8*init.length+7) := by
      rw [Nat.add_comm,BitVec.shiftLeft_add,List.length_append]
      rfl
    have hmask : BitVec.ofNat 64 (readLength (init++[b]))=
        BitVec.ofNat 64 (readLength (init++[b &&& 0x7f])) ||| 1#64<<<(8*init.length+7) := by
      rw [readLength_sign init hb,Nat.two_pow_add_eq_or_of_lt hfits,BitVec.ofNat_or,BitVec.or_comm]
      congr 1
      simp [BitVec.toNat_eq,Nat.shiftLeft_eq]
    rw [if_pos ((and_sign b).mpr hb),if_pos hb,Nat.mul_zero,BitVec.shiftLeft_zero,hsign,hmask,
      clear_bit,toInt_ofNat_low hvalue]
    rw [BitVec.toNat_ofNat]
    exact Nat.lt_of_le_of_lt (Nat.mod_le _ _) hfits
  · rw [if_neg fun hsign => hb ((and_sign b).mp hsign),if_neg hb]
    have hvalue := readLength_snoc_lt init (not_le.mp hb) hlen
    simpa using toInt_ofNat_low hvalue

theorem cScriptNum_ok_iff {vch : Valtype} {fRequireMinimal : Bool} {k : Nat} {value : Int} :
    cScriptNum vch fRequireMinimal k=.ok value ↔
      vch.length≤k ∧ (fRequireMinimal → nonMinimal vch=false) ∧ setVch vch=value := by
  rw [cScriptNum]
  split
  · simp
    omega
  · split
    · simp_all
    · cases fRequireMinimal <;> simp_all

/-- Under `fRequireMinimal` the stack elements a number can be read from and the numbers of
`k` bytes with a sign are in bijection, by `serialize`. -/
theorem cScriptNum_minimal_iff (vch : Valtype) (k : Nat) (hk : k≤8) (value : Int) :
    cScriptNum vch true k=.ok value ↔ vch=serialize value ∧ value.natAbs<2^(8*k-1) := by
  rw [cScriptNum_ok_iff,← length_serialize_le_iff]
  constructor
  · rintro ⟨hlen,hminimal,rfl⟩
    rw [setVch_eq (hlen.trans hk),serialize_signedValue (hminimal rfl)]
    exact ⟨rfl,hlen⟩
  · rintro ⟨rfl,hlen⟩
    refine ⟨hlen,fun _ => nonMinimal_serialize value,?_⟩
    rw [setVch_eq (hlen.trans hk),signedValue_serialize]

/-- The largest number of four bytes is read back, also with its sign. -/
theorem cScriptNum_minimal_four :
    cScriptNum [0xff,0xff,0xff,0xff] true nDefaultMaxNumSize=.ok (-(2^31-1)) := by
  rw [cScriptNum_minimal_iff _ nDefaultMaxNumSize (by decide)]
  decide +kernel

end Encoding

section Truth

theorem castToBool_snoc (init : List UInt8) (b : UInt8) :
    castToBool (init++[b])=true ↔ readLength init≠0 ∨ (b≠0 ∧ b≠0x80) := by
  induction init with
  | nil =>
    by_cases hb : b=0
    · simp [castToBool,hb]
    · simp [castToBool,hb]
  | cons c init ih =>
    have hcons : readLength (c::init)=c.toNat+256*readLength init := rfl
    by_cases hc : c=0
    · rw [hc] at hcons ⊢
      simp [castToBool,ih,hcons]
    · have hc1 : c.toNat≠0 := fun h => hc (UInt8.toNat_inj.mp h)
      simp [castToBool,hc,hcons,hc1]

/-- What `CastToBool` takes for false is what reads as the number zero. -/
theorem castToBool_iff (vch : Valtype) : castToBool vch=true ↔ signedValue vch≠0 := by
  rcases List.eq_nil_or_concat vch with rfl | ⟨init,b,rfl⟩
  · simp [castToBool,signedValue]
  have hlow := toNat_and_low b
  rw [List.concat_eq_append,castToBool_snoc,signedValue_snoc]
  by_cases hb : 128≤b.toNat
  · have hb0 : b≠0 := by
      rintro rfl
      exact absurd hb (by decide)
    have hsign : b &&& 0x7f=0 ↔ b=0x80 := by
      refine ⟨fun h => ?_,fun h => by rw [h]; rfl⟩
      simpa [h] using (and_low_or_sign hb).symm
    simp only [if_pos hb,ne_eq,neg_eq_zero,Int.natCast_eq_zero,readLength_snoc_eq_zero,hsign,
      not_and_or]
    simp [hb0]
  · have hb80 : b≠0x80 := by
      rintro rfl
      exact hb (by decide)
    simp only [if_neg hb,ne_eq,Int.natCast_eq_zero,readLength_snoc_eq_zero,not_and_or]
    simp [hb80]

end Truth

end Zdeex.Script
