import Zdeex.Framework.Limbs
import Zdeex.Pow.ArithUint256

namespace Zdeex.Pow

open Zdeex.Framework Limbs

def WIDTH : Nat := 8

/-- `base_uint<256>` in its 32-bit words, lowest word first. -/
structure BaseUint where
  pn : List (BitVec 32)
  length_pn : pn.length=WIDTH

namespace BaseUint

/-- The number that the words stand for. -/
def val (a : BaseUint) : Nat := value a.pn

theorem val_lt (a : BaseUint) : a.val<2^256 := by
  have hlt := value_lt a.pn
  rwa [a.length_pn] at hlt

def ofUint64 (b : BitVec 64) : BaseUint :=
  ⟨b.setWidth 32::(b>>>32).setWidth 32::List.replicate (WIDTH-2) 0,rfl⟩

/-- `UintToArith256`. -/
def uintToArith256 (a : BitVec 256) : BaseUint :=
  ⟨(List.range WIDTH).map fun x => a.extractLsb' (32*x) 32,by simp⟩

/-- The inner loop of `operator<<=`, for shifts by `k` words and `shift` bits. -/
def shlWords (a : List (BitVec 32)) (k shift : Nat) : List (BitVec 32) :=
  (List.range WIDTH).foldl (fun pn i =>
    let pn := if i+k+1<WIDTH ∧ shift≠0 then orAt pn (i+k+1) (a.getD i 0>>>(32-shift)) else pn
    if i+k<WIDTH then orAt pn (i+k) (a.getD i 0<<<shift) else pn) (List.replicate WIDTH 0)

/-- The inner loop of `operator>>=`. -/
def shrWords (a : List (BitVec 32)) (k shift : Nat) : List (BitVec 32) :=
  (List.range WIDTH).foldl (fun pn i =>
    let pn := if k+1 ≤ i ∧ shift≠0 then orAt pn (i-k-1) (a.getD i 0<<<(32-shift)) else pn
    if k ≤ i then orAt pn (i-k) (a.getD i 0>>>shift) else pn) (List.replicate WIDTH 0)

/-- What round `i` adds to bit `p`, in the upper and in the lower word it writes to. -/
def shlBit (a : List (BitVec 32)) (k shift p i : Nat) : Bool :=
  (decide (i+k+1<WIDTH ∧ shift≠0) && (p/32==i+k+1 &&
    (a.getD i 0>>>(32-shift)).getLsbD (p%32))) ||
  (decide (i+k<WIDTH) && (p/32==i+k && (a.getD i 0<<<shift).getLsbD (p%32)))

def shrBit (a : List (BitVec 32)) (k shift p i : Nat) : Bool :=
  (decide (k+1 ≤ i ∧ shift≠0) && (p/32==i-k-1 && (a.getD i 0<<<(32-shift)).getLsbD (p%32))) ||
  (decide (k ≤ i) && (p/32==i-k && (a.getD i 0>>>shift).getLsbD (p%32)))

theorem bit_shlWords (a : List (BitVec 32)) (k shift p : Nat) :
    (shlWords a k shift).length=WIDTH ∧
      bit (shlWords a k shift) p=(List.range WIDTH).any (shlBit a k shift p) := by
  have hzero : (List.replicate WIDTH 0#32).length=WIDTH := List.length_replicate
  have hloop := bit_foldl (l := List.range WIDTH) (p := p) (c := shlBit a k shift p)
    (f := fun pn i =>
      let pn := if i+k+1<WIDTH ∧ shift≠0 then orAt pn (i+k+1) (a.getD i 0>>>(32-shift)) else pn
      if i+k<WIDTH then orAt pn (i+k) (a.getD i 0<<<shift) else pn)
    (fun i _ ws hws => ?_) hzero
  · rwa [bit_replicate,Bool.false_or] at hloop
  · obtain ⟨hlen,hbit⟩ := @bit_if_orAt ws (i+k+1) (i+k+1<WIDTH ∧ shift≠0) _
      (fun hc => hws ▸ hc.1) (a.getD i 0>>>(32-shift)) p
    obtain ⟨hlen',hbit'⟩ := bit_if_orAt (i := i+k) (c := i+k<WIDTH)
      (fun hc => (hlen.trans hws) ▸ hc) (a.getD i 0<<<shift) p
    exact ⟨hlen'.trans (hlen.trans hws),by rw [hbit',hbit,Bool.or_assoc]; rfl⟩

theorem bit_shrWords (a : List (BitVec 32)) (k shift p : Nat) :
    (shrWords a k shift).length=WIDTH ∧
      bit (shrWords a k shift) p=(List.range WIDTH).any (shrBit a k shift p) := by
  have hzero : (List.replicate WIDTH 0#32).length=WIDTH := List.length_replicate
  have hloop := bit_foldl (l := List.range WIDTH) (p := p) (c := shrBit a k shift p)
    (f := fun pn i =>
      let pn := if k+1 ≤ i ∧ shift≠0 then orAt pn (i-k-1) (a.getD i 0<<<(32-shift)) else pn
      if k ≤ i then orAt pn (i-k) (a.getD i 0>>>shift) else pn)
    (fun i hi ws hws => ?_) hzero
  · rwa [bit_replicate,Bool.false_or] at hloop
  · have hlt := List.mem_range.mp hi
    obtain ⟨hlen,hbit⟩ := @bit_if_orAt ws (i-k-1) (k+1 ≤ i ∧ shift≠0) _
      (fun _ => by omega) (a.getD i 0<<<(32-shift)) p
    obtain ⟨hlen',hbit'⟩ := bit_if_orAt (i := i-k) (c := k ≤ i)
      (fun _ => by rw [hlen]; omega) (a.getD i 0>>>shift) p
    exact ⟨hlen'.trans (hlen.trans hws),by rw [hbit',hbit,Bool.or_assoc]; rfl⟩

theorem bit_shl {a : List (BitVec 32)} {k shift : Nat} (hs : shift<32) (p : Nat) :
    bit (shlWords a k shift) p=
      (decide (p<256 ∧ 32*k+shift≤p) && bit a (p-(32*k+shift))) := by
  have hwidth : WIDTH=8 := rfl
  rw [(bit_shlWords a k shift p).2,Bool.eq_iff_iff,List.any_eq_true]
  simp only [shlBit,Bool.or_eq_true,Bool.and_eq_true,decide_eq_true_eq,beq_iff_eq,List.mem_range,
    BitVec.getLsbD_ushiftRight,BitVec.getLsbD_shiftLeft,Bool.not_eq_true',decide_eq_false_iff_not]
  constructor
  · rintro ⟨i,hi,⟨⟨hi',hne⟩,hj,hbit⟩ | ⟨hi',hj,hbit⟩⟩
    · have hlow := BitVec.lt_of_getLsbD hbit
      have hpos : p-(32*k+shift)=32*i+(32-shift+p%32) := by omega
      exact ⟨by omega,by rw [hpos,bit_word a i hlow]; exact hbit⟩
    · have hpos : p-(32*k+shift)=32*i+(p%32-shift) := by omega
      exact ⟨by omega,by rw [hpos,bit_word a i (by omega)]; exact hbit.2⟩
  · rintro ⟨⟨hp,hle⟩,hbit⟩
    by_cases hlow : p%32<shift
    · have hpos : p-(32*k+shift)=32*(p/32-k-1)+(32-shift+p%32) := by omega
      rw [hpos,bit_word _ _ (by omega)] at hbit
      exact ⟨p/32-k-1,by omega,.inl ⟨by omega,by omega,hbit⟩⟩
    · have hpos : p-(32*k+shift)=32*(p/32-k)+(p%32-shift) := by omega
      rw [hpos,bit_word _ _ (by omega)] at hbit
      exact ⟨p/32-k,by omega,.inr ⟨by omega,by omega,by omega,hbit⟩⟩

theorem bit_shr {a : List (BitVec 32)} {k shift : Nat} (ha : a.length=WIDTH) (hs : shift<32)
    (p : Nat) : bit (shrWords a k shift) p=bit a (p+(32*k+shift)) := by
  have hwidth : WIDTH=8 := rfl
  rw [(bit_shrWords a k shift p).2,Bool.eq_iff_iff,List.any_eq_true]
  simp only [shrBit,Bool.or_eq_true,Bool.and_eq_true,decide_eq_true_eq,beq_iff_eq,List.mem_range,
    BitVec.getLsbD_ushiftRight,BitVec.getLsbD_shiftLeft,Bool.not_eq_true',decide_eq_false_iff_not]
  constructor
  · rintro ⟨i,hi,⟨⟨hi',hne⟩,hj,hbit⟩ | ⟨hi',hj,hbit⟩⟩
    · have hpos : p+(32*k+shift)=32*i+(p%32-(32-shift)) := by omega
      rw [hpos,bit_word a i (by omega)]
      exact hbit.2
    · have hlow := BitVec.lt_of_getLsbD hbit
      have hpos : p+(32*k+shift)=32*i+(shift+p%32) := by omega
      rw [hpos,bit_word a i hlow]
      exact hbit
  · intro hbit
    have hlt : p+(32*k+shift)<32*WIDTH := by
      by_contra hcon
      rw [bit_of_le (by rw [ha]; omega)] at hbit
      cases hbit
    by_cases hlow : p%32+shift<32
    · have hpos : p+(32*k+shift)=32*(p/32+k)+(shift+p%32) := by omega
      rw [hpos,bit_word _ _ (by omega)] at hbit
      exact ⟨p/32+k,by omega,.inr ⟨by omega,by omega,hbit⟩⟩
    · have hpos : p+(32*k+shift)=32*(p/32+k+1)+(p%32-(32-shift)) := by omega
      rw [hpos,bit_word _ _ (by omega)] at hbit
      exact ⟨p/32+k+1,by omega,.inl ⟨by omega,by omega,by omega,hbit⟩⟩

/-- `operator<<=`. -/
def shl (a : BaseUint) (shift : Nat) : BaseUint :=
  ⟨shlWords a.pn (shift/32) (shift%32),(bit_shlWords a.pn _ _ 0).1⟩

/-- `operator>>=`. -/
def shr (a : BaseUint) (shift : Nat) : BaseUint :=
  ⟨shrWords a.pn (shift/32) (shift%32),(bit_shrWords a.pn _ _ 0).1⟩

@[simp] theorem val_shl (a : BaseUint) (shift : Nat) : (a.shl shift).val=a.val*2^shift%2^256 := by
  apply value_eq_of_bit
  intro p
  have hshift : 32*(shift/32)+shift%32=shift := Nat.div_add_mod shift 32
  have hbit := bit_shl (a := a.pn) (k := shift/32) (Nat.mod_lt shift (by decide)) p
  rw [hshift] at hbit
  refine hbit.trans ?_
  rw [Nat.testBit_mod_two_pow,← Nat.shiftLeft_eq,Nat.testBit_shiftLeft,val,testBit_value,
    Bool.decide_and,Bool.and_assoc]

@[simp] theorem val_shr (a : BaseUint) (shift : Nat) : (a.shr shift).val=a.val/2^shift := by
  apply value_eq_of_bit
  intro p
  have hshift : 32*(shift/32)+shift%32=shift := Nat.div_add_mod shift 32
  have hbit := bit_shr (k := shift/32) a.length_pn (Nat.mod_lt shift (by decide)) p
  rw [hshift] at hbit
  rw [← Nat.shiftRight_eq_div_pow,Nat.testBit_shiftRight,val,testBit_value,Nat.add_comm]
  exact hbit

/-- `operator~`. -/
def compl (a : BaseUint) : BaseUint :=
  ⟨a.pn.map fun w => ~~~w,(List.length_map _).trans a.length_pn⟩

/-- `operator++`. -/
def inc (a : BaseUint) : BaseUint := ⟨increment a.pn,(length_increment _).trans a.length_pn⟩

/-- The unary `operator-`. -/
def neg (a : BaseUint) : BaseUint := a.compl.inc

/-- `operator+=`. -/
def add (a b : BaseUint) : BaseUint :=
  ⟨addCarry 0 a.pn b.pn,(length_addCarry _ (a.length_pn.trans b.length_pn.symm)).trans a.length_pn⟩

/-- `operator-=`. -/
def sub (a b : BaseUint) : BaseUint := a.add b.neg

/-- `operator*=` of a 32-bit factor. -/
def mulWord (a : BaseUint) (b32 : BitVec 32) : BaseUint :=
  ⟨mulCarry 0 b32 a.pn,(length_mulCarry ..).trans a.length_pn⟩

/-- `operator*=`, row by row on a copy. -/
def mul (a b : BaseUint) : BaseUint :=
  ⟨(List.range WIDTH).foldl (mulRow a.pn b.pn) (List.replicate WIDTH 0),
    (@mulRows _ _ (List.replicate WIDTH 0) (by simp [b.length_pn]) (by simp [a.length_pn])
      (value_replicate WIDTH) _ (by simp)).1.trans List.length_replicate⟩

/-- The test for null pointers does not fire on objects. -/
def compareTo (a b : BaseUint) : Int := compareBelow a.pn b.pn WIDTH

/-- The loop of `EqualTo` over the words from 2 on. -/
def equalTo (a : BaseUint) (b : BitVec 64) : Bool :=
  (a.pn.drop 2).all (·==0) && a.pn.getD 1 0==(b>>>32).setWidth 32 &&
    a.pn.getD 0 0==(b &&& 0xffffffff).setWidth 32

def getLow64 (a : BaseUint) : BitVec 64 :=
  (a.pn.getD 0 0).setWidth 64 ||| (a.pn.getD 1 0).setWidth 64<<<32

/-- The inner loop of `bits`, over the bits of word `pos` below `bits+1`. -/
def bitsOfWord (w : BitVec 32) (pos : Nat) : Nat → Nat
  | 0 => 32*pos+1
  | bits+1 => if w &&& 1#32<<<(bits+1)≠0 then 32*pos+(bits+1)+1 else bitsOfWord w pos bits

def bitsBelow (pn : List (BitVec 32)) : Nat → Nat
  | 0 => 0
  | pos+1 => if pn.getD pos 0≠0 then bitsOfWord (pn.getD pos 0) pos 31 else bitsBelow pn pos

def bits (a : BaseUint) : Nat := bitsBelow a.pn WIDTH

/-- Sets a bit of the result of a division. -/
def setBit (a : BaseUint) (shift : Nat) : BaseUint :=
  ⟨orAt a.pn (shift/32) (1#32<<<(shift%32)),(length_orAt ..).trans a.length_pn⟩

/-- The loop of `operator/=` with `shift` one ahead; `q` is the quotient so far. -/
def divLoop : Nat → BaseUint → BaseUint → BaseUint → BaseUint
  | 0,_,_,q => q
  | shift+1,num,div,q =>
      if num.compareTo div≥0 then divLoop shift (num.sub div) (div.shr 1) (q.setBit shift)
      else divLoop shift num (div.shr 1) q

/-- `operator/=`. -/
def div (a b : BaseUint) : Except String BaseUint :=
  let num_bits := a.bits
  let div_bits := b.bits
  if div_bits=0 then .error "Division by zero"
  else if div_bits>num_bits then .ok (ofUint64 0)
  else .ok (divLoop (num_bits-div_bits+1) a (b.shl (num_bits-div_bits)) (ofUint64 0))

@[simp] theorem val_ofUint64 (b : BitVec 64) : (ofUint64 b).val=b.toNat := by
  have hb := b.isLt
  have hzero : value (List.replicate (WIDTH-2) 0)=0 := value_replicate _
  simp only [ofUint64,val,value,hzero,BitVec.toNat_setWidth,BitVec.toNat_ushiftRight,
    Nat.shiftRight_eq_div_pow]
  omega

@[simp] theorem val_uintToArith256 (a : BitVec 256) : (uintToArith256 a).val=a.toNat := by
  apply value_eq_of_bit
  intro p
  rw [← BitVec.getLsbD]
  by_cases hp : p<256
  · have hword : 32*(p/32)+p%32=p := Nat.div_add_mod p 32
    have hin : p/32<WIDTH := by
      rw [WIDTH]
      omega
    have hget : ((List.range WIDTH).map fun x => a.extractLsb' (32*x) 32).getD (p/32) 0=
        a.extractLsb' (32*(p/32)) 32 := by
      simp [List.getD_eq_getElem?_getD,List.getElem?_range hin]
    rw [uintToArith256,bit,hget,BitVec.getLsbD_extractLsb',hword]
    simp [Nat.mod_lt p (by decide : 0<32)]
  · have hlen : 32*(uintToArith256 a).pn.length≤p := by
      rw [(uintToArith256 a).length_pn,WIDTH]
      omega
    rw [bit_of_le hlen,BitVec.getLsbD_of_ge _ _ (by omega)]

@[simp] theorem val_compl (a : BaseUint) : a.compl.val=2^256-1-a.val := by
  have h := value_map_not a.pn
  rwa [a.length_pn] at h

@[simp] theorem val_inc (a : BaseUint) : a.inc.val=(a.val+1)%2^256 := by
  have h := value_increment a.pn
  rwa [a.length_pn] at h

@[simp] theorem val_add (a b : BaseUint) : (a.add b).val=(a.val+b.val)%2^256 := by
  have h := @value_addCarry 0 (by decide) _ _ (a.length_pn.trans b.length_pn.symm)
  rw [a.length_pn] at h
  exact h.trans (by simp [val,WIDTH])

@[simp] theorem val_sub (a b : BaseUint) : (a.sub b).val=(a.val+(2^256-b.val))%2^256 := by
  have hb := b.val_lt
  rw [sub,val_add,neg,val_inc,val_compl]
  omega

@[simp] theorem val_mulWord (a : BaseUint) (b32 : BitVec 32) :
    (a.mulWord b32).val=a.val*b32.toNat%2^256 := by
  have h := @value_mulCarry 0 (by decide) b32 a.pn
  rw [a.length_pn] at h
  rw [Nat.mul_comm]
  exact h.trans (by simp [val,WIDTH])

@[simp] theorem val_mul (a b : BaseUint) : (a.mul b).val=a.val*b.val%2^256 := by
  have hb : (List.replicate WIDTH 0#32).length≤b.pn.length := by simp [b.length_pn]
  have ha : a.pn.length=(List.replicate WIDTH 0#32).length := by simp [a.length_pn]
  have h := (mulRows hb ha (value_replicate WIDTH) (j := WIDTH) (by simp)).2
  rw [List.take_of_length_le a.length_pn.le,List.length_replicate] at h
  exact h

theorem compareTo_eq (a b : BaseUint) : a.compareTo b=((a.val : Int)-b.val).sign := by
  have h := compareBelow_eq (i := WIDTH) a.length_pn.ge b.length_pn.ge
  rwa [List.take_of_length_le a.length_pn.le,List.take_of_length_le b.length_pn.le] at h

theorem compareTo_pos (a b : BaseUint) : a.compareTo b>0 ↔ b.val<a.val := by
  rw [compareTo_eq,gt_iff_lt,Int.sign_pos_iff]
  omega

theorem compareTo_neg (a b : BaseUint) : a.compareTo b<0 ↔ a.val<b.val := by
  rw [compareTo_eq,Int.sign_neg_iff]
  omega

theorem compareTo_nonneg (a b : BaseUint) : a.compareTo b≥0 ↔ b.val≤a.val := by
  rw [compareTo_eq,ge_iff_le,Int.sign_nonneg_iff]
  omega

theorem words_inj {a b : List Word} (hlen : a.length=b.length) (h : value a=value b) : a=b := by
  induction a generalizing b with
  | nil => exact (List.length_eq_zero_iff.mp hlen.symm).symm
  | cons w ws ih =>
    cases b with
    | nil => cases hlen
    | cons v vs =>
      have hw := w.isLt
      have hv := v.isLt
      rw [value,value] at h
      have hword : w=v := BitVec.eq_of_toNat_eq (by omega)
      have hrest : ws=vs := ih (Nat.succ.inj hlen) (by omega)
      rw [hword,hrest]

theorem pn_eq_iff (a b : BaseUint) : a.pn=b.pn ↔ a.val=b.val := by
  refine ⟨congrArg value,fun h => words_inj ?_ h⟩
  rw [a.length_pn,b.length_pn]

theorem bitsOfWord_eq {w : BitVec 32} (pos : Nat) {n : Nat} (hn : n<32) (hw : w≠0)
    (hhigh : ∀j,n<j → w.getLsbD j=false) :
    ∃b<32,bitsOfWord w pos n=32*pos+b+1 ∧ w.getLsbD b=true ∧ ∀j,b<j → w.getLsbD j=false := by
  have hmask : ∀b<32,w &&& 1#32<<<b≠0 ↔ w.getLsbD b=true := by
    intro b hb
    rw [← BitVec.twoPow_eq,BitVec.and_twoPow]
    split_ifs with hbit
    · refine iff_of_true (fun hzero => ?_) hbit
      have hlost := congrArg (fun x => x.getLsbD b) hzero
      simp [hb] at hlost
    · exact iff_of_false (fun h => h rfl) hbit
  induction n with
  | zero =>
    refine ⟨0,by decide,rfl,?_,hhigh⟩
    by_contra hlow
    apply hw
    apply BitVec.eq_of_getLsbD_eq
    intro j _
    rcases Nat.eq_zero_or_pos j with rfl | hj
    · simpa using hlow
    · rw [hhigh j hj]
      exact BitVec.getLsbD_zero.symm
  | succ n ih =>
    rw [bitsOfWord]
    by_cases hbit : w.getLsbD (n+1)=true
    · rw [if_pos ((hmask _ hn).mpr hbit)]
      exact ⟨n+1,hn,rfl,hbit,hhigh⟩
    · rw [if_neg (fun h => hbit ((hmask _ hn).mp h))]
      refine ih (by omega) fun j hj => ?_
      rcases Nat.eq_or_lt_of_le (Nat.succ_le_of_lt hj) with rfl | hlt
      · simpa using hbit
      · exact hhigh j hlt

theorem bitsBelow_eq {pn : List (BitVec 32)} {n : Nat} (hhigh : ∀p,32*n≤p → bit pn p=false) :
    bitsBelow pn n=(value pn).size := by
  induction n with
  | zero =>
    have hzero : value pn=0 := value_eq_of_bit fun p => by rw [hhigh p (by omega),Nat.zero_testBit]
    rw [hzero]
    rfl
  | succ n ih =>
    rw [bitsBelow]
    by_cases hw : pn.getD n 0=0
    · rw [if_neg (not_not.mpr hw)]
      refine ih fun p hp => ?_
      by_cases hp' : 32*(n+1)≤p
      · exact hhigh p hp'
      · have hpos : p=32*n+(p-32*n) := by omega
        rw [hpos,bit_word _ _ (by omega),hw]
        exact BitVec.getLsbD_zero
    · rw [if_pos hw]
      obtain ⟨b,hb,heq,hset,hclear⟩ := bitsOfWord_eq n (w := pn.getD n 0) (n := 31) (by decide) hw
        fun j hj => BitVec.getLsbD_of_ge _ _ (by omega)
      rw [heq]
      refine (size_of_topBit ?_ fun j hj => ?_).symm
      · rw [testBit_value,bit_word _ _ hb,hset]
      · rw [testBit_value]
        by_cases hj' : 32*(n+1)≤j
        · exact hhigh j hj'
        · have hpos : j=32*n+(j-32*n) := by omega
          rw [hpos,bit_word _ _ (by omega)]
          exact hclear _ (by omega)

theorem bits_eq (a : BaseUint) : a.bits=a.val.size :=
  bitsBelow_eq fun _ hp => bit_of_le (by rwa [a.length_pn])

theorem getLow64_toNat (a : BaseUint) : a.getLow64.toNat=a.val%2^64 := by
  apply Nat.eq_of_testBit_eq
  intro p
  have hlow : ∀i,((a.pn.getD i 0).setWidth 64).getLsbD p=
      (decide (p<64) && (a.pn.getD i 0).getLsbD p) := fun i => BitVec.getLsbD_setWidth ..
  rw [Nat.testBit_mod_two_pow,val,testBit_value,← BitVec.getLsbD,getLow64,BitVec.getLsbD_or,
    BitVec.getLsbD_shiftLeft,hlow,BitVec.getLsbD_setWidth]
  by_cases hp : p<32
  · have hbit : bit a.pn p=(a.pn.getD 0 0).getLsbD p := by
      conv_lhs => rw [show p=32*0+p by omega,bit_word a.pn 0 hp]
    rw [hbit]
    simp [hp]
  · by_cases hp' : p<64
    · have hnone : (a.pn.getD 0 0).getLsbD p=false := BitVec.getLsbD_of_ge _ _ (by omega)
      have hbit : bit a.pn p=(a.pn.getD 1 0).getLsbD (p-32) := by
        conv_lhs => rw [show p=32*1+(p-32) by omega,bit_word a.pn 1 (by omega)]
      have hshort : p-32<64 := by omega
      rw [hnone,hbit]
      simp [hp,hp',hshort]
    · simp [hp']

theorem val_setBit {a : BaseUint} {shift : Nat} (hs : shift<256) (ha : 2^(shift+1)∣a.val) :
    (a.setBit shift).val=a.val+2^shift := by
  obtain ⟨q,hq⟩ := ha
  have hor : a.val+2^shift=a.val ||| 2^shift := by
    rw [hq]
    exact Nat.two_pow_add_eq_or_of_lt (Nat.pow_lt_pow_right (by decide) (by omega)) q
  apply value_eq_of_bit
  intro p
  have hpos : shift/32<a.pn.length := by rw [a.length_pn,WIDTH]; omega
  refine (bit_orAt hpos _ p).trans ?_
  rw [hor,Nat.testBit_or,val,testBit_value,Nat.testBit_two_pow,← BitVec.twoPow_eq,
    BitVec.getLsbD_twoPow]
  congr 1
  rw [Bool.eq_iff_iff]
  simp only [Bool.and_eq_true,beq_iff_eq,decide_eq_true_eq]
  omega

/-- The remainder stays below twice the shifted divisor, and the quotient has no bit that is
still to be set. -/
theorem val_divLoop {d : Nat} (hd : 0<d) : ∀{n : Nat} {num div q : BaseUint},n≤256 →
    num.val<d*2^n → div.val=d*2^n/2 → 2^n∣q.val →
      (divLoop n num div q).val=longDivision d n num.val q.val
  | 0,num,div,q,_,_,_,_ => rfl
  | shift+1,num,div,q,hn,hnum,hdiv,hq => by
    have hhalf : d*2^(shift+1)/2=d*2^shift := by
      rw [pow_succ,← Nat.mul_assoc,Nat.mul_div_cancel _ (by decide)]
    rw [hhalf] at hdiv
    have hpow : d*2^(shift+1)=d*2^shift+d*2^shift := by ring
    have hnext : (div.shr 1).val=d*2^shift/2 := by rw [val_shr,hdiv,pow_one]
    have hlt := num.val_lt
    rw [divLoop,longDivision]
    by_cases hge : d*2^shift≤num.val
    · have hsub : (num.sub div).val=num.val-d*2^shift := by
        rw [val_sub,hdiv]
        omega
      have hset := @val_setBit q shift (by omega) hq
      rw [if_pos ((compareTo_nonneg num div).mpr (hdiv ▸ hge)),if_pos hge,
        val_divLoop hd (by omega) (by omega) hnext ?_,hsub,hset]
      rw [hset]
      exact (Nat.dvd_add_left dvd_rfl).mpr (dvd_trans (pow_dvd_pow 2 (Nat.le_succ shift)) hq)
    · rw [if_neg (fun h => hge (hdiv ▸ (compareTo_nonneg num div).mp h)),if_neg hge]
      exact val_divLoop hd (by omega) (by omega) hnext
        (dvd_trans (pow_dvd_pow 2 (Nat.le_succ shift)) hq)

/-- Division is exact, and throws for a divisor of zero and for no other. -/
theorem div_spec (a b : BaseUint) :
    (b.val=0 → a.div b=.error "Division by zero") ∧
      (b.val≠0 → ∃q,a.div b=.ok q ∧ q.val=a.val/b.val) := by
  unfold div
  dsimp only
  rw [bits_eq,bits_eq]
  refine ⟨fun hzero => if_pos (by rw [hzero]; rfl),fun hne => ?_⟩
  have hpos : b.val.size≠0 := fun h => hne (Nat.size_eq_zero.mp h)
  rw [if_neg hpos]
  split_ifs with hshort
  · have hlt : a.val<b.val := by
      have hle : 2^a.val.size≤b.val := Nat.lt_size.mp hshort
      exact (Nat.lt_size_self a.val).trans_le hle
    exact ⟨_,rfl,by rw [val_ofUint64,Nat.div_eq_of_lt hlt]; rfl⟩
  · have hsize : a.val.size≤256 := Nat.size_le.mpr a.val_lt
    have hshift : 2^(b.val.size-1)≤b.val := Nat.lt_size.mp (by omega)
    have hsum : 2^a.val.size=2^(b.val.size-1)*2^(a.val.size-b.val.size+1) := by
      rw [← pow_add]
      congr 1
      omega
    have hnum : a.val<b.val*2^(a.val.size-b.val.size+1) := by
      refine (Nat.lt_size_self a.val).trans_le ?_
      rw [hsum]
      exact Nat.mul_le_mul_right _ hshift
    have hroom : b.val*2^(a.val.size-b.val.size)<2^256 := by
      have hb := Nat.lt_size_self b.val
      have hpow : 2^b.val.size*2^(a.val.size-b.val.size)=2^a.val.size := by
        rw [← pow_add]
        congr 1
        omega
      calc b.val*2^(a.val.size-b.val.size)<2^b.val.size*2^(a.val.size-b.val.size) :=
            Nat.mul_lt_mul_of_pos_right hb (Nat.two_pow_pos _)
        _=2^a.val.size := hpow
        _≤2^256 := Nat.pow_le_pow_right (by decide) hsize
    have hdiv : (b.shl (a.val.size-b.val.size)).val=b.val*2^(a.val.size-b.val.size+1)/2 := by
      rw [val_shl,Nat.mod_eq_of_lt hroom,pow_succ,← Nat.mul_assoc,Nat.mul_div_cancel _ (by decide)]
    refine ⟨_,rfl,?_⟩
    rw [val_divLoop (Nat.pos_of_ne_zero hne) (by omega) hnum hdiv (by simp),
      longDivision_eq (Nat.pos_of_ne_zero hne) hnum,val_ofUint64]
    exact Nat.zero_add _

theorem equalTo_zero (a : BaseUint) : a.equalTo 0=true ↔ a.val=0 := by
  obtain ⟨pn,hpn⟩ := a
  obtain ⟨x,y,ws,rfl⟩ : ∃x y ws,pn=x::y::ws := by
    match pn,hpn with
    | x::y::ws,_ => exact ⟨x,y,ws,rfl⟩
  rw [val,value_eq_zero]
  simp [equalTo,and_comm]

/-- The operators on words are arithmetic modulo 2^256. -/
theorem words_compute (a b : BaseUint) (b32 : BitVec 32) (shift : Nat) :
    (a.mulWord b32).val=a.val*b32.toNat%2^256 ∧ (a.mul b).val=a.val*b.val%2^256 ∧
      (a.div b).map val=(if b.val=0 then .error "Division by zero" else .ok (a.val/b.val)) ∧
      (a.shl shift).val=a.val*2^shift%2^256 ∧ (a.shr shift).val=a.val/2^shift ∧
      (a.bits=0 ↔ a.val=0) ∧ ∀p,a.bits=p+1 ↔ 2^p≤a.val ∧ a.val<2^(p+1) := by
  have hdiv : (a.div b).map val=if b.val=0 then .error "Division by zero" else .ok (a.val/b.val) := by
    split_ifs with hb
    · rw [(div_spec a b).1 hb]
      rfl
    · obtain ⟨q,hq,hval⟩ := (div_spec a b).2 hb
      rw [hq,← hval]
      rfl
  refine ⟨val_mulWord a b32,val_mul a b,hdiv,val_shl a shift,val_shr a shift,?_,fun p => ?_⟩
  · rw [bits_eq,Nat.size_eq_zero]
  · have hlow : p<a.val.size ↔ 2^p≤a.val := Nat.lt_size
    have hhigh : a.val.size≤p+1 ↔ a.val<2^(p+1) := Nat.size_le
    rw [bits_eq,← hlow,← hhigh]
    omega

end BaseUint

end Zdeex.Pow
