import Mathlib.Data.List.Induction
import Mathlib.Logic.Function.Iterate
import Zdeex.Framework.BitStream

namespace Zdeex.Equihash

open Zdeex.Framework

section Definitions

/-- `((uint32_t)1 << bit_len) - 1`. -/
def bitLenMask (bit_len : Nat) : Nat := 2^bit_len-1

/-- The accumulator of `ExpandArray` with what has been written. -/
structure Expanding where
  acc_bits : Nat
  acc_value : Nat
  out : List Byte
  deriving DecidableEq

/-- The next output element. -/
def expandElement (acc_bits acc_value bit_len byte_pad out_width : Nat) : List Byte :=
  (List.range out_width).map fun x =>
    if x<byte_pad then 0
    else BitVec.ofNat 8 ((acc_value >>> (acc_bits+8*(out_width-x-1))) &&&
      ((bitLenMask bit_len >>> (8*(out_width-x-1))) &&& 0xFF))

def expandRound (bit_len byte_pad : Nat) (s : Expanding) (b : Byte) : Expanding :=
  let out_width := (bit_len+7)/8+byte_pad
  let acc_value := (s.acc_value <<< 8)%2^32 ||| b.toNat
  let acc_bits := s.acc_bits+8
  if bit_len≤acc_bits then
    ⟨acc_bits-bit_len,acc_value,
      s.out++expandElement (acc_bits-bit_len) acc_value bit_len byte_pad out_width⟩
  else ⟨acc_bits,acc_value,s.out⟩

def expandState (input : List Byte) (bit_len byte_pad : Nat) : Expanding :=
  input.foldl (expandRound bit_len byte_pad) ⟨0,0,[]⟩

/-- `ExpandArray`; no result where an assertion fails. -/
def expandArray (input : List Byte) (out_len bit_len byte_pad : Nat) : Option (List Byte) :=
  let out_width := (bit_len+7)/8+byte_pad
  if 8≤bit_len ∧ bit_len≤32 ∧ out_len=8*out_width*input.length/bit_len then
    some (expandState input bit_len byte_pad).out
  else none

structure Compressing where
  acc_bits : Nat
  acc_value : Nat
  j : Nat
  out : List Byte
  deriving DecidableEq

variable (input : List Byte) (bit_len byte_pad : Nat)

/-- The accumulator with the bytes of the input element at `j`. -/
def readElement (in_width j acc_value : Nat) : Nat :=
  (List.range' byte_pad (in_width-byte_pad)).foldl (fun acc x =>
    acc ||| (((input.getD (j+x) 0).toNat &&&
      ((bitLenMask bit_len >>> (8*(in_width-x-1))) &&& 0xFF)) <<< (8*(in_width-x-1))))
    ((acc_value <<< bit_len)%2^32)

/-- At least eight bits in the accumulator: an input element, or zeros behind the last one. -/
def refill (s : Compressing) : Compressing :=
  let in_width := (bit_len+7)/8+byte_pad
  if s.acc_bits<8 then
    if s.j < input.length then
      {s with
        acc_bits := s.acc_bits+bit_len
        acc_value := readElement input bit_len byte_pad in_width s.j s.acc_value
        j := s.j+in_width}
    else {s with acc_bits := 8,acc_value := (s.acc_value <<< (8-s.acc_bits))%2^32}
  else s

def compressRound (s : Compressing) : Compressing :=
  let t := refill input bit_len byte_pad s
  {t with
    acc_bits := t.acc_bits-8
    out := t.out++[BitVec.ofNat 8 ((t.acc_value >>> (t.acc_bits-8)) &&& 0xFF)]}

def compressState (rounds : Nat) : Compressing :=
  (compressRound input bit_len byte_pad)^[rounds] ⟨0,0,0,[]⟩

/-- `CompressArray`; no result where an assertion fails. -/
def compressArray (out_len : Nat) : Option (List Byte) :=
  let in_width := (bit_len+7)/8+byte_pad
  if 8≤bit_len ∧ bit_len≤32 ∧ out_len=(bit_len*input.length/in_width+7)/8 then
    some (compressState input bit_len byte_pad out_len).out
  else none

/-- Big-endian. -/
def ehIndexToArray (i : Nat) : List Byte := bytesBE 4 i

def arrayToEhIndex (array : List Byte) : Nat :=
  (array.take 4).foldl (fun i b => i*256+b.toNat) 0

def getIndicesFromMinimal (minimal : List Byte) (cBitLen : Nat) : Option (List Nat) :=
  if (cBitLen+1+7)/8≤4 then
    let lenIndices := 8*4*minimal.length/(cBitLen+1)
    let bytePad := 4-(cBitLen+1+7)/8
    (expandArray minimal lenIndices (cBitLen+1) bytePad).map fun array =>
      (List.range ((lenIndices+3)/4)).map fun i => arrayToEhIndex (array.drop (4*i))
  else none

def getMinimalFromIndices (indices : List Nat) (cBitLen : Nat) : Option (List Byte) :=
  if (cBitLen+1+7)/8≤4 then
    let lenIndices := indices.length*4
    let minLen := (cBitLen+1)*lenIndices/(8*4)
    let bytePad := 4-(cBitLen+1+7)/8
    compressArray (indices.flatMap ehIndexToArray) (cBitLen+1) bytePad minLen
  else none

end Definitions

section Expand

variable {bit_len byte_pad : Nat}

/-- The bits that are read are those of the elements and those of the accumulator. -/
structure Expanded (bit_len byte_pad : Nat) (input : List Byte) (s : Expanding)
    (vs : List Nat) : Prop where
  out : s.out=vs.flatMap (bytesBE ((bit_len+7)/8+byte_pad))
  elements : ∀v∈vs,v<2^bit_len
  acc_bits : s.acc_bits<bit_len
  bits : streamBits input=vs.flatMap (bitsBE bit_len)++bitsBE s.acc_bits s.acc_value

theorem expandElement_eq (acc_bits acc_value : Nat) :
    expandElement acc_bits acc_value bit_len byte_pad ((bit_len+7)/8+byte_pad)=
      bytesBE ((bit_len+7)/8+byte_pad) ((acc_value >>> acc_bits)%2^bit_len) := by
  refine List.map_congr_left fun x hx => ?_
  rw [List.mem_range] at hx
  by_cases hpad : x<byte_pad
  · rw [if_pos hpad]
    have hpow : 2^bit_len≤2^(8*((bit_len+7)/8+byte_pad-x-1)) :=
      Nat.pow_le_pow_right (by decide) (by omega)
    have hlt := (Nat.mod_lt (acc_value >>> acc_bits) (Nat.two_pow_pos bit_len)).trans_le hpow
    rw [Nat.shiftRight_eq_div_pow,Nat.div_eq_of_lt hlt]
    rfl
  · rw [if_neg hpad]
    apply BitVec.eq_of_getLsbD_eq
    intro i hi
    rw [BitVec.getLsbD_ofNat,BitVec.getLsbD_ofNat,Nat.testBit_and,Nat.testBit_and,
      Nat.testBit_shiftRight,Nat.testBit_shiftRight,Nat.testBit_shiftRight,
      Nat.testBit_mod_two_pow,Nat.testBit_shiftRight,bitLenMask,Nat.testBit_two_pow_sub_one,
      Nat.testBit_two_pow_sub_one (n := 8)]
    have hplace : acc_bits+8*((bit_len+7)/8+byte_pad-x-1)+i=
        acc_bits+(8*((bit_len+7)/8+byte_pad-x-1)+i) := by omega
    rw [hplace]
    simp only [hi,decide_true,Bool.and_true]
    exact congrArg _ (Bool.and_comm _ _)

theorem expandRound_expanded {input : List Byte} {s : Expanding} {vs : List Nat}
    (h : Expanded bit_len byte_pad input s vs) (hlow : 8≤bit_len) (hfits : s.acc_bits+8≤32)
    (b : Byte) :
    ∃vs',Expanded bit_len byte_pad (input++[b]) (expandRound bit_len byte_pad s b) vs' := by
  have hbyte : streamBits (input++[b])=vs.flatMap (bitsBE bit_len)++
      bitsBE (s.acc_bits+8) ((s.acc_value <<< 8)%2^32 ||| b.toNat) := by
    have hone : streamBits [b]=bitsBE 8 b.toNat := List.append_nil _
    rw [streamBits_append,h.bits,hone,List.append_assoc,bitsBE_push _ hfits b.isLt]
  unfold expandRound
  dsimp only
  split_ifs with hfull
  · have hsplit : s.acc_bits+8=bit_len+(s.acc_bits+8-bit_len) := by omega
    have hbits := hbyte
    rw [hsplit,bitsBE_add,← bitsBE_mod bit_len,← List.append_assoc] at hbits
    refine ⟨vs++[(((s.acc_value <<< 8)%2^32 ||| b.toNat) >>> (s.acc_bits+8-bit_len))%2^bit_len],
      ?_,?_,?_,?_⟩
    · dsimp only
      rw [h.out,expandElement_eq,List.flatMap_append,List.flatMap_singleton]
    · intro v hv
      rcases List.mem_append.mp hv with hv | hv
      · exact h.elements v hv
      · rw [List.mem_singleton.mp hv]
        exact Nat.mod_lt _ (Nat.two_pow_pos bit_len)
    · have hbefore := h.acc_bits
      dsimp only
      omega
    · rw [hbits,List.flatMap_append,List.flatMap_singleton]
  · refine ⟨vs,h.out,h.elements,?_,hbyte⟩
    dsimp only
    omega

theorem Expanded.length {input : List Byte} {s : Expanding} {vs : List Nat}
    (h : Expanded bit_len byte_pad input s vs) :
    8*input.length=bit_len*vs.length+s.acc_bits := by
  have hlen := congrArg List.length h.bits
  rwa [length_streamBits,List.length_append,length_flatMap_bitsBE,length_bitsBE] at hlen

/-- What is left in the accumulator depends on the number of bytes only. -/
theorem Expanded.acc_bits_eq {input : List Byte} {s : Expanding} {vs : List Nat}
    (h : Expanded bit_len byte_pad input s vs) : s.acc_bits=8*input.length%bit_len := by
  rw [h.length,Nat.mul_add_mod,Nat.mod_eq_of_lt h.acc_bits]

/-- The widths for which 32 bits are enough. -/
def WidthFits (bit_len : Nat) : Prop := 8≤bit_len ∧ (bit_len≤25 ∨ bit_len=26)

theorem residue_fits (h : WidthFits bit_len) (n : Nat) : 8*n%bit_len+8≤32 := by
  obtain ⟨hlow,hsmall | rfl⟩ := h
  · have hlt := Nat.mod_lt (8*n) (by omega : 0<bit_len)
    omega
  · omega

theorem expandState_expanded (h : WidthFits bit_len) (input : List Byte) :
    ∃vs,Expanded bit_len byte_pad input (expandState input bit_len byte_pad) vs := by
  induction input using List.reverseRecOn with
  | nil => exact ⟨[],rfl,by simp,(by decide : 0<8).trans_le h.1,rfl⟩
  | append_singleton input b ih =>
    obtain ⟨vs,hvs⟩ := ih
    have hfits : (expandState input bit_len byte_pad).acc_bits+8≤32 := by
      rw [hvs.acc_bits_eq]
      exact residue_fits h input.length
    have hround := expandRound_expanded hvs h.1 hfits b
    rw [expandState,List.foldl_append]
    exact hround

end Expand

section Compress

variable {bit_len byte_pad : Nat} {vs : List Nat}

/-- The bits of several numbers that are put together. -/
theorem testBit_foldl_or (f : Nat → Nat) (l : List Nat) (a i : Nat) :
    (l.foldl (fun acc x => acc ||| f x) a).testBit i=
      (a.testBit i || l.any fun x => (f x).testBit i) := by
  induction l generalizing a with
  | nil => simp
  | cons x l ih => rw [List.foldl_cons,ih,Nat.testBit_or,List.any_cons,Bool.or_assoc]

/-- An element is read as the number that its bytes hold. -/
theorem readElement_eq {k : Nat} (hk : k<vs.length) (hv : vs.getD k 0<2^bit_len)
    (acc_value : Nat) :
    readElement (vs.flatMap (bytesBE ((bit_len+7)/8+byte_pad))) bit_len byte_pad
      ((bit_len+7)/8+byte_pad) (((bit_len+7)/8+byte_pad)*k) acc_value=
        ((acc_value <<< bit_len)%2^32 ||| vs.getD k 0) := by
  set v := vs.getD k 0 with hvdef
  set n := (bit_len+7)/8+byte_pad with hn
  apply Nat.eq_of_testBit_eq
  intro i
  rw [readElement,testBit_foldl_or,Nat.testBit_or]
  congr 1
  have hbyte : ∀x∈List.range' byte_pad (n-byte_pad),
      ((((vs.flatMap (bytesBE n)).getD (n*k+x) 0).toNat &&&
        ((bitLenMask bit_len >>> (8*(n-x-1))) &&& 0xFF)) <<< (8*(n-x-1))).testBit i=
        decide (8*(n-x-1) ≤ i ∧ i<8*(n-x-1)+8 ∧ v.testBit i=true) := by
    intro x hx
    rw [List.mem_range'_1] at hx
    rw [getD_flatMap_bytesBE hk (by omega),BitVec.toNat_ofNat,Nat.testBit_shiftLeft,
      Nat.testBit_and,Nat.testBit_mod_two_pow,Nat.testBit_and,Nat.testBit_shiftRight,
      Nat.testBit_shiftRight,bitLenMask,Nat.testBit_two_pow_sub_one,
      Nat.testBit_two_pow_sub_one (n := 8)]
    by_cases hle : 8*(n-x-1) ≤ i
    · have hplace : 8*(n-x-1)+(i-8*(n-x-1))=i := by omega
      rw [hplace,← hvdef]
      by_cases hbit : v.testBit i=true
      · have hi : i<bit_len := by
          by_contra hno
          have hpow : 2^bit_len≤2^i := Nat.pow_le_pow_right (by decide) (by omega)
          rw [Nat.testBit_eq_false_of_lt (hv.trans_le hpow)] at hbit
          cases hbit
        simp [hle,hbit,hi]
        omega
      · simp [hbit]
    · simp [hle]
  have hany : (List.range' byte_pad (n-byte_pad)).any (fun x =>
      ((((vs.flatMap (bytesBE n)).getD (n*k+x) 0).toNat &&&
        ((bitLenMask bit_len >>> (8*(n-x-1))) &&& 0xFF)) <<< (8*(n-x-1))).testBit i)=true ↔
        v.testBit i=true := by
    rw [List.any_eq_true]
    constructor
    · rintro ⟨x,hx,hset⟩
      rw [hbyte x hx] at hset
      exact (of_decide_eq_true hset).2.2
    · intro hset
      have hi : i<bit_len := by
        by_contra hno
        have hpow : 2^bit_len≤2^i := Nat.pow_le_pow_right (by decide) (by omega)
        rw [Nat.testBit_eq_false_of_lt (hv.trans_le hpow)] at hset
        cases hset
      refine ⟨n-1-i/8,?_,?_⟩
      · rw [List.mem_range'_1]
        omega
      · rw [hbyte _ (by rw [List.mem_range'_1]; omega)]
        exact decide_eq_true ⟨by omega,by omega,hset⟩
  exact Bool.eq_iff_iff.mpr hany

/-- The bits of the elements that are read are those written and those of the accumulator. -/
structure Compressed (bit_len byte_pad : Nat) (vs : List Nat) (rounds : Nat) (s : Compressing)
    (read : Nat) : Prop where
  read_le : read≤vs.length
  j : s.j=((bit_len+7)/8+byte_pad)*read
  length : s.out.length=rounds
  bits : (vs.take read).flatMap (bitsBE bit_len)=
    streamBits s.out++bitsBE s.acc_bits s.acc_value

theorem Compressed.bits_length {rounds read : Nat} {s : Compressing}
    (h : Compressed bit_len byte_pad vs rounds s read) :
    bit_len*read=8*rounds+s.acc_bits := by
  have hlen := congrArg List.length h.bits
  have htake := h.read_le
  rw [length_flatMap_bitsBE,List.length_take,Nat.min_eq_left htake,List.length_append,
    length_streamBits,h.length,length_bitsBE] at hlen
  exact hlen

theorem length_flatMap_bytesBE (n : Nat) (vs : List Nat) :
    (vs.flatMap (bytesBE n)).length=n*vs.length := by
  induction vs with
  | nil => rfl
  | cons v vs ih =>
    rw [List.flatMap_cons,List.length_append,ih,length_bytesBE,List.length_cons,Nat.mul_add]
    omega

/-- When the accumulator runs low there is another element, and room for it. -/
theorem room_for_element (h : WidthFits bit_len) {out_len : Nat}
    (hsize : 8*out_len=bit_len*vs.length) {rounds read : Nat} {s : Compressing}
    (hs : Compressed bit_len byte_pad vs rounds s read) (hround : rounds<out_len)
    (hlow : s.acc_bits<8) : read<vs.length ∧ s.acc_bits+bit_len≤32 := by
  have hbits := hs.bits_length
  have hread := hs.read_le
  refine ⟨?_,?_⟩
  · rcases Nat.lt_or_eq_of_le hread with hlt | rfl
    · exact hlt
    · omega
  · obtain ⟨-,hsmall | rfl⟩ := h
    · omega
    · omega

/-- The rest of a round once the accumulator holds eight bits. -/
theorem compressed_write {rounds read : Nat} {t : Compressing}
    (h : Compressed bit_len byte_pad vs rounds t read) (hfull : 8≤t.acc_bits) :
    Compressed bit_len byte_pad vs (rounds+1)
      {t with
        acc_bits := t.acc_bits-8
        out := t.out++[BitVec.ofNat 8 ((t.acc_value >>> (t.acc_bits-8)) &&& 0xFF)]} read := by
  refine ⟨h.read_le,h.j,by simp [h.length],?_⟩
  have hbyte : streamBits [BitVec.ofNat 8 ((t.acc_value >>> (t.acc_bits-8)) &&& 0xFF)]=
      bitsBE 8 (t.acc_value >>> (t.acc_bits-8)) := by
    have hmask : (t.acc_value >>> (t.acc_bits-8)) &&& 0xFF=
        (t.acc_value >>> (t.acc_bits-8))%2^8 := Nat.and_two_pow_sub_one_eq_mod _ 8
    rw [streamBits,List.flatMap_singleton,BitVec.toNat_ofNat,hmask,Nat.mod_mod,bitsBE_mod]
  have hsplit : t.acc_bits=8+(t.acc_bits-8) := by omega
  have hbits := h.bits
  rw [hsplit,bitsBE_add,← hbyte,← List.append_assoc,← streamBits_append] at hbits
  exact hbits

theorem compressRound_compressed (h : WidthFits bit_len) (hvs : ∀v∈vs,v<2^bit_len)
    {out_len : Nat} (hsize : 8*out_len=bit_len*vs.length) {rounds read : Nat} {s : Compressing}
    (hs : Compressed bit_len byte_pad vs rounds s read) (hround : rounds<out_len) :
    ∃read',Compressed bit_len byte_pad vs (rounds+1)
      (compressRound (vs.flatMap (bytesBE ((bit_len+7)/8+byte_pad))) bit_len byte_pad s) read' := by
  unfold compressRound refill
  dsimp only
  by_cases hlow : s.acc_bits<8
  · obtain ⟨hread,hfits⟩ := room_for_element h hsize hs hround hlow
    have hinside : s.j<(vs.flatMap (bytesBE ((bit_len+7)/8+byte_pad))).length := by
      rw [hs.j,length_flatMap_bytesBE]
      exact Nat.mul_lt_mul_of_pos_left hread (by have := h.1; omega)
    have hvalue : vs.getD read 0<2^bit_len := by
      rw [List.getD_eq_getElem _ _ hread]
      exact hvs _ (List.getElem_mem hread)
    have hnext : Compressed bit_len byte_pad vs rounds
        {s with
          acc_bits := s.acc_bits+bit_len
          acc_value := readElement (vs.flatMap (bytesBE ((bit_len+7)/8+byte_pad))) bit_len byte_pad
            ((bit_len+7)/8+byte_pad) s.j s.acc_value
          j := s.j+((bit_len+7)/8+byte_pad)} (read+1) := by
      refine ⟨hread,?_,hs.length,?_⟩
      · dsimp only
        rw [hs.j,Nat.mul_add,Nat.mul_one]
      · dsimp only
        rw [hs.j,readElement_eq hread hvalue,bitsBE_push _ hfits hvalue,← List.append_assoc,
          ← hs.bits,List.take_succ_eq_append_getElem hread,List.flatMap_append,
          List.flatMap_singleton,List.getD_eq_getElem _ _ hread]
    rw [if_pos hlow,if_pos hinside]
    exact ⟨read+1,compressed_write hnext (by have := h.1; dsimp only; omega)⟩
  · rw [if_neg hlow]
    exact ⟨read,compressed_write hs (by omega)⟩

theorem compressState_compressed (h : WidthFits bit_len) (hvs : ∀v∈vs,v<2^bit_len)
    {out_len : Nat} (hsize : 8*out_len=bit_len*vs.length) {rounds : Nat} (hrounds : rounds≤out_len) :
    ∃read,Compressed bit_len byte_pad vs rounds
      (compressState (vs.flatMap (bytesBE ((bit_len+7)/8+byte_pad))) bit_len byte_pad rounds)
      read := by
  induction rounds with
  | zero => exact ⟨0,Nat.zero_le _,by rfl,rfl,rfl⟩
  | succ rounds ih =>
    obtain ⟨read,hs⟩ := ih (by omega)
    rw [compressState,Function.iterate_succ_apply']
    exact compressRound_compressed h hvs hsize hs (by omega)

/-- In the end all elements are written, and nothing is left in the accumulator. -/
theorem compressState_bits (h : WidthFits bit_len) (hvs : ∀v∈vs,v<2^bit_len)
    {out_len : Nat} (hsize : 8*out_len=bit_len*vs.length) :
    streamBits (compressState (vs.flatMap (bytesBE ((bit_len+7)/8+byte_pad))) bit_len byte_pad
        out_len).out=vs.flatMap (bitsBE bit_len) ∧
      (compressState (vs.flatMap (bytesBE ((bit_len+7)/8+byte_pad))) bit_len byte_pad
        out_len).out.length=out_len := by
  obtain ⟨read,hs⟩ : ∃read,Compressed bit_len byte_pad vs out_len
      (compressState (vs.flatMap (bytesBE ((bit_len+7)/8+byte_pad))) bit_len byte_pad out_len)
      read := compressState_compressed h hvs hsize le_rfl
  have hlen := hs.bits_length
  have hbits := hs.bits
  have hread : read=vs.length := by
    have hle := hs.read_le
    have hpos := h.1
    by_contra hne
    have hlt : bit_len*read<bit_len*vs.length :=
      Nat.mul_lt_mul_of_pos_left (by omega) (by omega)
    omega
  subst hread
  have hempty : (compressState (vs.flatMap (bytesBE ((bit_len+7)/8+byte_pad))) bit_len byte_pad
      out_len).acc_bits=0 := by omega
  rw [hempty,List.take_length,bitsBE,List.append_nil] at hbits
  exact ⟨hbits.symm,hs.length⟩

end Compress

section Minimal

/-- The parameters for which the solver and the verifier are instantiated. -/
def supported : List (Nat × Nat) := [(200,9),(150,5),(144,5),(96,5),(48,5),(210,9)]

def collisionBitLength (N K : Nat) : Nat := N/(K+1)

def solutionWidth (N K : Nat) : Nat := 2^K*(collisionBitLength N K+1)/8

/-- Every step of `ExpandArray` finds room for another byte in its 32 bits. -/
def ExpandLossless (input : List Byte) (bit_len byte_pad : Nat) : Prop :=
  ∀k < input.length,(expandState (input.take k) bit_len byte_pad).acc_bits+8≤32

/-- Whenever `CompressArray` needs more bits there is another element, and room for it. -/
def CompressLossless (input : List Byte) (bit_len byte_pad out_len : Nat) : Prop :=
  ∀k<out_len,(compressState input bit_len byte_pad k).acc_bits<8 →
    (compressState input bit_len byte_pad k).j < input.length ∧
      (compressState input bit_len byte_pad k).acc_bits+bit_len≤32

theorem widthFits_of_supported {N K : Nat} (h : (N,K)∈supported) :
    WidthFits (collisionBitLength N K+1) ∧
      8*solutionWidth N K=(collisionBitLength N K+1)*2^K := by
  simp only [supported,List.mem_cons,Prod.mk.injEq,List.not_mem_nil,or_false] at h
  rcases h with ⟨rfl,rfl⟩ | ⟨rfl,rfl⟩ | ⟨rfl,rfl⟩ | ⟨rfl,rfl⟩ | ⟨rfl,rfl⟩ | ⟨rfl,rfl⟩ <;>
  exact ⟨⟨by decide,by decide⟩,by decide⟩

theorem arrayToEhIndex_bytesBE {v : Nat} (hv : v<2^32) (rest : List Byte) :
    arrayToEhIndex (bytesBE 4 v++rest)=v := by
  have htake : (bytesBE 4 v++rest).take 4=bytesBE 4 v := List.take_left' (length_bytesBE 4 v)
  rw [arrayToEhIndex,htake]
  have hbytes : bytesBE 4 v=[BitVec.ofNat 8 (v >>> 24),BitVec.ofNat 8 (v >>> 16),
      BitVec.ofNat 8 (v >>> 8),BitVec.ofNat 8 (v >>> 0)] := rfl
  rw [hbytes]
  simp only [List.foldl_cons,List.foldl_nil,BitVec.toNat_ofNat,Nat.shiftRight_eq_div_pow]
  omega

theorem drop_flatMap_bytesBE (n : Nat) {vs : List Nat} {k : Nat} (hk : k<vs.length) :
    (vs.flatMap (bytesBE n)).drop (n*k)=bytesBE n vs[k]++(vs.drop (k+1)).flatMap (bytesBE n) := by
  induction vs generalizing k with
  | nil => simp at hk
  | cons v vs ih =>
    cases k with
    | zero => simp
    | succ k =>
      have hplace : n*(k+1)=n+n*k := by rw [Nat.mul_add]; omega
      rw [List.flatMap_cons,hplace,← List.drop_drop,List.drop_left' (length_bytesBE n v),
        ih (by simpa using hk)]
      rfl

/-- The indices that the bytes of their array hold. -/
theorem map_arrayToEhIndex {vs : List Nat} (hvs : ∀v∈vs,v<2^32) :
    ((List.range vs.length).map fun i => arrayToEhIndex ((vs.flatMap (bytesBE 4)).drop (4*i)))=
      vs := by
  apply List.ext_getElem (by simp)
  intro i hi hi'
  rw [List.getElem_map,List.getElem_range,drop_flatMap_bytesBE 4 hi',
    arrayToEhIndex_bytesBE (hvs _ (List.getElem_mem hi'))]

variable {cBitLen n : Nat}

theorem pad_width (h : WidthFits (cBitLen+1)) :
    (cBitLen+1+7)/8≤4 ∧ (cBitLen+1+7)/8+(4-(cBitLen+1+7)/8)=4 := by
  have hlow := h.1
  have hhigh := h.2
  omega

/-- The numbers whose bits in a row are the bytes of a minimal encoding. -/
theorem getIndicesFromMinimal_spec (h : WidthFits (cBitLen+1)) {minimal : List Byte}
    (hsize : 8*minimal.length=(cBitLen+1)*n) :
    ∃xs,getIndicesFromMinimal minimal cBitLen=some xs ∧ xs.length=n ∧ (∀x∈xs,x<2^(cBitLen+1)) ∧
      streamBits minimal=xs.flatMap (bitsBE (cBitLen+1)) ∧
      ExpandLossless minimal (cBitLen+1) (4-(cBitLen+1+7)/8) := by
  obtain ⟨hpad,hwidth⟩ := pad_width h
  obtain ⟨hlow,hhigh⟩ := h
  obtain ⟨xs,hxs⟩ : ∃xs,Expanded (cBitLen+1) (4-(cBitLen+1+7)/8) minimal
      (expandState minimal (cBitLen+1) (4-(cBitLen+1+7)/8)) xs :=
    expandState_expanded ⟨hlow,hhigh⟩ minimal
  have hempty : (expandState minimal (cBitLen+1) (4-(cBitLen+1+7)/8)).acc_bits=0 := by
    rw [hxs.acc_bits_eq,hsize,Nat.mul_mod_right]
  have hcount : xs.length=n := by
    have hlen := hxs.length
    rw [hempty,hsize,Nat.add_zero] at hlen
    exact (Nat.eq_of_mul_eq_mul_left (by omega) hlen).symm
  have hout := hxs.out
  have hbits := hxs.bits
  rw [hwidth] at hout
  rw [hempty,bitsBE,List.append_nil] at hbits
  have hindices : 8*4*minimal.length/(cBitLen+1)=4*n := by
    have hmul : 8*4*minimal.length=(cBitLen+1)*(4*n) := by
      calc 8*4*minimal.length=4*(8*minimal.length) := by ring
        _=(cBitLen+1)*(4*n) := by rw [hsize]; ring
    rw [hmul,Nat.mul_div_cancel_left _ (by omega)]
  have hassert : 8 ≤ cBitLen+1 ∧ cBitLen+1≤32 ∧ 4*n=4*n := ⟨hlow,by omega,rfl⟩
  refine ⟨xs,?_,hcount,hxs.elements,hbits,fun k hk => ?_⟩
  · have hsmall : ∀x∈xs,x<2^32 := fun x hx =>
      (hxs.elements x hx).trans_le (Nat.pow_le_pow_right (by decide) (by omega))
    have hrounds : (4*n+3)/4=xs.length := by omega
    unfold getIndicesFromMinimal expandArray
    dsimp only
    rw [if_pos hpad,hwidth,hindices,if_pos hassert,Option.map_some,hout,hrounds,
      map_arrayToEhIndex hsmall]
  · obtain ⟨vs,hvs⟩ : ∃vs,Expanded (cBitLen+1) (4-(cBitLen+1+7)/8) (minimal.take k)
        (expandState (minimal.take k) (cBitLen+1) (4-(cBitLen+1+7)/8)) vs :=
      expandState_expanded ⟨hlow,hhigh⟩ _
    rw [hvs.acc_bits_eq]
    exact residue_fits ⟨hlow,hhigh⟩ _

theorem getMinimalFromIndices_spec (h : WidthFits (cBitLen+1)) {xs : List Nat} {width : Nat}
    (hsize : 8*width=(cBitLen+1)*xs.length) (hxs : ∀x∈xs,x<2^(cBitLen+1)) :
    ∃minimal,getMinimalFromIndices xs cBitLen=some minimal ∧ minimal.length=width ∧
      streamBits minimal=xs.flatMap (bitsBE (cBitLen+1)) ∧
      CompressLossless (xs.flatMap ehIndexToArray) (cBitLen+1) (4-(cBitLen+1+7)/8) width := by
  obtain ⟨hpad,hwidth⟩ := pad_width h
  obtain ⟨hlow,hhigh⟩ := h
  have hlen : (xs.flatMap ehIndexToArray).length=4*xs.length := length_flatMap_bytesBE 4 xs
  have hmin : (cBitLen+1)*(xs.length*4)/(8*4)=width := by
    have hmul : (cBitLen+1)*(xs.length*4)=8*4*width := by
      calc (cBitLen+1)*(xs.length*4)=4*((cBitLen+1)*xs.length) := by ring
        _=8*4*width := by rw [← hsize]; ring
    rw [hmul,Nat.mul_div_cancel_left _ (by decide)]
  have hout : width=((cBitLen+1)*(xs.flatMap ehIndexToArray).length/4+7)/8 := by
    have hmul : (cBitLen+1)*(4*xs.length)=4*(8*width) := by
      rw [hsize]
      ring
    rw [hlen,hmul,Nat.mul_div_cancel_left _ (by decide)]
    omega
  have hassert : 8 ≤ cBitLen+1 ∧ cBitLen+1≤32 ∧
      width=((cBitLen+1)*(xs.flatMap ehIndexToArray).length/4+7)/8 := ⟨hlow,by omega,hout⟩
  have harray : xs.flatMap ehIndexToArray=
      xs.flatMap (bytesBE ((cBitLen+1+7)/8+(4-(cBitLen+1+7)/8))) := by
    rw [hwidth]
    rfl
  refine ⟨(compressState (xs.flatMap ehIndexToArray) (cBitLen+1) (4-(cBitLen+1+7)/8) width).out,
    ?_,?_,?_,?_⟩
  · unfold getMinimalFromIndices compressArray
    dsimp only
    rw [if_pos hpad,hwidth,hmin,if_pos hassert]
  · rw [harray]
    exact (compressState_bits ⟨hlow,hhigh⟩ hxs hsize).2
  · rw [harray]
    exact (compressState_bits ⟨hlow,hhigh⟩ hxs hsize).1
  · intro k hk hlowbits
    rw [harray] at hlowbits ⊢
    obtain ⟨read,hs⟩ : ∃read,Compressed (cBitLen+1) (4-(cBitLen+1+7)/8) xs k
        (compressState (xs.flatMap (bytesBE ((cBitLen+1+7)/8+(4-(cBitLen+1+7)/8)))) (cBitLen+1)
          (4-(cBitLen+1+7)/8) k) read :=
      compressState_compressed ⟨hlow,hhigh⟩ hxs hsize (by omega)
    obtain ⟨hread,hfits⟩ := room_for_element ⟨hlow,hhigh⟩ hsize hs hk hlowbits
    refine ⟨?_,hfits⟩
    rw [hs.j,length_flatMap_bytesBE,hwidth]
    omega

/-- Encoding and decoding are inverse to each other, no assertion fails, and the accumulator
loses no bit. -/
theorem minimal_encoding_bijective {N K : Nat} (h : (N,K)∈supported) :
    (∀xs : List Nat,xs.length=2^K → (∀x∈xs,x<2^(collisionBitLength N K+1)) →
      ∃minimal,getMinimalFromIndices xs (collisionBitLength N K)=some minimal ∧
        minimal.length=solutionWidth N K ∧
        getIndicesFromMinimal minimal (collisionBitLength N K)=some xs ∧
        CompressLossless (xs.flatMap ehIndexToArray) (collisionBitLength N K+1)
          (4-(collisionBitLength N K+1+7)/8) (solutionWidth N K) ∧
        ExpandLossless minimal (collisionBitLength N K+1) (4-(collisionBitLength N K+1+7)/8)) ∧
    (∀minimal : List Byte,minimal.length=solutionWidth N K →
      ∃xs,getIndicesFromMinimal minimal (collisionBitLength N K)=some xs ∧ xs.length=2^K ∧
        (∀x∈xs,x<2^(collisionBitLength N K+1)) ∧
        getMinimalFromIndices xs (collisionBitLength N K)=some minimal ∧
        ExpandLossless minimal (collisionBitLength N K+1) (4-(collisionBitLength N K+1+7)/8) ∧
        CompressLossless (xs.flatMap ehIndexToArray) (collisionBitLength N K+1)
          (4-(collisionBitLength N K+1+7)/8) (solutionWidth N K)) := by
  obtain ⟨hfits,hwidth⟩ := widthFits_of_supported h
  constructor
  · intro xs hlen hxs
    obtain ⟨minimal,hminimal,hsize,hbits,hcompress⟩ :=
      getMinimalFromIndices_spec hfits (by rw [hwidth,hlen]) hxs
    obtain ⟨ys,hys,-,hsmall,hbits',hexpand⟩ := getIndicesFromMinimal_spec (n := 2^K) hfits
      (by rw [hsize,hwidth])
    have hsame : ys=xs :=
      flatMap_bitsBE_inj (by omega) hsmall hxs (hbits'.symm.trans hbits)
    exact ⟨minimal,hminimal,hsize,by rw [hys,hsame],hcompress,hexpand⟩
  · intro minimal hsize
    obtain ⟨xs,hxs,hlen,hsmall,hbits,hexpand⟩ := getIndicesFromMinimal_spec (n := 2^K) hfits
      (by rw [hsize,hwidth])
    obtain ⟨minimal',hminimal,-,hbits',hcompress⟩ :=
      getMinimalFromIndices_spec hfits (by rw [hwidth,hlen]) hsmall
    have hsame : minimal'=minimal := streamBits_inj (hbits'.trans hbits.symm)
    exact ⟨xs,hxs,hlen,hsmall,by rw [hminimal,hsame],hexpand,hcompress⟩

/-- Indices of nine bits. -/
theorem minimal_encoding_regtest :
    ∃minimal,getMinimalFromIndices ((List.range 32).map (· * 16)) 8=some minimal ∧
      minimal.length=36 ∧
      getIndicesFromMinimal minimal 8=some ((List.range 32).map (· * 16)) := by
  obtain ⟨hencode,-⟩ := minimal_encoding_bijective (N := 48) (K := 5) (by decide)
  obtain ⟨minimal,hminimal,hlen,hindices,-⟩ := hencode ((List.range 32).map (· * 16)) (by decide)
    (by decide)
  exact ⟨minimal,hminimal,hlen,hindices⟩

end Minimal

end Zdeex.Equihash
