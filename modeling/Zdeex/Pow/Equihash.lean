import Mathlib.Data.List.Forall2
import Mathlib.Data.List.Nodup
import Zdeex.Framework.Checks
import Zdeex.Pow.EquihashArrays

namespace Zdeex.Equihash

open Zdeex.Framework

section Definitions

/-- A full step row; the tail behind hash and indices is not initialised at first. -/
abbrev Row := List Byte

/-- The solution is invalid, or an assertion fails. -/
inductive Stop where
  | invalid
  | crash
  deriving DecidableEq,Repr

abbrev Verifying (α : Type) := Except Stop α

/-- `GetSizeInBytes`, a `uint8_t`. -/
def getSizeInBytes (N : Nat) : Nat := ((N+7)/8)%256

def indicesPerHashOutput (N : Nat) : Nat := 512/N

def hashOutput (N : Nat) : Nat := indicesPerHashOutput N*getSizeInBytes N

def collisionByteLength (N K : Nat) : Nat := (collisionBitLength N K+7)/8

def hashLength (N K : Nat) : Nat := (K+1)*collisionByteLength N K

def finalFullWidth (N K : Nat) : Nat := 2*collisionByteLength N K+4*2^K

/-- What `GenerateHash` writes for an index block, with the same base state throughout. -/
structure BlockHash (N : Nat) where
  generateHash : Nat → List Byte
  length_generateHash : ∀g,(generateHash g).length=hashOutput N

/-- The part of a block's hash that belongs to an index. -/
def BlockHash.slice {N : Nat} (H : BlockHash N) (i : Nat) : List Byte :=
  ((H.generateHash (i/indicesPerHashOutput N)).drop
    (i%indicesPerHashOutput N*getSizeInBytes N)).take (getSizeInBytes N)

/-- The row of an index; `stray` stands for the bytes that are not written. -/
def fullStepRow (width : Nat) (stray : Nat → Nat → Byte) (hashIn : List Byte)
    (hLen cBitLen i : Nat) : Verifying Row := do
  reject (width<hLen) Stop.crash
  let hash ← expect (expandArray hashIn hLen cBitLen 0) Stop.crash
  pure (hash++ehIndexToArray i++(List.range' (hLen+4) (width-(hLen+4))).map (stray i))

def isZero (row : Row) (len : Nat) : Bool := (row.take len).all (· == 0)

def hasCollision (a b : Row) (l : Nat) : Bool := a.take l == b.take l

/-- The `lenIndices` bytes behind the hash of `len` bytes. -/
def indexBytes (row : Row) (len lenIndices : Nat) : List Byte := (row.drop len).take lenIndices

/-- `a.IndicesBefore(b, len, lenIndices)`. -/
def indicesBefore (a b : Row) (len lenIndices : Nat) : Bool :=
  decide (indexBytes a len lenIndices < indexBytes b len lenIndices)

def distinctIndices (a b : Row) (len lenIndices : Nat) : Bool :=
  (List.range ((lenIndices+3)/4)).all fun i => (List.range ((lenIndices+3)/4)).all fun j =>
    (a.drop (len+4*i)).take 4 != (b.drop (len+4*j)).take 4

/-- The row of two rows: the hashes combined without the first `trim` bytes, then the indices. -/
def mergeRows (width : Nat) (a b : Row) (len lenIndices trim : Nat) : Verifying Row := do
  reject (width<len+lenIndices) Stop.crash
  reject (width<len-trim+2*lenIndices) Stop.crash
  let hash := (List.zipWith (· ^^^ ·) (a.take len) (b.take len)).drop trim
  let rest := a.drop (len-trim+2*lenIndices)
  pure (if indicesBefore a b len lenIndices then
    hash++indexBytes a len lenIndices++indexBytes b len lenIndices++rest
  else hash++indexBytes b len lenIndices++indexBytes a len lenIndices++rest)

/-- One round over all rows, two by two. -/
def mergeAll (N K hashLen lenIndices : Nat) : List Row → Verifying (List Row)
  | [] => pure []
  | [_] => throw Stop.crash
  | a::b::rows => do
    reject (hasCollision a b (collisionByteLength N K)=false) Stop.invalid
    reject (indicesBefore b a hashLen lenIndices=true) Stop.invalid
    reject (distinctIndices a b hashLen lenIndices=false) Stop.invalid
    let row ← mergeRows (finalFullWidth N K) a b hashLen lenIndices (collisionByteLength N K)
    let rest ← mergeAll N K hashLen lenIndices rows
    pure (row::rest)

/-- The rounds until one row is left. -/
def verifyLoop (N K : Nat) : Nat → Nat → Nat → List Row → Verifying Bool
  | _,hashLen,_,[row] => pure (isZero row hashLen)
  | 0,_,_,_ => throw Stop.crash
  | _+1,_,_,[] => throw Stop.crash
  | fuel+1,hashLen,lenIndices,a::b::rows => do
    let next ← mergeAll N K hashLen lenIndices (a::b::rows)
    verifyLoop N K fuel (hashLen-collisionByteLength N K) (lenIndices*2) next

def verifyRows (N K : Nat) (H : BlockHash N) (stray : Nat → Nat → Byte) (soln : List Byte) :
    Verifying Bool := do
  reject (soln.length≠solutionWidth N K) Stop.invalid
  let indices ← expect (getIndicesFromMinimal soln (collisionBitLength N K)) Stop.crash
  let rows ← indices.mapM fun i =>
    fullStepRow (finalFullWidth N K) stray (H.slice i) (hashLength N K) (collisionBitLength N K) i
  verifyLoop N K rows.length (hashLength N K) 4 rows

/-- `IsValidSolution`; no result where an assertion fails. -/
def isValidSolution (N K : Nat) (H : BlockHash N) (stray : Nat → Nat → Byte) (soln : List Byte) :
    Option Bool :=
  match verifyRows N K H stray soln with
  | .ok valid => some valid
  | .error .invalid => some false
  | .error .crash => none

end Definitions

section Conditions

/-- The indices whose bits in a row are those of the solution. -/
def Encodes (N K : Nat) (soln : List Byte) (xs : List Nat) : Prop :=
  xs.length=2^K ∧ (∀x∈xs,x<2^(collisionBitLength N K+1)) ∧
    streamBits soln=xs.flatMap (bitsBE (collisionBitLength N K+1))

/-- The string of `N` bits of an index. -/
def BlockHash.string {N : Nat} (H : BlockHash N) (i : Nat) : List Bool :=
  (streamBits (H.slice i)).take N

/-- All strings of some indices combined. -/
def BlockHash.xorStrings {N : Nat} (H : BlockHash N) (g : List Nat) : List Bool :=
  g.foldr (fun i acc => List.zipWith xor (H.string i) acc) (List.replicate N false)

/-- The aligned group of `2^t` indices with number `p`. -/
def window (xs : List Nat) (t p : Nat) : List Nat := (xs.drop (p*2^t)).take (2^t)

/-- The conditions of the generalised birthday problem with the binding of the algorithm. -/
structure Wagner (N K : Nat) (H : BlockHash N) (xs : List Nat) : Prop where
  collide : ∀r,1 ≤ r → r≤K → ∀p<2^(K-r),
    (H.xorStrings (window xs (r-1) (2*p))).take (r*N/(K+1))=
      (H.xorStrings (window xs (r-1) (2*p+1))).take (r*N/(K+1))
  ordered : ∀r,1 ≤ r → r≤K → ∀p<2^(K-r),window xs (r-1) (2*p)<window xs (r-1) (2*p+1)
  distinct : xs.Nodup
  zero : H.xorStrings xs=List.replicate N false

end Conditions

section Rows

variable {N K : Nat}

/-- What the widths of the template have to satisfy. -/
structure Sizes (N K : Nat) : Prop where
  fits : WidthFits (collisionBitLength N K)
  bits : collisionBitLength N K*(K+1)=N
  chunks : 8*getSizeInBytes N/collisionBitLength N K=K+1
  strings : N≤8*getSizeInBytes N
  expand : hashLength N K=
    8*((collisionBitLength N K+7)/8+0)*getSizeInBytes N/collisionBitLength N K
  start : hashLength N K+4≤finalFullWidth N K
  rounds : ∀t<K,(K+1-t)*collisionByteLength N K+4*2^t≤finalFullWidth N K ∧
    (K+1-(t+1))*collisionByteLength N K+4*2^(t+1)≤finalFullWidth N K
  blocks : 0 < indicesPerHashOutput N

theorem sizes_of_supported (h : (N,K)∈supported) : Sizes N K := by
  simp only [supported,List.mem_cons,Prod.mk.injEq,List.not_mem_nil,or_false] at h
  rcases h with ⟨rfl,rfl⟩ | ⟨rfl,rfl⟩ | ⟨rfl,rfl⟩ | ⟨rfl,rfl⟩ | ⟨rfl,rfl⟩ | ⟨rfl,rfl⟩ <;>
  exact ⟨⟨by decide,by decide⟩,by decide,by decide,by decide,by decide,by decide,by decide,
    by decide⟩

/-- A chunk of the strings of some indices combined. -/
def xorValues (value : Nat → Nat → Nat) (g : List Nat) (s : Nat) : Nat :=
  g.foldr (fun i acc => value i s ^^^ acc) 0

@[simp] theorem xorValues_append (value : Nat → Nat → Nat) (g k : List Nat) (s : Nat) :
    xorValues value (g++k) s=xorValues value g s ^^^ xorValues value k s := by
  induction g with
  | nil => exact (Nat.zero_xor _).symm
  | cons i g ih =>
    have hcons : xorValues value (i::g++k) s=value i s ^^^ xorValues value (g++k) s := rfl
    rw [hcons,ih,← Nat.xor_assoc]
    rfl

theorem xorValues_lt {value : Nat → Nat → Nat} {w s : Nat} (hvalue : ∀i,value i s<2^w)
    (g : List Nat) : xorValues value g s<2^w := by
  induction g with
  | nil => exact Nat.two_pow_pos w
  | cons i g ih => exact Nat.xor_lt_two_pow (hvalue i) ih

/-- The row of a group of `2^t` indices after `t` rounds. -/
structure RowOf (N K : Nat) (value : Nat → Nat → Nat) (t : Nat) (g : List Nat) (row : Row) :
    Prop where
  size : g.length=2^t
  small : ∀i∈g,i<2^32
  length : row.length=finalFullWidth N K
  hash : row.take ((K+1-t)*collisionByteLength N K)=
    ((List.range' t (K+1-t)).map (xorValues value g)).flatMap (bytesBE (collisionByteLength N K))
  indices : indexBytes row ((K+1-t)*collisionByteLength N K) (4*2^t)=g.flatMap ehIndexToArray

/-- The chunks are those that the strings are made of. -/
structure Chunks (N K : Nat) (H : BlockHash N) (value : Nat → Nat → Nat) : Prop where
  lt : ∀i s,value i s<2^collisionBitLength N K
  hash : ∀i,expandArray (H.slice i) (hashLength N K) (collisionBitLength N K) 0=
    some (((List.range (K+1)).map (value i)).flatMap (bytesBE (collisionByteLength N K)))
  string : ∀i,H.string i=
    ((List.range (K+1)).map (value i)).flatMap (bitsBE (collisionBitLength N K))

theorem length_slice (hs : Sizes N K) (H : BlockHash N) (i : Nat) :
    (H.slice i).length=getSizeInBytes N := by
  have hmod : i%indicesPerHashOutput N < indicesPerHashOutput N := Nat.mod_lt _ hs.blocks
  have hroom : i%indicesPerHashOutput N*getSizeInBytes N+getSizeInBytes N≤hashOutput N := by
    rw [← Nat.succ_mul]
    exact Nat.mul_le_mul_right _ hmod
  rw [BlockHash.slice,List.length_take,List.length_drop,H.length_generateHash]
  omega

theorem map_getD_range {vs : List Nat} {n : Nat} (h : vs.length=n) :
    (List.range n).map (fun s => vs.getD s 0)=vs := by
  subst h
  apply List.ext_getElem (by simp)
  intro s hs hs'
  rw [List.getElem_map,List.getElem_range,List.getD_eq_getElem _ _ hs']

theorem exists_chunks (hs : Sizes N K) (H : BlockHash N) : ∃value,Chunks N K H value := by
  have hrow : ∀i,∃vs : List Nat,vs.length=K+1 ∧ (∀v∈vs,v<2^collisionBitLength N K) ∧
      expandArray (H.slice i) (hashLength N K) (collisionBitLength N K) 0=
        some (vs.flatMap (bytesBE (collisionByteLength N K))) ∧
      H.string i=vs.flatMap (bitsBE (collisionBitLength N K)) := by
    intro i
    obtain ⟨vs,hvs⟩ : ∃vs,Expanded (collisionBitLength N K) 0 (H.slice i)
        (expandState (H.slice i) (collisionBitLength N K) 0) vs :=
      expandState_expanded hs.fits _
    have hpos : 0<collisionBitLength N K := (by decide : 0<8).trans_le hs.fits.1
    have hcount : vs.length=K+1 := by
      have hlen := hvs.length
      rw [length_slice hs] at hlen
      rw [← hs.chunks,hlen,Nat.mul_add_div hpos,Nat.div_eq_of_lt hvs.acc_bits,Nat.add_zero]
    have hassert : 8 ≤ collisionBitLength N K ∧ collisionBitLength N K≤32 ∧
        hashLength N K=8*((collisionBitLength N K+7)/8+0)*(H.slice i).length/
          collisionBitLength N K := by
      refine ⟨hs.fits.1,?_,?_⟩
      · have hhigh := hs.fits.2
        omega
      · rw [length_slice hs]
        exact hs.expand
    refine ⟨vs,hcount,hvs.elements,?_,?_⟩
    · unfold expandArray
      dsimp only
      rw [if_pos hassert,hvs.out]
      rfl
    · rw [BlockHash.string,hvs.bits]
      apply List.take_left'
      rw [length_flatMap_bitsBE,hcount,hs.bits]
  choose f hf using hrow
  refine ⟨fun i s => (f i).getD s 0,?_,?_,?_⟩
  · intro i s
    by_cases hlt : s<(f i).length
    · rw [List.getD_eq_getElem _ _ hlt]
      exact (hf i).2.1 _ (List.getElem_mem hlt)
    · rw [List.getD_eq_default _ _ (by omega)]
      exact Nat.two_pow_pos _
  · intro i
    rw [map_getD_range (hf i).1]
    exact (hf i).2.2.1
  · intro i
    rw [map_getD_range (hf i).1]
    exact (hf i).2.2.2

/-- The strings combined are made of the chunks combined. -/
theorem xorStrings_eq (hs : Sizes N K) {H : BlockHash N} {value : Nat → Nat → Nat}
    (hvalue : Chunks N K H value) (g : List Nat) :
    H.xorStrings g=
      ((List.range (K+1)).map (xorValues value g)).flatMap (bitsBE (collisionBitLength N K)) := by
  induction g with
  | nil =>
    have hrow : ∀l : List Nat,(l.map (xorValues value [])).flatMap
        (bitsBE (collisionBitLength N K))=
          List.replicate (collisionBitLength N K*l.length) false := by
      intro l
      induction l with
      | nil => rfl
      | cons s l ih =>
        rw [List.map_cons,List.flatMap_cons,ih,List.length_cons,Nat.mul_succ,Nat.add_comm,
          ← List.replicate_append_replicate,← bitsBE_zero (collisionBitLength N K)]
        rfl
    rw [hrow,List.length_range,hs.bits]
    rfl
  | cons i g ih =>
    have hcons : H.xorStrings (i::g)=List.zipWith xor (H.string i) (H.xorStrings g) := rfl
    rw [hcons,ih,hvalue.string,zipWith_flatMap_map (length_bitsBE _) (zipWith_xor_bitsBE _)]
    rfl

end Rows

section Rounds

variable {N K : Nat} {value : Nat → Nat → Nat} {H : BlockHash N}

theorem fullStepRow_spec (hs : Sizes N K) (hvalue : Chunks N K H value)
    (stray : Nat → Nat → Byte) {i : Nat} (hi : i<2^32) :
    ∃row,fullStepRow (finalFullWidth N K) stray (H.slice i) (hashLength N K)
      (collisionBitLength N K) i=.ok row ∧ RowOf N K value 0 [i] row := by
  have hstart := hs.start
  have hroom : ¬finalFullWidth N K<hashLength N K := by omega
  have hvalues : (List.range' 0 (K+1-0)).map (xorValues value [i])=
      (List.range (K+1)).map (value i) := by
    rw [← List.range_eq_range',Nat.sub_zero]
    exact List.map_congr_left fun s _ => Nat.xor_zero _
  have hlen : (((List.range (K+1)).map (value i)).flatMap
      (bytesBE (collisionByteLength N K))).length=hashLength N K := by
    rw [length_flatMap_bytesBE,List.length_map,List.length_range,hashLength,Nat.mul_comm]
  have hindex : (ehIndexToArray i).length=4 := length_bytesBE 4 i
  refine ⟨((List.range (K+1)).map (value i)).flatMap (bytesBE (collisionByteLength N K))++
    ehIndexToArray i++(List.range' (hashLength N K+4)
      (finalFullWidth N K-(hashLength N K+4))).map (stray i),?_,by simp,by simpa using hi,?_,?_,?_⟩
  · simp only [fullStepRow,reject,if_neg hroom,hvalue.hash,expect]
    rfl
  · rw [List.length_append,List.length_append,hlen,hindex,List.length_map,List.length_range']
    omega
  · rw [hvalues,List.append_assoc]
    exact List.take_left' hlen
  · have hplace : (K+1-0)*collisionByteLength N K=hashLength N K := rfl
    rw [hplace,indexBytes,List.append_assoc,List.drop_left' hlen,List.flatMap_singleton]
    exact List.take_left' hindex

theorem RowOf.first {t : Nat} {g : List Nat} {row : Row} (h : RowOf N K value t g row)
    (ht : t≤K) : row.take (collisionByteLength N K)=
      bytesBE (collisionByteLength N K) (xorValues value g t) := by
  have hrange : List.range' t (K+1-t)=t::List.range' (t+1) (K-t) := by
    have hsucc : K+1-t=K-t+1 := by omega
    rw [hsucc,List.range'_succ]
  have hle : collisionByteLength N K≤(K+1-t)*collisionByteLength N K :=
    Nat.le_mul_of_pos_left _ (by omega)
  have htake := congrArg (List.take (collisionByteLength N K)) h.hash
  rw [List.take_take,Nat.min_eq_left hle,hrange,List.map_cons,List.flatMap_cons,
    List.take_left' (length_bytesBE _ _)] at htake
  exact htake

/-- A chunk fits in its bytes. -/
theorem chunk_lt (N K : Nat) {v : Nat} (h : v<2^collisionBitLength N K) :
    v<2^(8*collisionByteLength N K) := by
  refine h.trans_le (Nat.pow_le_pow_right (by decide) ?_)
  rw [collisionByteLength]
  omega

variable {t : Nat} {g k : List Nat} {a b : Row}

theorem hasCollision_iff (hvalue : Chunks N K H value) (ht : t<K)
    (ha : RowOf N K value t g a) (hb : RowOf N K value t k b) :
    hasCollision a b (collisionByteLength N K)=true ↔ xorValues value g t=xorValues value k t := by
  have hlt : ∀l : List Nat,xorValues value l t<2^(8*collisionByteLength N K) := fun l =>
    chunk_lt N K (xorValues_lt (fun i => hvalue.lt i t) l)
  rw [hasCollision,beq_iff_eq,ha.first ht.le,hb.first ht.le]
  constructor
  · intro h
    exact bytesBE_inj (hlt g) (hlt k) h
  · intro h
    rw [h]

theorem isZero_iff (hvalue : Chunks N K H value) (ha : RowOf N K value K g a) :
    isZero a (collisionByteLength N K)=true ↔ xorValues value g K=0 := by
  have hzero : (bytesBE (collisionByteLength N K) 0).all (· == 0)=true := by
    rw [List.all_eq_true]
    intro b hb
    obtain ⟨i,-,rfl⟩ := List.mem_map.mp hb
    rw [Nat.zero_shiftRight]
    rfl
  rw [isZero,ha.first le_rfl]
  constructor
  · intro h
    apply bytesBE_inj (chunk_lt N K (xorValues_lt (fun i => hvalue.lt i K) g)) (Nat.two_pow_pos _)
    apply List.ext_getElem (by rw [length_bytesBE,length_bytesBE])
    intro i hi hi'
    rw [List.all_eq_true] at h hzero
    rw [beq_iff_eq.mp (h _ (List.getElem_mem hi)),beq_iff_eq.mp (hzero _ (List.getElem_mem hi'))]
  · intro h
    rw [h]
    exact hzero

theorem indicesBefore_iff (ha : RowOf N K value t g a) (hb : RowOf N K value t k b) :
    indicesBefore a b ((K+1-t)*collisionByteLength N K) (4*2^t)=true ↔ g<k := by
  rw [indicesBefore,decide_eq_true_iff,ha.indices,hb.indices]
  exact flatMap_bytesBE_lt ha.small hb.small (ha.size.trans hb.size.symm)

theorem RowOf.index (h : RowOf N K value t g a) {i : Nat} (hi : i<g.length) :
    (a.drop ((K+1-t)*collisionByteLength N K+4*i)).take 4=bytesBE 4 g[i] := by
  have hsize := h.size
  have hdrop := congrArg (fun l => (l.drop (4*i)).take 4) h.indices
  rw [indexBytes,List.drop_take,List.take_take,List.drop_drop,Nat.min_eq_left (by omega)] at hdrop
  rw [hdrop]
  have hplace := drop_flatMap_bytesBE 4 hi
  have harray : g.flatMap ehIndexToArray=g.flatMap (bytesBE 4) := rfl
  rw [harray,hplace]
  exact List.take_left' (length_bytesBE _ _)

theorem distinctIndices_iff (ha : RowOf N K value t g a) (hb : RowOf N K value t k b) :
    distinctIndices a b ((K+1-t)*collisionByteLength N K) (4*2^t)=true ↔ List.Disjoint g k := by
  have hrounds : (4*2^t+3)/4=2^t := by omega
  have hsize := ha.size
  have hsize' := hb.size
  simp only [distinctIndices,List.all_eq_true,List.mem_range,bne_iff_ne,ne_eq,hrounds]
  constructor
  · intro h x hx hx'
    obtain ⟨i,hi,rfl⟩ := List.getElem_of_mem hx
    obtain ⟨j,hj,hsame⟩ := List.getElem_of_mem hx'
    apply h i (by omega) j (by omega)
    rw [ha.index hi,hb.index hj,hsame]
  · intro h i hi j hj hsame
    rw [ha.index (by omega),hb.index (by omega)] at hsame
    have heq := bytesBE_inj (ha.small _ (List.getElem_mem _)) (hb.small _ (List.getElem_mem _))
      hsame
    have hmem : g[i]∈k := by
      rw [heq]
      exact List.getElem_mem _
    exact h (List.getElem_mem _) hmem

theorem mergeRows_spec (hs : Sizes N K) (ht : t<K) (ha : RowOf N K value t g a)
    (hb : RowOf N K value t k b) (hbefore : g<k) :
    ∃row,mergeRows (finalFullWidth N K) a b ((K+1-t)*collisionByteLength N K) (4*2^t)
      (collisionByteLength N K)=.ok row ∧ RowOf N K value (t+1) (g++k) row := by
  obtain ⟨hwide,hwide'⟩ := hs.rounds t ht
  have hpow : 4*2^(t+1)=2*(4*2^t) := by rw [Nat.pow_succ]; omega
  have htrim : (K+1-t)*collisionByteLength N K-collisionByteLength N K=
      (K+1-(t+1))*collisionByteLength N K := by
    have hsucc : K+1-t=K+1-(t+1)+1 := by omega
    rw [hsucc,Nat.succ_mul,Nat.add_sub_cancel]
  have hrange : List.range' t (K+1-t)=t::List.range' (t+1) (K+1-(t+1)) := by
    have hsucc : K+1-t=K+1-(t+1)+1 := by omega
    rw [hsucc,List.range'_succ]
  have hxor : (List.zipWith (· ^^^ ·) (a.take ((K+1-t)*collisionByteLength N K))
      (b.take ((K+1-t)*collisionByteLength N K))).drop (collisionByteLength N K)=
        ((List.range' (t+1) (K+1-(t+1))).map (xorValues value (g++k))).flatMap
          (bytesBE (collisionByteLength N K)) := by
    rw [ha.hash,hb.hash,zipWith_flatMap_map (length_bytesBE _) (zipWith_xor_bytesBE _),hrange,
      List.map_cons,List.flatMap_cons,List.drop_left' (length_bytesBE _ _)]
    congr 1
    exact List.map_congr_left fun s _ => (xorValues_append value g k s).symm
  have hxorlen : (((List.range' (t+1) (K+1-(t+1))).map (xorValues value (g++k))).flatMap
      (bytesBE (collisionByteLength N K))).length=(K+1-(t+1))*collisionByteLength N K := by
    rw [length_flatMap_bytesBE,List.length_map,List.length_range',Nat.mul_comm]
  have hglen : (g.flatMap ehIndexToArray).length=4*2^t := by
    rw [← ha.size]
    exact length_flatMap_bytesBE 4 g
  have hklen : (k.flatMap ehIndexToArray).length=4*2^t := by
    rw [← hb.size]
    exact length_flatMap_bytesBE 4 k
  have hrow : mergeRows (finalFullWidth N K) a b ((K+1-t)*collisionByteLength N K) (4*2^t)
      (collisionByteLength N K)=.ok
        (((List.range' (t+1) (K+1-(t+1))).map (xorValues value (g++k))).flatMap
          (bytesBE (collisionByteLength N K))++g.flatMap ehIndexToArray++k.flatMap ehIndexToArray++
          a.drop ((K+1-(t+1))*collisionByteLength N K+2*(4*2^t))) := by
    unfold mergeRows
    dsimp only
    rw [reject,if_neg (by omega),reject,htrim,if_neg (by omega),
      if_pos ((indicesBefore_iff ha hb).mpr hbefore),hxor,ha.indices,hb.indices]
    rfl
  refine ⟨_,hrow,?_,?_,?_,?_,?_⟩
  · rw [List.length_append,ha.size,hb.size,Nat.pow_succ]
    omega
  · intro i hi
    rcases List.mem_append.mp hi with hi | hi
    · exact ha.small i hi
    · exact hb.small i hi
  · simp only [List.length_append,hxorlen,hglen,hklen,List.length_drop,ha.length]
    omega
  · rw [List.append_assoc,List.append_assoc]
    exact List.take_left' hxorlen
  · rw [indexBytes,List.append_assoc,List.append_assoc,List.drop_left' hxorlen,
      ← List.append_assoc,List.flatMap_append]
    apply List.take_left'
    rw [List.length_append,hglen,hklen]
    omega

end Rounds

section Loop

variable {N K : Nat} {value : Nat → Nat → Nat} {H : BlockHash N} {t : Nat}

/-- What the verifier checks of two groups. -/
structure Mergeable (value : Nat → Nat → Nat) (t : Nat) (g k : List Nat) : Prop where
  collide : xorValues value g t=xorValues value k t
  ordered : ¬k<g
  distinct : List.Disjoint g k

theorem Mergeable.before {g k : List Nat} (h : Mergeable value t g k) (hg : g≠[]) : g<k := by
  by_contra hlt
  have heq : g=k := List.le_antisymm (List.not_lt.mp h.ordered) (List.not_lt.mp hlt)
  obtain ⟨x,hx⟩ := List.exists_mem_of_ne_nil g hg
  exact h.distinct hx (heq ▸ hx)

theorem mergeAll_spec (hs : Sizes N K) (hvalue : Chunks N K H value) (ht : t<K) (n : Nat)
    (f : Nat → List Nat) (rows : List Row)
    (hrows : List.Forall₂ (RowOf N K value t) ((List.range (2*n)).map f) rows) :
    ((∀p<n,Mergeable value t (f (2*p)) (f (2*p+1))) ∧
      ∃next,mergeAll N K ((K+1-t)*collisionByteLength N K) (4*2^t) rows=.ok next ∧
        List.Forall₂ (RowOf N K value (t+1))
          ((List.range n).map fun p => f (2*p)++f (2*p+1)) next) ∨
    ((¬∀p<n,Mergeable value t (f (2*p)) (f (2*p+1))) ∧
      mergeAll N K ((K+1-t)*collisionByteLength N K) (4*2^t) rows=.error .invalid) := by
  induction n generalizing f rows with
  | zero =>
    obtain rfl := List.forall₂_nil_left_iff.mp hrows
    left
    exact ⟨fun p hp => absurd hp (Nat.not_lt_zero p),[],rfl,List.Forall₂.nil⟩
  | succ n ih =>
    have hrange : (List.range (2*(n+1))).map f=
        f 0::f 1::(List.range (2*n)).map fun p => f (p+2) := by
      have hdouble : 2*(n+1)=2*n+1+1 := by omega
      rw [hdouble,List.range_succ_eq_map,List.range_succ_eq_map]
      simp only [List.map_cons,List.map_map]
      rfl
    have hsucc : ((List.range (n+1)).map fun p => f (2*p)++f (2*p+1))=
        (f 0++f 1)::(List.range n).map fun p => f (2*p+2)++f (2*p+1+2) := by
      rw [List.range_succ_eq_map,List.map_cons,List.map_map]
      rfl
    have hsplit : (∀p<n+1,Mergeable value t (f (2*p)) (f (2*p+1))) ↔
        Mergeable value t (f 0) (f 1) ∧ ∀p<n,Mergeable value t (f (2*p+2)) (f (2*p+1+2)) := by
      constructor
      · intro h
        exact ⟨h 0 (Nat.succ_pos n),fun p hp => h (p+1) (by omega)⟩
      · rintro ⟨hfirst,hrest⟩ p hp
        cases p with
        | zero => exact hfirst
        | succ p => exact hrest p (by omega)
    rw [hrange] at hrows
    obtain ⟨a,others,ha,hothers,rfl⟩ := List.forall₂_cons_left_iff.mp hrows
    obtain ⟨b,rest,hb,hrest,rfl⟩ := List.forall₂_cons_left_iff.mp hothers
    rw [hsplit,hsucc]
    have hcollision := hasCollision_iff hvalue ht ha hb
    have hbefore := indicesBefore_iff hb ha
    have hdistinct := distinctIndices_iff ha hb
    by_cases hgood : Mergeable value t (f 0) (f 1)
    · have hne : f 0≠[] := by
        intro hnil
        have hsize := ha.size
        rw [hnil] at hsize
        exact absurd hsize.symm (Nat.two_pow_pos t).ne'
      obtain ⟨row,hrow,hof⟩ := mergeRows_spec hs ht ha hb (hgood.before hne)
      have hstep : mergeAll N K ((K+1-t)*collisionByteLength N K) (4*2^t) (a::b::rest)=
          (mergeAll N K ((K+1-t)*collisionByteLength N K) (4*2^t) rest >>= fun next =>
            pure (row::next)) := by
        rw [mergeAll,hcollision.mpr hgood.collide,
          Bool.eq_false_iff.mpr (fun h => hgood.ordered (hbefore.mp h)),
          hdistinct.mpr hgood.distinct,hrow]
        rfl
      rw [hstep]
      rcases ih (fun p => f (p+2)) rest hrest with ⟨hall,next,hnext,hnof⟩ | ⟨hnot,hnext⟩
      · left
        refine ⟨⟨hgood,hall⟩,row::next,?_,List.Forall₂.cons hof hnof⟩
        rw [hnext]
        rfl
      · right
        refine ⟨fun h => hnot h.2,?_⟩
        rw [hnext]
        rfl
    · right
      refine ⟨fun h => hgood h.1,?_⟩
      rw [mergeAll]
      by_cases hc : hasCollision a b (collisionByteLength N K)=true
      · by_cases ho : indicesBefore b a ((K+1-t)*collisionByteLength N K) (4*2^t)=true
        · rw [hc,ho]
          rfl
        · have hd : ¬distinctIndices a b ((K+1-t)*collisionByteLength N K) (4*2^t)=true :=
            fun h => hgood ⟨hcollision.mp hc,fun hlt => ho (hbefore.mpr hlt),hdistinct.mp h⟩
          rw [hc,Bool.eq_false_iff.mpr ho,Bool.eq_false_iff.mpr hd]
          rfl
      · rw [Bool.eq_false_iff.mpr hc]
        rfl

/-- A group is made of two of the level below. -/
theorem window_succ (xs : List Nat) (t p : Nat) :
    window xs (t+1) p=window xs t (2*p)++window xs t (2*p+1) := by
  have hpow : 2^(t+1)=2^t+2^t := by rw [Nat.pow_succ]; omega
  have hstart : p*2^(t+1)=2*p*2^t := by rw [Nat.pow_succ]; ring
  have hnext : (2*p+1)*2^t=2*p*2^t+2^t := by ring
  rw [window,window,window,hstart,hnext,hpow,List.take_add,List.drop_drop]

/-- The answer of the rounds from a level on. -/
theorem verifyLoop_spec (hs : Sizes N K) (hvalue : Chunks N K H value) {xs : List Nat} (n : Nat)
    (hn : t+n=K) (fuel : Nat) (hfuel : n≤fuel) (rows : List Row)
    (hrows : List.Forall₂ (RowOf N K value t) ((List.range (2^n)).map (window xs t)) rows) :
    ((∀u,t≤u → u<K → ∀p<2^(K-(u+1)),
        Mergeable value u (window xs u (2*p)) (window xs u (2*p+1))) ∧
      verifyLoop N K fuel ((K+1-t)*collisionByteLength N K) (4*2^t) rows=
        .ok (decide (xorValues value (window xs K 0) K=0))) ∨
    ((¬∀u,t≤u → u<K → ∀p<2^(K-(u+1)),
        Mergeable value u (window xs u (2*p)) (window xs u (2*p+1))) ∧
      verifyLoop N K fuel ((K+1-t)*collisionByteLength N K) (4*2^t) rows=.error .invalid) := by
  induction n generalizing t fuel rows with
  | zero =>
    left
    obtain rfl : t=K := hn
    have hone : (List.range (2^0)).map (window xs t)=[window xs t 0] := rfl
    rw [hone] at hrows
    obtain ⟨row,rest,hrow,hrest,rfl⟩ := List.forall₂_cons_left_iff.mp hrows
    obtain rfl := List.forall₂_nil_left_iff.mp hrest
    have hlast : (t+1-t)*collisionByteLength N t=collisionByteLength N t := by
      rw [Nat.add_sub_cancel_left,Nat.one_mul]
    refine ⟨fun u hu hlt => by omega,?_⟩
    rw [hlast,verifyLoop]
    have hzero := isZero_iff hvalue hrow
    rw [Bool.eq_iff_iff.mpr (hzero.trans (decide_eq_true_iff).symm)]
    rfl
  | succ n ih =>
    have ht : t<K := by omega
    have hexp : K-(t+1)=n := by omega
    obtain ⟨fuel,rfl⟩ := Nat.exists_eq_succ_of_ne_zero (by omega : fuel≠0)
    have hpow : 2^(n+1)=2*2^n := by rw [Nat.pow_succ]; omega
    rw [hpow] at hrows
    have hstep : ∀bytes lenIndices,verifyLoop N K (fuel+1) bytes lenIndices rows=
        (mergeAll N K bytes lenIndices rows >>= fun next =>
          verifyLoop N K fuel (bytes-collisionByteLength N K) (lenIndices*2) next) := by
      intro bytes lenIndices
      have hlen := hrows.length_eq
      have hpos := Nat.two_pow_pos n
      rw [List.length_map,List.length_range] at hlen
      rcases rows with - | ⟨a,- | ⟨b,rest⟩⟩
      · rw [List.length_nil] at hlen
        omega
      · rw [List.length_singleton] at hlen
        omega
      · rfl
    have htrim : (K+1-t)*collisionByteLength N K-collisionByteLength N K=
        (K+1-(t+1))*collisionByteLength N K := by
      have hsucc : K+1-t=K+1-(t+1)+1 := by omega
      rw [hsucc,Nat.succ_mul,Nat.add_sub_cancel]
    have hwide : 4*2^t*2=4*2^(t+1) := by rw [Nat.pow_succ]; ring
    have hsplit : (∀u,t≤u → u<K → ∀p<2^(K-(u+1)),
        Mergeable value u (window xs u (2*p)) (window xs u (2*p+1))) ↔
        (∀p<2^n,Mergeable value t (window xs t (2*p)) (window xs t (2*p+1))) ∧
        ∀u,t+1≤u → u<K → ∀p<2^(K-(u+1)),
          Mergeable value u (window xs u (2*p)) (window xs u (2*p+1)) := by
      constructor
      · intro h
        refine ⟨?_,fun u hu => h u (by omega)⟩
        have hlevel := h t le_rfl ht
        rwa [hexp] at hlevel
      · rintro ⟨hlevel,hrest⟩ u hu huK
        rcases Nat.eq_or_lt_of_le hu with rfl | hlt
        · rw [hexp]
          exact hlevel
        · exact hrest u hlt huK
    rw [hstep,htrim,hwide,hsplit]
    rcases mergeAll_spec hs hvalue ht (2^n) (window xs t) rows hrows with
      ⟨hall,next,hnext,hof⟩ | ⟨hnot,hnext⟩
    · have hwindows : ((List.range (2^n)).map fun p => window xs t (2*p)++window xs t (2*p+1))=
          (List.range (2^n)).map (window xs (t+1)) :=
        List.map_congr_left fun p _ => (window_succ xs t p).symm
      rw [hwindows] at hof
      rw [hnext]
      rcases ih (by omega) fuel (by omega) next hof with ⟨hrest,hanswer⟩ | ⟨hrest,hanswer⟩
      · left
        exact ⟨⟨hall,hrest⟩,hanswer⟩
      · right
        exact ⟨fun h => hrest h.2,hanswer⟩
    · right
      refine ⟨fun h => hnot h.1,?_⟩
      rw [hnext]
      rfl

end Loop

section Decision

variable {N K : Nat} {value : Nat → Nat → Nat} {H : BlockHash N} {xs : List Nat}

theorem length_window {t p : Nat} (hlen : xs.length=2^K) (ht : t≤K) (hp : p<2^(K-t)) :
    (window xs t p).length=2^t := by
  have hpow : 2^K=2^(K-t)*2^t := by rw [← Nat.pow_add,Nat.sub_add_cancel ht]
  have hroom : p*2^t+2^t≤2^K := by
    rw [hpow,← Nat.succ_mul]
    exact Nat.mul_le_mul_right _ hp
  rw [window,List.length_take,List.length_drop,hlen]
  omega

theorem window_all (hlen : xs.length=2^K) : window xs K 0=xs := by
  rw [window,Nat.zero_mul,List.drop_zero,← hlen,List.take_length]

theorem windows_zero (hlen : xs.length=2^K) :
    (List.range (2^K)).map (window xs 0)=xs.map fun i => [i] := by
  apply List.ext_getElem (by simp [hlen])
  intro i hi hi'
  have hlt : i < xs.length := by rwa [List.length_map] at hi'
  rw [List.getElem_map,List.getElem_range,List.getElem_map,window,Nat.pow_zero,Nat.mul_one,
    List.drop_eq_getElem_cons hlt]
  rfl

/-- Two combined strings agree on their first chunks. -/
theorem take_xorStrings_iff (hs : Sizes N K) (hvalue : Chunks N K H value) (g k : List Nat)
    {r : Nat} (hr : r≤K+1) :
    (H.xorStrings g).take (collisionBitLength N K*r)=
        (H.xorStrings k).take (collisionBitLength N K*r) ↔
      ∀s < r,xorValues value g s=xorValues value k s := by
  have htake : ∀l : List Nat,(H.xorStrings l).take (collisionBitLength N K*r)=
      ((List.range r).map (xorValues value l)).flatMap (bitsBE (collisionBitLength N K)) := by
    intro l
    have hsplit : List.range (K+1)=List.range r++List.range' r (K+1-r) := by
      have happend := List.range'_append_1 (s := 0) (m := r) (n := K+1-r)
      rw [Nat.zero_add,Nat.add_sub_cancel' hr] at happend
      rw [List.range_eq_range',List.range_eq_range',happend]
    rw [xorStrings_eq hs hvalue,hsplit,List.map_append,List.flatMap_append]
    apply List.take_left'
    rw [length_flatMap_bitsBE,List.length_map,List.length_range]
  have hlt : ∀l : List Nat,∀v∈(List.range r).map (xorValues value l),
      v<2^collisionBitLength N K := by
    intro l v hv
    obtain ⟨s,-,rfl⟩ := List.mem_map.mp hv
    exact xorValues_lt (fun i => hvalue.lt i s) l
  have hpos : 0<collisionBitLength N K := (by decide : 0<8).trans_le hs.fits.1
  rw [htake,htake]
  constructor
  · intro h s hs
    have hmap := flatMap_bitsBE_inj hpos (hlt g) (hlt k) h
    exact List.map_inj_left.mp hmap s (List.mem_range.mpr hs)
  · intro h
    rw [List.map_congr_left fun s hs => h s (List.mem_range.mp hs)]

/-- All levels are mergeable. -/
def Levels (K : Nat) (value : Nat → Nat → Nat) (xs : List Nat) : Prop :=
  ∀u<K,∀p<2^(K-(u+1)),Mergeable value u (window xs u (2*p)) (window xs u (2*p+1))

/-- The two groups below one of the next level. -/
theorem below {u q : Nat} (hu : u<K) (hq : q<2^(K-(u+1))) : 2*q+1<2^(K-u) := by
  have hexp : K-u=K-(u+1)+1 := by omega
  rw [hexp,Nat.pow_succ]
  omega

theorem Levels.vanish (h : Levels K value xs) {u : Nat} (hu : u≤K) {q : Nat} (hq : q<2^(K-u))
    {s : Nat} (hs : s<u) : xorValues value (window xs u q) s=0 := by
  induction u generalizing q with
  | zero => exact absurd hs (Nat.not_lt_zero s)
  | succ u ih =>
    have hbelow := below hu hq
    rw [window_succ,xorValues_append]
    rcases Nat.lt_succ_iff_lt_or_eq.mp hs with hlt | rfl
    · rw [ih (by omega) (by omega) hlt,ih (by omega) hbelow hlt]
      rfl
    · rw [(h s hu q hq).collide,Nat.xor_self]

theorem Levels.nodup (h : Levels K value xs) {u : Nat} (hu : u≤K) {q : Nat} (hq : q<2^(K-u)) :
    (window xs u q).Nodup := by
  induction u generalizing q with
  | zero =>
    rw [window,Nat.pow_zero]
    rcases xs.drop (q*1) with - | ⟨x,rest⟩
    · exact List.nodup_nil
    · exact List.nodup_singleton x
  | succ u ih =>
    have hbelow := below hu hq
    rw [window_succ]
    exact List.Nodup.append (ih (by omega) (by omega)) (ih (by omega) hbelow) (h u hu q hq).distinct

theorem wagner_iff (hs : Sizes N K) (hvalue : Chunks N K H value) (hlen : xs.length=2^K) :
    Wagner N K H xs ↔ Levels K value xs ∧ xorValues value xs K=0 := by
  have hbits : ∀r,r*N/(K+1)=collisionBitLength N K*r := by
    intro r
    have hmul : r*N=collisionBitLength N K*r*(K+1) := by
      calc r*N=r*(collisionBitLength N K*(K+1)) := by rw [hs.bits]
        _=collisionBitLength N K*r*(K+1) := by ring
    rw [hmul,Nat.mul_div_cancel _ (Nat.succ_pos K)]
  have hzero : H.xorStrings xs=List.replicate N false ↔ ∀s<K+1,xorValues value xs s=0 := by
    have htake := take_xorStrings_iff hs hvalue xs [] le_rfl
    have hall : ∀l : List Nat,
        (H.xorStrings l).take (collisionBitLength N K*(K+1))=H.xorStrings l := by
      intro l
      apply List.take_of_length_le
      rw [xorStrings_eq hs hvalue,length_flatMap_bitsBE,List.length_map,List.length_range]
    rw [hall,hall] at htake
    exact htake
  constructor
  · intro h
    refine ⟨fun u hu p hp => ?_,hzero.mp h.zero K (Nat.lt_succ_self K)⟩
    refine ⟨?_,?_,?_⟩
    · have hcollide := h.collide (u+1) (by omega) hu p hp
      rw [hbits,Nat.add_sub_cancel] at hcollide
      exact (take_xorStrings_iff hs hvalue _ _ (by omega)).mp hcollide u (Nat.lt_succ_self u)
    · have hordered := h.ordered (u+1) (by omega) hu p hp
      rw [Nat.add_sub_cancel] at hordered
      exact List.lt_asymm hordered
    · have hsub : (window xs (u+1) p).Nodup := by
        have hdrop := h.distinct.sublist (List.drop_sublist (p*2^(u+1)) xs)
        exact hdrop.sublist (List.take_sublist _ _)
      rw [window_succ] at hsub
      exact List.disjoint_of_nodup_append hsub
  · rintro ⟨h,hlast⟩
    have hdistinct : xs.Nodup := by
      have hall := h.nodup le_rfl (q := 0) (Nat.two_pow_pos _)
      rwa [window_all hlen] at hall
    refine ⟨fun r hr hrK p hp => ?_,fun r hr hrK p hp => ?_,hdistinct,?_⟩
    · obtain ⟨u,rfl⟩ : ∃u,r=u+1 := ⟨r-1,by omega⟩
      have hbelow := below hrK hp
      rw [hbits,Nat.add_sub_cancel,take_xorStrings_iff hs hvalue _ _ (by omega)]
      intro s hs
      rcases Nat.lt_succ_iff_lt_or_eq.mp hs with hlt | rfl
      · rw [h.vanish (by omega) (by omega) hlt,h.vanish (by omega) hbelow hlt]
      · exact (h s hrK p hp).collide
    · obtain ⟨u,rfl⟩ : ∃u,r=u+1 := ⟨r-1,by omega⟩
      rw [Nat.add_sub_cancel]
      apply (h u hrK p hp).before
      intro hnil
      have hsize := length_window hlen (by omega : u≤K) (p := 2*p)
        (by have := below hrK hp; omega)
      rw [hnil] at hsize
      exact absurd hsize.symm (Nat.two_pow_pos u).ne'
    · rw [hzero]
      intro s hs
      rcases Nat.lt_succ_iff_lt_or_eq.mp hs with hlt | rfl
      · have hvanish := h.vanish le_rfl (q := 0) (Nat.two_pow_pos _) hlt
        rwa [window_all hlen] at hvanish
      · exact hlast

/-- A solution encodes one list of indices. -/
theorem Encodes.unique {soln : List Byte} {ys : List Nat} (hx : Encodes N K soln xs)
    (hy : Encodes N K soln ys) : xs=ys :=
  flatMap_bitsBE_inj (Nat.succ_pos _) hx.2.1 hy.2.1 (hx.2.2.symm.trans hy.2.2)

theorem mapM_rows {f : Nat → Verifying Row} {R : Nat → Row → Prop} {l : List Nat}
    (h : ∀i∈l,∃row,f i=.ok row ∧ R i row) : ∃rows,l.mapM f=.ok rows ∧ List.Forall₂ R l rows := by
  induction l with
  | nil => exact ⟨[],rfl,List.Forall₂.nil⟩
  | cons i l ih =>
    rw [List.forall_mem_cons] at h
    obtain ⟨⟨row,hrow,hof⟩,hrest⟩ := h
    obtain ⟨rows,hrows,hall⟩ := ih hrest
    refine ⟨row::rows,?_,List.Forall₂.cons hof hall⟩
    rw [List.mapM_cons,hrow,bind_ok]
    refine ⟨row,rfl,?_⟩
    rw [hrows]
    rfl

/-- Verification returns for every string, and accepts exactly Wagner's solutions. -/
theorem isValidSolution_wagner (h : (N,K)∈supported) (H : BlockHash N)
    (stray : Nat → Nat → Byte) (soln : List Byte) :
    ∃valid,isValidSolution N K H stray soln=some valid ∧
      (valid=true ↔ soln.length=solutionWidth N K ∧
        ∃xs,Encodes N K soln xs ∧ Wagner N K H xs) := by
  have hs := sizes_of_supported h
  obtain ⟨hfits,hwidth⟩ := widthFits_of_supported h
  obtain ⟨value,hvalue⟩ := exists_chunks hs H
  by_cases hsize : soln.length=solutionWidth N K
  · obtain ⟨xs,hxs,hlen,hsmall,hbits,-⟩ := getIndicesFromMinimal_spec (n := 2^K) hfits
      (by rw [hsize,hwidth])
    have hencodes : Encodes N K soln xs := ⟨hlen,hsmall,hbits⟩
    have hindex : ∀i∈xs,i<2^32 := fun i hi =>
      (hsmall i hi).trans_le (Nat.pow_le_pow_right (by decide) (by have := hfits.2; omega))
    obtain ⟨rows,hrows,hof⟩ := mapM_rows fun i hi => fullStepRow_spec hs hvalue stray (hindex i hi)
    have hgroups : List.Forall₂ (RowOf N K value 0)
        ((List.range (2^K)).map (window xs 0)) rows := by
      rw [windows_zero hlen,List.forall₂_map_left_iff]
      exact hof
    have hcount : rows.length=2^K := hof.length_eq.symm.trans hlen
    have hrun : verifyRows N K H stray soln=
        verifyLoop N K rows.length ((K+1-0)*collisionByteLength N K) (4*2^0) rows := by
      unfold verifyRows
      rw [reject,if_neg (not_not.mpr hsize),hxs,expect]
      change (xs.mapM _ >>= fun rows => verifyLoop N K rows.length (hashLength N K) 4 rows)=_
      rw [hrows]
      rfl
    have hfuel : K ≤ rows.length := by
      rw [hcount]
      exact Nat.lt_two_pow_self.le
    have hlevels : (∀u,0≤u → u<K → ∀p<2^(K-(u+1)),
        Mergeable value u (window xs u (2*p)) (window xs u (2*p+1))) ↔ Levels K value xs :=
      ⟨fun h u => h u (Nat.zero_le u),fun h u _ => h u⟩
    have hwagner : (∃ys,Encodes N K soln ys ∧ Wagner N K H ys) ↔
        Levels K value xs ∧ xorValues value xs K=0 := by
      rw [← wagner_iff hs hvalue hlen]
      constructor
      · rintro ⟨ys,hys,hwagner⟩
        rwa [hencodes.unique hys]
      · intro hwagner
        exact ⟨xs,hencodes,hwagner⟩
    rcases verifyLoop_spec hs hvalue K (Nat.zero_add K) rows.length hfuel rows hgroups with
      ⟨hall,hanswer⟩ | ⟨hnot,hanswer⟩
    · rw [window_all hlen] at hanswer
      refine ⟨decide (xorValues value xs K=0),?_,?_⟩
      · rw [isValidSolution,hrun,hanswer]
      · rw [decide_eq_true_iff,hwagner]
        exact ⟨fun hlast => ⟨hsize,hlevels.mp hall,hlast⟩,fun h => h.2.2⟩
    · refine ⟨false,?_,?_⟩
      · rw [isValidSolution,hrun,hanswer]
      · rw [hwagner]
        exact ⟨fun hno => absurd hno Bool.false_ne_true,
          fun h => absurd (hlevels.mpr h.2.1) hnot⟩
  · refine ⟨false,?_,fun hno => absurd hno Bool.false_ne_true,fun h => absurd h.1 hsize⟩
    have hrun : verifyRows N K H stray soln=.error .invalid := by
      unfold verifyRows
      rw [reject,if_pos hsize]
      rfl
    rw [isValidSolution,hrun]

/-- With a hash that is zero everywhere, ordered indices are a solution. -/
def zeroHash (N : Nat) : BlockHash N where
  generateHash _ := List.replicate (hashOutput N) 0
  length_generateHash _ := List.length_replicate

theorem regtest_solution :
    ∃soln,getMinimalFromIndices (List.range 32) 8=some soln ∧
      isValidSolution 48 5 (zeroHash 48) (fun _ _ => 0) soln=some true ∧
      ∃xs,Encodes 48 5 soln xs ∧ Wagner 48 5 (zeroHash 48) xs := by
  have hminimal : (getMinimalFromIndices (List.range 32) 8).isSome=true := by decide +kernel
  obtain ⟨soln,hsoln⟩ := Option.isSome_iff_exists.mp hminimal
  have hvalid : (getMinimalFromIndices (List.range 32) 8).bind
      (isValidSolution 48 5 (zeroHash 48) fun _ _ => 0)=some true := by decide +kernel
  rw [hsoln,Option.bind_some] at hvalid
  obtain ⟨valid,hanswer,hwagner⟩ := isValidSolution_wagner (N := 48) (K := 5) (by decide)
    (zeroHash 48) (fun _ _ => 0) soln
  rw [hvalid] at hanswer
  obtain rfl := Option.some.inj hanswer
  exact ⟨soln,hsoln,hvalid,(hwagner.mp rfl).2⟩

end Decision

end Zdeex.Equihash
