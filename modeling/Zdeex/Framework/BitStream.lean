import Mathlib.Data.List.Basic
import Mathlib.Data.Nat.Bitwise
import Mathlib.Tactic.Common
import Mathlib.Tactic.Ring
import Zdeex.Framework.Bytes

namespace Zdeex.Framework

section Bits

/-- The `w` low bits of a number, the highest one first. -/
def bitsBE : Nat → Nat → List Bool
  | 0,_ => []
  | w+1,x => x.testBit w::bitsBE w x

/-- The `n` low bytes of a number, the highest one first. -/
def bytesBE (n x : Nat) : List Byte :=
  (List.range n).map fun i => BitVec.ofNat 8 (x >>> (8*(n-i-1)))

/-- The bits of a string of bytes. -/
def streamBits (bs : List Byte) : List Bool := bs.flatMap fun b => bitsBE 8 b.toNat

@[simp] theorem length_bitsBE (w x : Nat) : (bitsBE w x).length=w := by
  induction w with
  | zero => rfl
  | succ w ih => rw [bitsBE,List.length_cons,ih]

@[simp] theorem length_bytesBE (n x : Nat) : (bytesBE n x).length=n := by simp [bytesBE]

theorem bitsBE_congr {w x y : Nat} (h : ∀i<w,x.testBit i=y.testBit i) : bitsBE w x=bitsBE w y := by
  induction w with
  | zero => rfl
  | succ w ih =>
    rw [bitsBE,bitsBE,h w (by omega),ih fun i hi => h i (by omega)]

theorem testBit_eq_of_bitsBE {w x y : Nat} (h : bitsBE w x=bitsBE w y) {i : Nat} (hi : i<w) :
    x.testBit i=y.testBit i := by
  induction w with
  | zero => omega
  | succ w ih =>
    obtain ⟨hhead,htail⟩ := List.cons.inj h
    rcases Nat.lt_succ_iff_lt_or_eq.mp hi with hlt | rfl
    · exact ih htail hlt
    · exact hhead

theorem bitsBE_inj {w x y : Nat} (hx : x<2^w) (hy : y<2^w) (h : bitsBE w x=bitsBE w y) : x=y := by
  apply Nat.eq_of_testBit_eq
  intro i
  by_cases hi : i<w
  · exact testBit_eq_of_bitsBE h hi
  · have hpow : 2^w≤2^i := Nat.pow_le_pow_right (by decide) (by omega)
    rw [Nat.testBit_eq_false_of_lt (hx.trans_le hpow),Nat.testBit_eq_false_of_lt (hy.trans_le hpow)]

theorem bitsBE_mod (w x : Nat) : bitsBE w (x%2^w)=bitsBE w x := by
  apply bitsBE_congr
  intro i hi
  simp [Nat.testBit_mod_two_pow,hi]

/-- High bits before low bits. -/
theorem bitsBE_add (m n x : Nat) : bitsBE (m+n) x=bitsBE m (x >>> n)++bitsBE n x := by
  induction m with
  | zero => rw [Nat.zero_add,bitsBE,List.nil_append]
  | succ m ih =>
    have hsucc : m+1+n=m+n+1 := by omega
    rw [hsucc,bitsBE,bitsBE,List.cons_append,← ih,Nat.testBit_shiftRight,Nat.add_comm n m]

/-- Bits shifted into an accumulator of 32 bits, of which no more are in use. -/
theorem bitsBE_push {r n v : Nat} (acc : Nat) (hfits : r+n≤32) (hv : v<2^n) :
    bitsBE (r+n) ((acc <<< n)%2^32 ||| v)=bitsBE r acc++bitsBE n v := by
  have hhigh : ∀i,n ≤ i → v.testBit i=false := fun i hi =>
    Nat.testBit_eq_false_of_lt (hv.trans_le (Nat.pow_le_pow_right (by decide) hi))
  rw [bitsBE_add]
  congr 1
  · apply bitsBE_congr
    intro i hi
    rw [Nat.testBit_shiftRight,Nat.testBit_or,Nat.testBit_mod_two_pow,Nat.testBit_shiftLeft,
      hhigh _ (by omega)]
    simp
    omega
  · apply bitsBE_congr
    intro i hi
    rw [Nat.testBit_or,Nat.testBit_mod_two_pow,Nat.testBit_shiftLeft]
    simp
    omega

/-- Numbers of one width are determined by their bits in a row. -/
theorem flatMap_bitsBE_inj {w : Nat} (hw : 0<w) {xs ys : List Nat} (hx : ∀x∈xs,x<2^w)
    (hy : ∀y∈ys,y<2^w) (h : xs.flatMap (bitsBE w)=ys.flatMap (bitsBE w)) : xs=ys := by
  induction xs generalizing ys with
  | nil =>
    cases ys with
    | nil => rfl
    | cons y ys =>
      have hlen := congrArg List.length h
      simp at hlen
      omega
  | cons x xs ih =>
    cases ys with
    | nil =>
      have hlen := congrArg List.length h
      simp at hlen
      omega
    | cons y ys =>
      rw [List.flatMap_cons,List.flatMap_cons] at h
      obtain ⟨hhead,htail⟩ := List.append_inj h (by simp)
      obtain rfl := bitsBE_inj (hx x List.mem_cons_self) (hy y List.mem_cons_self) hhead
      rw [ih (fun z hz => hx z (List.mem_cons_of_mem x hz))
        (fun z hz => hy z (List.mem_cons_of_mem x hz)) htail]

theorem length_flatMap_bitsBE (w : Nat) (xs : List Nat) :
    (xs.flatMap (bitsBE w)).length=w*xs.length := by
  induction xs with
  | nil => rfl
  | cons x xs ih =>
    rw [List.flatMap_cons,List.length_append,ih,length_bitsBE,List.length_cons,Nat.mul_add]
    omega

theorem length_streamBits (bs : List Byte) : (streamBits bs).length=8*bs.length := by
  induction bs with
  | nil => rfl
  | cons b bs ih =>
    have hcons : streamBits (b::bs)=bitsBE 8 b.toNat++streamBits bs := rfl
    rw [hcons,List.length_append,ih,length_bitsBE,List.length_cons]
    omega

theorem streamBits_append (as bs : List Byte) :
    streamBits (as++bs)=streamBits as++streamBits bs := List.flatMap_append

theorem streamBits_inj {as bs : List Byte} (h : streamBits as=streamBits bs) : as=bs := by
  have hmap : ∀l : List Byte,streamBits l=(l.map BitVec.toNat).flatMap (bitsBE 8) := fun l => by
    rw [streamBits,List.flatMap_map]
  have hlt : ∀l : List Byte,∀x∈l.map BitVec.toNat,x<2^8 := by
    intro l x hx
    obtain ⟨b,-,rfl⟩ := List.mem_map.mp hx
    exact b.isLt
  rw [hmap,hmap] at h
  exact List.map_injective_iff.mpr (fun _ _ => BitVec.eq_of_toNat_eq)
    (flatMap_bitsBE_inj (by decide) (hlt as) (hlt bs) h)

/-- The byte at a place of a row of numbers that take `n` bytes each. -/
theorem getD_flatMap_bytesBE {n k x : Nat} {vs : List Nat} (hk : k<vs.length) (hx : x<n) :
    (vs.flatMap (bytesBE n)).getD (n*k+x) 0=BitVec.ofNat 8 ((vs.getD k 0) >>> (8*(n-x-1))) := by
  induction vs generalizing k with
  | nil => simp at hk
  | cons v vs ih =>
    rw [List.flatMap_cons]
    cases k with
    | zero =>
      rw [Nat.mul_zero,Nat.zero_add,List.getD_append _ _ _ _ (by simpa using hx),
        List.getD_eq_getElem _ _ (by simpa using hx)]
      simp [bytesBE]
    | succ k =>
      have hplace : n*(k+1)+x=n+(n*k+x) := by rw [Nat.mul_add]; omega
      rw [hplace,List.getD_append_right _ _ _ _ (by simp),length_bytesBE,Nat.add_sub_cancel_left,
        ih (by simpa using hk),List.getD_cons_succ]

theorem bytesBE_succ (n x : Nat) :
    bytesBE (n+1) x=BitVec.ofNat 8 (x >>> (8*n))::bytesBE n x := by
  rw [bytesBE,List.range_succ_eq_map,List.map_cons,List.map_map]
  congr 1
  apply List.map_congr_left
  intro i _
  have hplace : n+1-(i+1)-1=n-i-1 := by omega
  simp only [Function.comp_apply,Nat.succ_eq_add_one,hplace]

/-- The bits of the bytes of a number. -/
theorem streamBits_bytesBE (n x : Nat) : streamBits (bytesBE n x)=bitsBE (8*n) x := by
  induction n with
  | zero => rfl
  | succ n ih =>
    have hsplit : 8*(n+1)=8+8*n := by omega
    have hcons : streamBits (bytesBE (n+1) x)=
        bitsBE 8 (BitVec.ofNat 8 (x >>> (8*n))).toNat++streamBits (bytesBE n x) := by
      rw [bytesBE_succ]
      rfl
    rw [hcons,ih,hsplit,bitsBE_add,BitVec.toNat_ofNat,bitsBE_mod]

theorem bytesBE_inj {n x y : Nat} (hx : x<2^(8*n)) (hy : y<2^(8*n))
    (h : bytesBE n x=bytesBE n y) : x=y := by
  have hbits := congrArg streamBits h
  rw [streamBits_bytesBE,streamBits_bytesBE] at hbits
  exact bitsBE_inj hx hy hbits

theorem bitsBE_zero (w : Nat) : bitsBE w 0=List.replicate w false := by
  induction w with
  | zero => rfl
  | succ w ih => rw [bitsBE,ih,Nat.zero_testBit,List.replicate_succ]

theorem zipWith_xor_bitsBE (w x y : Nat) :
    List.zipWith xor (bitsBE w x) (bitsBE w y)=bitsBE w (x ^^^ y) := by
  induction w with
  | zero => rfl
  | succ w ih => rw [bitsBE,bitsBE,bitsBE,List.zipWith_cons_cons,ih,Nat.testBit_xor]

theorem zipWith_xor_bytesBE (n x y : Nat) :
    List.zipWith (· ^^^ ·) (bytesBE n x) (bytesBE n y)=bytesBE n (x ^^^ y) := by
  induction n with
  | zero => rfl
  | succ n ih =>
    rw [bytesBE_succ,bytesBE_succ,bytesBE_succ,List.zipWith_cons_cons,ih,
      Nat.shiftRight_xor_distrib,BitVec.ofNat_xor]

/-- A bitwise operation on strings of numbers that are written side by side. -/
theorem zipWith_flatMap_map {γ : Type} {w : Nat} {write : Nat → List γ} {op : γ → γ → γ}
    (hlen : ∀x,(write x).length=w)
    (hop : ∀x y,List.zipWith op (write x) (write y)=write (x ^^^ y)) (f g : Nat → Nat)
    (l : List Nat) :
    List.zipWith op ((l.map f).flatMap write) ((l.map g).flatMap write)=
      (l.map fun s => f s ^^^ g s).flatMap write := by
  induction l with
  | nil => rfl
  | cons s l ih =>
    simp only [List.map_cons,List.flatMap_cons]
    rw [List.zipWith_append ((hlen _).trans (hlen _).symm),hop,ih]

/-- Numbers of one width compare as their bytes do. -/
theorem bytesBE_append_lt (n x y : Nat) (r s : List Byte) :
    bytesBE n x++r<bytesBE n y++s ↔
      x%2^(8*n)<y%2^(8*n) ∨ x%2^(8*n)=y%2^(8*n) ∧ r<s := by
  induction n with
  | zero => simp [bytesBE,Nat.mod_one]
  | succ n ih =>
    have hpow : 2^(8*(n+1))=2^(8*n)*2^8 := by
      rw [← Nat.pow_add,Nat.mul_add,Nat.mul_one]
    rw [bytesBE_succ,bytesBE_succ,List.cons_append,List.cons_append,List.cons_lt_cons_iff,ih,hpow,
      Nat.mod_mul,Nat.mod_mul,BitVec.lt_def,← BitVec.toNat_inj,BitVec.toNat_ofNat,
      BitVec.toNat_ofNat,Nat.shiftRight_eq_div_pow,Nat.shiftRight_eq_div_pow]
    have hx := Nat.mod_lt x (Nat.two_pow_pos (8*n))
    have hy := Nat.mod_lt y (Nat.two_pow_pos (8*n))
    generalize x/2^(8*n)%2^8=p
    generalize y/2^(8*n)%2^8=q
    generalize x%2^(8*n)=a at *
    generalize y%2^(8*n)=b at *
    generalize 2^(8*n)=m at *
    rcases Nat.lt_trichotomy p q with hlt | rfl | hlt
    · have hstep : m*p+m ≤ m*q := by
        calc m*p+m=m*(p+1) := by ring
          _ ≤ m*q := Nat.mul_le_mul_left m hlt
      constructor
      · intro _
        left
        omega
      · intro _
        exact Or.inl hlt
    · constructor
      · rintro (h | ⟨-,h | ⟨h,hrs⟩⟩)
        · omega
        · left
          omega
        · right
          exact ⟨by omega,hrs⟩
      · rintro (h | ⟨h,hrs⟩)
        · right
          exact ⟨rfl,Or.inl (by omega)⟩
        · right
          exact ⟨rfl,Or.inr ⟨by omega,hrs⟩⟩
    · have hstep : m*q+m ≤ m*p := by
        calc m*q+m=m*(q+1) := by ring
          _ ≤ m*p := Nat.mul_le_mul_left m hlt
      constructor
      · rintro (h | ⟨h,-⟩) <;> omega
      · rintro (h | ⟨h,-⟩) <;> omega

/-- So do lists of such numbers. -/
theorem flatMap_bytesBE_lt {n : Nat} {xs ys : List Nat} (hx : ∀x∈xs,x<2^(8*n))
    (hy : ∀y∈ys,y<2^(8*n)) (hlen : xs.length=ys.length) :
    xs.flatMap (bytesBE n)<ys.flatMap (bytesBE n) ↔ xs<ys := by
  induction xs generalizing ys with
  | nil =>
    cases ys with
    | nil => simp
    | cons y ys => simp at hlen
  | cons x xs ih =>
    cases ys with
    | nil => simp at hlen
    | cons y ys =>
      rw [List.forall_mem_cons] at hx hy
      rw [List.flatMap_cons,List.flatMap_cons,bytesBE_append_lt,List.cons_lt_cons_iff,
        Nat.mod_eq_of_lt hx.1,Nat.mod_eq_of_lt hy.1,ih hx.2 hy.2 (by simpa using hlen)]

end Bits

end Zdeex.Framework
