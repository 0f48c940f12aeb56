import Mathlib.Data.List.GetD
import Mathlib.Data.Nat.Size
import Mathlib.Tactic.Ring

namespace Zdeex.Framework.Limbs

abbrev Word := BitVec 32

/-- The number that the words spell, lowest word first. -/
def value : List Word → Nat
  | [] => 0
  | w::ws => w.toNat+2^32*value ws

/-- Bit `p` of the number; there are no bits above the last word. -/
def bit (ws : List Word) (p : Nat) : Bool := (ws.getD (p/32) 0).getLsbD (p%32)

@[simp] theorem value_replicate (n : Nat) : value (List.replicate n 0#32)=0 := by
  induction n with
  | zero => rfl
  | succ n ih => rw [List.replicate_succ,value,ih]; rfl

theorem value_eq_zero (ws : List Word) : value ws=0 ↔ ∀w∈ws,w=0 := by
  induction ws with
  | nil => simp [value]
  | cons w ws ih =>
    have hw : w.toNat=0 ↔ w=0 := BitVec.toNat_inj (y := 0#32)
    rw [value,List.forall_mem_cons,← ih,← hw]
    omega

theorem value_append (ws vs : List Word) :
    value (ws++vs)=value ws+2^(32*ws.length)*value vs := by
  induction ws with
  | nil => simp [value]
  | cons w ws ih =>
    rw [List.cons_append,value,value,ih,List.length_cons,Nat.mul_succ,pow_add]
    ring

theorem value_lt (ws : List Word) : value ws<2^(32*ws.length) := by
  induction ws with
  | nil => exact Nat.one_pos
  | cons w ws ih =>
    have hw := w.isLt
    rw [value,List.length_cons,Nat.mul_succ,pow_add]
    omega

theorem testBit_value (ws : List Word) (p : Nat) : (value ws).testBit p=bit ws p := by
  induction ws generalizing p with
  | nil => simp [value,bit]
  | cons w ws ih =>
    have hsum : value (w::ws)=2^32*value ws+w.toNat := Nat.add_comm _ _
    rw [hsum,Nat.testBit_two_pow_mul_add _ w.isLt]
    split_ifs with hp
    · have hzero : p/32=0 := Nat.div_eq_of_lt hp
      rw [bit,hzero,Nat.mod_eq_of_lt hp]
      rfl
    · obtain ⟨q,rfl⟩ : ∃q,p=q+32 := ⟨p-32,by omega⟩
      rw [Nat.add_sub_cancel,ih,bit,bit,Nat.add_div_right q (by decide),Nat.add_mod_right]
      rfl

theorem value_eq_of_bit {ws : List Word} {v : Nat} (h : ∀p,bit ws p=v.testBit p) : value ws=v := by
  apply Nat.eq_of_testBit_eq
  intro p
  rw [testBit_value,h]

theorem bit_of_le {ws : List Word} {p : Nat} (hp : 32*ws.length≤p) : bit ws p=false := by
  have hlen : ws.length≤p/32 := by omega
  rw [bit,List.getD_eq_default _ _ hlen]
  exact BitVec.getLsbD_zero

theorem bit_word (ws : List Word) (i : Nat) {b : Nat} (hb : b<32) :
    bit ws (32*i+b)=(ws.getD i 0).getLsbD b := by
  rw [bit,Nat.mul_add_div (by decide),Nat.div_eq_of_lt hb,Nat.mul_add_mod,Nat.mod_eq_of_lt hb,
    Nat.add_zero]

theorem bit_replicate (n p : Nat) : bit (List.replicate n 0#32) p=false := by
  rw [← testBit_value,value_replicate,Nat.zero_testBit]

/-- Word `i` of the number. -/
theorem value_take_succ {ws : List Word} {i : Nat} (hi : i<ws.length) :
    value (ws.take (i+1))=value (ws.take i)+2^(32*i)*(ws.getD i 0).toNat := by
  rw [List.take_add_one,List.getElem?_eq_getElem hi,value_append,List.length_take,
    Nat.min_eq_left hi.le,List.getD_eq_getElem _ _ hi]
  simp [value]

section Or

/-- The bits of a word are added to those at word `i`. -/
def orAt (ws : List Word) (i : Nat) (w : Word) : List Word := ws.modify i (·|||w)

@[simp] theorem length_orAt (ws : List Word) (i : Nat) (w : Word) :
    (orAt ws i w).length=ws.length := List.length_modify ..

theorem bit_orAt {ws : List Word} {i : Nat} (hi : i<ws.length) (w : Word) (p : Nat) :
    bit (orAt ws i w) p=(bit ws p || (p/32==i && w.getLsbD (p%32))) := by
  unfold bit orAt
  simp only [List.getD_eq_getElem?_getD,List.getElem?_modify]
  by_cases hp : i=p/32
  · subst hp
    rw [List.getElem?_eq_getElem hi]
    simp
  · have hne : (p/32==i)=false := by simpa using fun h => hp h.symm
    simp only [if_neg hp,hne,Bool.false_and,Bool.or_false]
    cases ws[p/32]? <;> rfl

theorem bit_if_orAt {ws : List Word} {i : Nat} {c : Prop} [Decidable c] (hi : c → i<ws.length)
    (w : Word) (p : Nat) : (if c then orAt ws i w else ws).length=ws.length ∧
      bit (if c then orAt ws i w else ws) p=
        (bit ws p || (decide c && (p/32==i && w.getLsbD (p%32)))) := by
  split_ifs with hc
  · simp [bit_orAt (hi hc),hc]
  · simp [hc]

/-- A loop whose rounds only add bits. -/
theorem bit_foldl {α : Type} {f : List Word → α → List Word} {n p : Nat} {c : α → Bool}
    {l : List α} (h : ∀a∈l,∀ws,ws.length=n →
      (f ws a).length=n ∧ bit (f ws a) p=(bit ws p || c a)) {ws : List Word} (hws : ws.length=n) :
    (l.foldl f ws).length=n ∧ bit (l.foldl f ws) p=(bit ws p || l.any c) := by
  induction l generalizing ws with
  | nil => exact ⟨hws,by simp⟩
  | cons a l ih =>
    obtain ⟨hlen,hbit⟩ := h a List.mem_cons_self ws hws
    obtain ⟨hlen',hbit'⟩ := ih (fun b hb => h b (List.mem_cons_of_mem a hb)) hlen
    refine ⟨hlen',?_⟩
    rw [List.foldl_cons,hbit',hbit,List.any_cons,Bool.or_assoc]

end Or

section Arithmetic

theorem value_map_not (ws : List Word) :
    value (ws.map fun w => ~~~w)=2^(32*ws.length)-1-value ws := by
  induction ws with
  | nil => rfl
  | cons w ws ih =>
    have hw := w.isLt
    have hws := value_lt ws
    rw [List.map_cons,value,value,ih,List.length_cons,Nat.mul_succ,pow_add,BitVec.toNat_not]
    omega

/-- The carry runs upwards until a word does not wrap. -/
def increment : List Word → List Word
  | [] => []
  | w::ws => (w+1)::if w+1=0 then increment ws else ws

@[simp] theorem length_increment (ws : List Word) : (increment ws).length=ws.length := by
  induction ws with
  | nil => rfl
  | cons w ws ih =>
    rw [increment]
    split_ifs <;> simp [ih]

theorem value_increment (ws : List Word) :
    value (increment ws)=(value ws+1)%2^(32*ws.length) := by
  induction ws with
  | nil => rfl
  | cons w ws ih =>
    have hw := w.isLt
    have hws := value_lt ws
    have hpow : 2^(32*(w::ws).length)=2^(32*ws.length)*2^32 := by
      rw [List.length_cons,Nat.mul_succ,pow_add]
    rw [increment,hpow]
    split_ifs with hwrap
    · have hmax : w.toNat=2^32-1 := by
        have hzero := congrArg BitVec.toNat hwrap
        rw [BitVec.toNat_add] at hzero
        have hone : (1 : Word).toNat=1 := rfl
        have hnone : (0 : Word).toNat=0 := rfl
        omega
      have hsum : value (w::ws)+1=2^32*(value ws+1) := by
        rw [value,hmax]
        omega
      rw [value,hwrap,ih,hsum,Nat.mul_comm _ (2^32),Nat.mul_mod_mul_left]
      exact Nat.zero_add _
    · have hlt : w.toNat+1<2^32 := by
        by_contra hcon
        apply hwrap
        apply BitVec.eq_of_toNat_eq
        have hmax : w.toNat=2^32-1 := by omega
        rw [BitVec.toNat_add,hmax]
        rfl
      have hword : (w+1).toNat=w.toNat+1 := by
        rw [BitVec.toNat_add]
        exact Nat.mod_eq_of_lt hlt
      rw [value,value,hword,Nat.mod_eq_of_lt (by omega)]
      omega

/-- The low word of a sum of two words' width, and the carry. -/
theorem toNat_lowWord (n : BitVec 64) :
    ((n &&& 0xffffffff#64).setWidth 32).toNat=n.toNat%2^32 := by
  have hmask : (0xffffffff#64).toNat=2^32-1 := rfl
  rw [BitVec.toNat_setWidth,BitVec.toNat_and,hmask,Nat.and_two_pow_sub_one_eq_mod,Nat.mod_mod]

theorem toNat_highWord (n : BitVec 64) : (n>>>32).toNat=n.toNat/2^32 := by
  rw [BitVec.toNat_ushiftRight,Nat.shiftRight_eq_div_pow]

/-- Word by word with a carry in twice the width. -/
def addCarry : BitVec 64 → List Word → List Word → List Word
  | carry,a::as,b::bs =>
      let n := carry+a.setWidth 64+b.setWidth 64
      (n &&& 0xffffffff#64).setWidth 32::addCarry (n>>>32) as bs
  | _,_,_ => []

theorem length_addCarry (carry : BitVec 64) {as bs : List Word} (h : as.length=bs.length) :
    (addCarry carry as bs).length=as.length := by
  induction as generalizing bs carry with
  | nil => rfl
  | cons a as ih =>
    cases bs with
    | nil => cases h
    | cons b bs => rw [addCarry,List.length_cons,List.length_cons,ih _ (Nat.succ.inj h)]

theorem value_addCarry {carry : BitVec 64} (hc : carry.toNat≤1) {as bs : List Word}
    (h : as.length=bs.length) :
    value (addCarry carry as bs)=(carry.toNat+value as+value bs)%2^(32*as.length) := by
  induction as generalizing bs carry with
  | nil => simp [addCarry,value,Nat.mod_one]
  | cons a as ih =>
    cases bs with
    | nil => cases h
    | cons b bs =>
      have ha := a.isLt
      have hb := b.isLt
      have hn : (carry+a.setWidth 64+b.setWidth 64).toNat=carry.toNat+a.toNat+b.toNat := by
        rw [BitVec.toNat_add,BitVec.toNat_add,BitVec.toNat_setWidth,BitVec.toNat_setWidth]
        omega
      have hhigh : ((carry+a.setWidth 64+b.setWidth 64)>>>32).toNat=
          (carry.toNat+a.toNat+b.toNat)/2^32 := by rw [toNat_highWord,hn]
      have hpow : 2^(32*(a::as).length)=2^32*2^(32*as.length) := by
        rw [List.length_cons,Nat.mul_succ,pow_add,Nat.mul_comm]
      rw [addCarry,value,toNat_lowWord,hn,ih (by rw [hhigh]; omega) (Nat.succ.inj h),hhigh,hpow,
        Nat.mod_mul,
        value,value]
      have hdiv : (carry.toNat+(a.toNat+2^32*value as)+(b.toNat+2^32*value bs))/2^32=
          (carry.toNat+a.toNat+b.toNat)/2^32+value as+value bs := by omega
      have hmod : (carry.toNat+(a.toNat+2^32*value as)+(b.toNat+2^32*value bs))%2^32=
          (carry.toNat+a.toNat+b.toNat)%2^32 := by omega
      rw [hdiv,hmod]

end Arithmetic

section Product

/-- The words times one word, with a carry in twice the width. -/
def mulCarry : BitVec 64 → Word → List Word → List Word
  | _,_,[] => []
  | carry,b,w::ws =>
      let n := carry+b.setWidth 64*w.setWidth 64
      (n &&& 0xffffffff#64).setWidth 32::mulCarry (n>>>32) b ws

/-- The words `bs` times one word are added to the words `ps`. -/
def mulAddCarry : BitVec 64 → Word → List Word → List Word → List Word
  | carry,a,p::ps,b::bs =>
      let n := carry+p.setWidth 64+a.setWidth 64*b.setWidth 64
      (n &&& 0xffffffff#64).setWidth 32::mulAddCarry (n>>>32) a ps bs
  | _,_,_,_ => []

/-- Row `j` of a product. -/
def mulRow (as bs ps : List Word) (j : Nat) : List Word :=
  ps.take j++mulAddCarry 0 (as.getD j 0) (ps.drop j) bs

@[simp] theorem length_mulCarry (carry : BitVec 64) (b : Word) (ws : List Word) :
    (mulCarry carry b ws).length=ws.length := by
  induction ws generalizing carry with
  | nil => rfl
  | cons w ws ih => rw [mulCarry,List.length_cons,List.length_cons,ih]

theorem length_mulAddCarry (carry : BitVec 64) (a : Word) {ps bs : List Word}
    (h : ps.length≤bs.length) : (mulAddCarry carry a ps bs).length=ps.length := by
  induction ps generalizing bs carry with
  | nil => rfl
  | cons p ps ih =>
    cases bs with
    | nil => cases h
    | cons b bs =>
      rw [mulAddCarry,List.length_cons,List.length_cons,ih _ (Nat.le_of_succ_le_succ h)]

/-- The largest words and the largest carry fit into twice the width. -/
theorem word_product_lt {a b c p : Nat} (ha : a<2^32) (hb : b<2^32) (hc : c<2^32)
    (hp : p<2^32) : c+p+a*b<2^64 := by
  have hab : a*b≤(2^32-1)*(2^32-1) := Nat.mul_le_mul (by omega) (by omega)
  omega

theorem value_mulCarry {carry : BitVec 64} (hc : carry.toNat<2^32) (b : Word) (ws : List Word) :
    value (mulCarry carry b ws)=(carry.toNat+b.toNat*value ws)%2^(32*ws.length) := by
  induction ws generalizing carry with
  | nil => simp [mulCarry,value,Nat.mod_one]
  | cons w ws ih =>
    have hsum := word_product_lt b.isLt w.isLt hc (Nat.two_pow_pos 32)
    rw [Nat.add_zero] at hsum
    have hproduct : b.toNat*w.toNat<2^64 := by omega
    have hn : (carry+b.setWidth 64*w.setWidth 64).toNat=carry.toNat+b.toNat*w.toNat := by
      rw [BitVec.toNat_add,BitVec.toNat_mul,BitVec.toNat_setWidth_of_le (by decide),
        BitVec.toNat_setWidth_of_le (by decide),Nat.mod_eq_of_lt hproduct,Nat.mod_eq_of_lt hsum]
    have hhigh : (carry.toNat+b.toNat*w.toNat)/2^32<2^32 := by omega
    have hpow : 2^(32*(w::ws).length)=2^32*2^(32*ws.length) := by
      rw [List.length_cons,Nat.mul_succ,pow_add,Nat.mul_comm]
    have hsplit : carry.toNat+b.toNat*value (w::ws)=
        carry.toNat+b.toNat*w.toNat+2^32*(b.toNat*value ws) := by
      rw [value]
      ring
    rw [mulCarry,value,toNat_lowWord,ih (by rw [toNat_highWord,hn]; exact hhigh),toNat_highWord,hn,
      hpow,hsplit,Nat.mod_mul,Nat.add_mul_mod_self_left,Nat.add_mul_div_left _ _ (by decide)]

theorem value_mulAddCarry {carry : BitVec 64} (hc : carry.toNat<2^32) (a : Word)
    {ps bs : List Word} (h : ps.length≤bs.length) :
    value (mulAddCarry carry a ps bs)=
      (carry.toNat+value ps+a.toNat*value bs)%2^(32*ps.length) := by
  induction ps generalizing bs carry with
  | nil => simp [mulAddCarry,value,Nat.mod_one]
  | cons p ps ih =>
    cases bs with
    | nil => cases h
    | cons b bs =>
      have hsum := word_product_lt a.isLt b.isLt hc p.isLt
      have hproduct : a.toNat*b.toNat<2^64 := by omega
      have hleft : carry.toNat+p.toNat<2^64 := by omega
      have hn : (carry+p.setWidth 64+a.setWidth 64*b.setWidth 64).toNat=
          carry.toNat+p.toNat+a.toNat*b.toNat := by
        rw [BitVec.toNat_add,BitVec.toNat_add,BitVec.toNat_mul,
          BitVec.toNat_setWidth_of_le (by decide),BitVec.toNat_setWidth_of_le (by decide),
          BitVec.toNat_setWidth_of_le (by decide),Nat.mod_eq_of_lt hproduct,
          Nat.mod_eq_of_lt hleft,Nat.mod_eq_of_lt hsum]
      have hhigh : (carry.toNat+p.toNat+a.toNat*b.toNat)/2^32<2^32 := by omega
      have hpow : 2^(32*(p::ps).length)=2^32*2^(32*ps.length) := by
        rw [List.length_cons,Nat.mul_succ,pow_add,Nat.mul_comm]
      have hsplit : carry.toNat+value (p::ps)+a.toNat*value (b::bs)=
          carry.toNat+p.toNat+a.toNat*b.toNat+2^32*(value ps+a.toNat*value bs) := by
        rw [value,value]
        ring
      rw [mulAddCarry,value,toNat_lowWord,
        ih (by rw [toNat_highWord,hn]; exact hhigh) (Nat.le_of_succ_le_succ h),toNat_highWord,hn,
        hpow,hsplit,Nat.mod_mul,Nat.add_mul_mod_self_left,Nat.add_mul_div_left _ _ (by decide),
        Nat.add_assoc _ (value ps)]

theorem length_mulRow {as bs ps : List Word} (h : ps.length≤bs.length) (j : Nat) :
    (mulRow as bs ps j).length=ps.length := by
  have hdrop : (ps.drop j).length≤bs.length := by
    rw [List.length_drop]
    omega
  rw [mulRow,List.length_append,length_mulAddCarry _ _ hdrop,← List.length_append,
    List.take_append_drop]

theorem value_mulRow {as bs ps : List Word} (h : ps.length≤bs.length) {j : Nat}
    (hj : j≤ps.length) : value (mulRow as bs ps j)=
      (value ps+2^(32*j)*((as.getD j 0).toNat*value bs))%2^(32*ps.length) := by
  have hdrop : (ps.drop j).length≤bs.length := by
    rw [List.length_drop]
    omega
  have hlow := value_lt (ps.take j)
  rw [List.length_take_of_le hj] at hlow
  have hwhole : value ps=value (ps.take j)+2^(32*j)*value (ps.drop j) := by
    conv_lhs => rw [← List.take_append_drop j ps,value_append,List.length_take_of_le hj]
  have hpow : 2^(32*ps.length)=2^(32*j)*2^(32*(ps.length-j)) := by
    rw [← pow_add,← Nat.mul_add,Nat.add_sub_cancel' hj]
  have hsplit : value ps+2^(32*j)*((as.getD j 0).toNat*value bs)=
      value (ps.take j)+2^(32*j)*(value (ps.drop j)+(as.getD j 0).toNat*value bs) := by
    rw [hwhole]
    ring
  rw [mulRow,value_append,List.length_take_of_le hj,
    value_mulAddCarry (by decide) _ hdrop,List.length_drop,hsplit,hpow,Nat.mod_mul,
    Nat.add_mul_mod_self_left,Nat.mod_eq_of_lt hlow,Nat.add_mul_div_left _ _ (Nat.two_pow_pos _),
    Nat.div_eq_of_lt hlow]
  simp

/-- The product after some of its rows. -/
theorem mulRows {as bs ps : List Word} (h : ps.length≤bs.length) (has : as.length=ps.length)
    (hzero : value ps=0) {j : Nat} (hj : j≤ps.length) :
    ((List.range j).foldl (mulRow as bs) ps).length=ps.length ∧
      value ((List.range j).foldl (mulRow as bs) ps)=
        value (as.take j)*value bs%2^(32*ps.length) := by
  induction j with
  | zero => simp [hzero,value]
  | succ j ih =>
    obtain ⟨hlen,hval⟩ := ih (by omega)
    have hbound : ((List.range j).foldl (mulRow as bs) ps).length≤bs.length := by rw [hlen]; exact h
    rw [List.range_succ,List.foldl_append,List.foldl_cons,List.foldl_nil]
    refine ⟨(length_mulRow hbound j).trans hlen,?_⟩
    rw [value_mulRow hbound (by omega),hlen,hval,Nat.mod_add_mod,
      @value_take_succ as _ (by omega)]
    congr 1
    ring

end Product

/-- Two numbers are compared from the highest word downwards. -/
def compareBelow (as bs : List Word) : Nat → Int
  | 0 => 0
  | i+1 =>
      if as.getD i 0<bs.getD i 0 then -1
      else if as.getD i 0>bs.getD i 0 then 1
      else compareBelow as bs i

theorem compareBelow_eq {as bs : List Word} {i : Nat} (ha : i≤as.length) (hb : i≤bs.length) :
    compareBelow as bs i=((value (as.take i) : Int)-value (bs.take i)).sign := by
  induction i with
  | zero => rfl
  | succ i ih =>
    have hlow := value_lt (as.take i)
    have hlow' := value_lt (bs.take i)
    rw [List.length_take_of_le (by omega)] at hlow hlow'
    rw [compareBelow,value_take_succ ha,value_take_succ hb,ih (by omega) (by omega)]
    simp only [BitVec.lt_def,GT.gt]
    generalize (as.getD i 0).toNat=x
    generalize (bs.getD i 0).toNat=y
    have hgap : ∀{x y : Nat},x<y → 2^(32*i)*x+2^(32*i)≤2^(32*i)*y := by
      intro x y hxy
      rw [← Nat.mul_succ]
      exact Nat.mul_le_mul_left _ hxy
    split_ifs with hlt hgt
    · have := hgap hlt
      exact (Int.sign_eq_neg_one_of_neg (by omega)).symm
    · have := hgap hgt
      exact (Int.sign_eq_one_of_pos (by omega)).symm
    · obtain rfl : x=y := by omega
      congr 1
      omega

/-- The length of a number in bits is found at its highest bit. -/
theorem size_of_topBit {v r : Nat} (hr : v.testBit r=true) (h : ∀j,r<j → v.testBit j=false) :
    v.size=r+1 := by
  apply Nat.le_antisymm
  · rw [Nat.size_le]
    apply Nat.lt_pow_two_of_testBit
    intro j hj
    exact h j hj
  · exact Nat.lt_size.mpr (Nat.ge_two_pow_of_testBit hr)

/-- Long division in base two: `n` rounds, with the divisor `d*2^(n-1)` at the first one. -/
def longDivision (d : Nat) : Nat → Nat → Nat → Nat
  | 0,_,q => q
  | n+1,num,q => if d*2^n≤num then longDivision d n (num-d*2^n) (q+2^n) else longDivision d n num q

theorem longDivision_eq {d n num q : Nat} (hd : 0<d) (hnum : num<d*2^n) :
    longDivision d n num q=q+num/d := by
  induction n generalizing num q with
  | zero => rw [longDivision,Nat.div_eq_of_lt (by omega),Nat.add_zero]
  | succ n ih =>
    rw [pow_succ] at hnum
    have hhalf : d*(2^n*2)=d*2^n+d*2^n := by ring
    rw [longDivision]
    split_ifs with hle
    · have hsplit : num=num-d*2^n+d*2^n := by omega
      have hdiv : num/d=(num-d*2^n)/d+2^n := by
        conv_lhs => rw [hsplit,Nat.add_mul_div_left _ _ hd]
      rw [ih (by omega),hdiv]
      omega
    · rw [ih (by omega)]

end Zdeex.Framework.Limbs
