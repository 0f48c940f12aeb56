import Mathlib.Algebra.Order.Ring.Nat
import Mathlib.Tactic.Ring

namespace Zdeex.Framework.Floating

/-- The leading `k` of `n` digits in base `b`, filled up with zeros when there are fewer. -/
def mantissa (b k n v : Nat) : Nat := if n≤k then v*b^(k-n) else v/b^(n-k)

/-- The number of `n` digits that begins with the `k` digits of `m`. -/
def decode (b k n m : Nat) : Nat := if n≤k then m/b^(k-n) else m*b^(n-k)

/-- `n` is the least number of digits that leaves the highest bit free. -/
structure Normal (b v n : Nat) : Prop where
  lt : 2*v<b^n
  least : v≠0 → b^(n-1)≤2*v
  zero : v=0 → n=0

variable {b k n v : Nat}

theorem Normal.le_of_lt (hb : 1<b) (h : Normal b v n) {s : Nat} (hs : 2*v<b^s) : n ≤ s := by
  by_cases hv : v=0
  · rw [h.zero hv]
    exact Nat.zero_le s
  · have := (Nat.pow_lt_pow_iff_right hb).mp ((h.least hv).trans_lt hs)
    omega

theorem Normal.mono (hb : 1<b) {v' n' : Nat} (h : Normal b v n) (h' : Normal b v' n')
    (hv : v≤v') : n≤n' := h.le_of_lt hb (by have := h'.lt; omega)

theorem Normal.unique (hb : 1<b) {n' : Nat} (h : Normal b v n) (h' : Normal b v n') : n=n' :=
  Nat.le_antisymm (h.mono hb h' le_rfl) (h'.mono hb h le_rfl)

theorem pow_split (hn : k≤n) : b^n=b^(n-k)*b^k := by
  rw [← pow_add,Nat.sub_add_cancel hn]

/-- One more digit pushes the last one out of the mantissa. -/
theorem mantissa_succ (hb : 0<b) : mantissa b k (n+1) v=mantissa b k n v/b := by
  unfold mantissa
  split_ifs with hsucc hn hn
  · have hsplit : b^(k-n)=b^(k-(n+1))*b := by
      rw [← pow_succ]
      congr 1
      omega
    rw [hsplit,← Nat.mul_assoc,Nat.mul_div_cancel _ hb]
  · omega
  · obtain rfl : n=k := by omega
    rw [Nat.sub_self,pow_zero,Nat.mul_one,Nat.add_sub_cancel_left,pow_one]
  · rw [Nat.div_div_eq_div_mul,← pow_succ]
    congr 2
    omega

/-- The highest bit of the mantissa is the highest bit of the number. -/
theorem two_mul_mantissa_lt_iff (hb : 0<b) (h2 : 2∣b) (hk : 1≤k) :
    2*mantissa b k n v<b^k ↔ 2*v<b^n := by
  unfold mantissa
  split_ifs with hn
  · have hsplit : b^k=b^n*b^(k-n) := by
      rw [← pow_add]
      congr 1
      omega
    rw [hsplit,← Nat.mul_assoc]
    exact Nat.mul_lt_mul_right (Nat.pow_pos hb)
  · obtain ⟨c,hc⟩ : ∃c,b^k=2*c := dvd_trans h2 (dvd_pow_self b (by omega))
    have hsplit : b^n=2*(c*b^(n-k)) := by
      rw [← Nat.mul_assoc,← hc,← pow_add]
      congr 1
      omega
    rw [hsplit,hc,Nat.mul_lt_mul_left (by decide),Nat.mul_lt_mul_left (by decide)]
    exact Nat.div_lt_iff_lt_mul (Nat.pow_pos hb)

/-- The number of digits, one more if the highest bit is in use. -/
theorem normal_of_length (hb : 1<b) (hlt : v<b^n) (hle : v≠0 → b^(n-1)≤v) (hzero : v=0 → n=0) :
    Normal b v (if 2*v<b^n then n else n+1) := by
  split_ifs with hfree
  · exact ⟨hfree,fun hv => (hle hv).trans (by omega),hzero⟩
  · refine ⟨?_,fun _ => by rw [Nat.add_sub_cancel]; omega,fun hv => ?_⟩
    · have hmul : 2*b^n≤b^(n+1) := by
        rw [pow_succ,Nat.mul_comm]
        exact Nat.mul_le_mul_left _ hb
      omega
    · obtain rfl := hzero hv
      rw [hv,pow_zero] at hfree
      exact absurd Nat.one_pos hfree

theorem Normal.mantissa_lt (hb : 0<b) (h2 : 2∣b) (hk : 1≤k) (h : Normal b v n) :
    2*mantissa b k n v<b^k := (two_mul_mantissa_lt_iff hb h2 hk).mpr h.lt

theorem decode_mantissa_of_le (hb : 0<b) (hn : n≤k) : decode b k n (mantissa b k n v)=v := by
  rw [decode,mantissa,if_pos hn,if_pos hn,Nat.mul_div_cancel _ (Nat.pow_pos hb)]

theorem decode_mantissa_of_lt (hn : k<n) :
    decode b k n (mantissa b k n v)=v/b^(n-k)*b^(n-k) := by
  rw [decode,mantissa,if_neg (by omega),if_neg (by omega)]

/-- Digits behind the leading ones are lost, and nothing else. -/
theorem decode_mantissa_le (hb : 0<b) :
    decode b k n (mantissa b k n v)≤v ∧ v-decode b k n (mantissa b k n v)<b^(n-k) := by
  by_cases hn : n≤k
  · rw [decode_mantissa_of_le hb hn,Nat.sub_self]
    exact ⟨le_rfl,Nat.pow_pos hb⟩
  · rw [decode_mantissa_of_lt (by omega)]
    have hmod := Nat.div_add_mod' v (b^(n-k))
    have hle := Nat.div_mul_le_self v (b^(n-k))
    have hlt := Nat.mod_lt v (Nat.pow_pos (n := n-k) hb)
    exact ⟨hle,by omega⟩

/-- A multiple of the last digit that is kept survives. -/
theorem decode_mantissa_of_dvd (hb : 0<b) (hdvd : k<n → b^(n-k)∣v) :
    decode b k n (mantissa b k n v)=v := by
  by_cases hn : n≤k
  · exact decode_mantissa_of_le hb hn
  · rw [decode_mantissa_of_lt (by omega),Nat.div_mul_cancel (hdvd (by omega))]

/-- Half of a power of an even base is a multiple of all lower powers. -/
theorem half_pow (h2 : 2∣b) {i j : Nat} (hij : i<j) : ∃c,b^j=2*(c*b^i) := by
  obtain ⟨h,rfl⟩ := h2
  refine ⟨h*(2*h)^(j-i-1),?_⟩
  have hj : j=i+1+(j-i-1) := by omega
  conv_lhs => rw [hj,pow_add,pow_succ]
  ring

theorem decode_mantissa_mono (hb : 1<b) (h2 : 2∣b) (hk : 2≤k) {v' n' : Nat} (h : Normal b v n)
    (h' : Normal b v' n') (hv : v≤v') :
    decode b k n (mantissa b k n v)≤decode b k n' (mantissa b k n' v') := by
  have hpos : 0<b := by omega
  have hn := h.mono hb h' hv
  rcases Nat.lt_or_eq_of_le hn with hlt | rfl
  · refine (decode_mantissa_le hpos).1.trans ?_
    by_cases hn' : n'≤k
    · rw [decode_mantissa_of_le hpos hn']
      exact hv
    · rw [decode_mantissa_of_lt (by omega)]
      have hne : v'≠0 := fun hzero => by have := h'.zero hzero; omega
      obtain ⟨c,hc⟩ := half_pow h2 (show n'-k<n'-1 by omega)
      have hleast := h'.least hne
      have hstep : b^n≤b^(n'-1) := Nat.pow_le_pow_right hpos (by omega)
      have hvlt := h.lt
      have hcle : c≤v'/b^(n'-k) := (Nat.le_div_iff_mul_le (Nat.pow_pos hpos)).mpr (by omega)
      have := Nat.mul_le_mul_right (b^(n'-k)) hcle
      omega
  · unfold decode mantissa
    split_ifs
    · exact Nat.div_le_div_right (Nat.mul_le_mul_right _ hv)
    · exact Nat.mul_le_mul_right _ (Nat.div_le_div_right hv)

theorem mantissa_mono (n : Nat) {v v' : Nat} (hv : v≤v') :
    mantissa b k n v ≤ mantissa b k n v' := by
  unfold mantissa
  split_ifs
  · exact Nat.mul_le_mul_right _ hv
  · exact Nat.div_le_div_right hv

theorem two_mul_decode_lt (hb : 0<b) {s m : Nat} (hm : 2*m<b^k) : 2*decode b k s m<b^s := by
  unfold decode
  split_ifs with hs
  · by_contra hcon
    have hle : b^s*b^(k-s)≤2*(m/b^(k-s))*b^(k-s) := Nat.mul_le_mul_right _ (by omega)
    have hdiv := Nat.div_mul_le_self m (b^(k-s))
    rw [Nat.mul_comm (b^s),← pow_split hs,Nat.mul_assoc] at hle
    omega
  · rw [pow_split (show k ≤ s by omega),← Nat.mul_assoc,Nat.mul_comm (b^(s-k))]
    exact Nat.mul_lt_mul_of_pos_right hm (Nat.pow_pos hb)

/-- What was decoded loses nothing when it is encoded again. -/
theorem decode_again (hb : 1<b) {s m : Nat} (hm : 2*m<b^k) (h : Normal b (decode b k s m) n) :
    decode b k n (mantissa b k n (decode b k s m))=decode b k s m := by
  have hpos : 0<b := by omega
  have hns := h.le_of_lt hb (two_mul_decode_lt hpos hm)
  refine decode_mantissa_of_dvd hpos fun hkn => ?_
  rw [decode,if_neg (by omega)]
  exact dvd_mul_of_dvd_right (pow_dvd_pow b (by omega)) m

/-- No digit is wasted: the mantissa begins with a digit or with its sign bit free, and ends in
zeros where the number has fewer digits. -/
structure Canonical (b k n m : Nat) : Prop where
  lt : 2*m<b^k
  zero : m=0 → n=0
  least : m≠0 → b^(k-1)≤2*m
  dvd : n≤k → b^(k-n)∣m

theorem Canonical.encode (hb : 1<b) {m : Nat} (h : Canonical b k n m) (hk : 1≤k) :
    Normal b (decode b k n m) n ∧ mantissa b k n (decode b k n m)=m := by
  have hpos : 0<b := by omega
  have hback : mantissa b k n (decode b k n m)=m := by
    unfold mantissa decode
    split_ifs with hn
    · exact Nat.div_mul_cancel (h.dvd hn)
    · exact Nat.mul_div_cancel _ (Nat.pow_pos hpos)
  have hm : decode b k n m=0 → m=0 := by
    intro hzero
    rw [hzero] at hback
    rw [← hback,mantissa]
    split_ifs
    · exact Nat.zero_mul _
    · exact Nat.zero_div _
  refine ⟨⟨two_mul_decode_lt hpos h.lt,fun hne => ?_,fun hzero => h.zero (hm hzero)⟩,hback⟩
  have hmne : m≠0 := by
    rintro rfl
    apply hne
    unfold decode
    split_ifs
    · exact Nat.zero_div _
    · exact Nat.zero_mul _
  have hleast := h.least hmne
  have hn0 : n≠0 := by
    rintro rfl
    have hdvd := h.dvd (Nat.zero_le k)
    rw [Nat.sub_zero] at hdvd
    have := Nat.le_of_dvd (Nat.pos_of_ne_zero hmne) hdvd
    have := h.lt
    omega
  by_cases hn : n≤k
  · have hmul : decode b k n m*b^(k-n)=m := by
      rw [decode,if_pos hn]
      exact Nat.div_mul_cancel (h.dvd hn)
    have hsplit : b^(k-1)=b^(n-1)*b^(k-n) := by
      rw [← pow_add]
      congr 1
      omega
    have hle : b^(n-1)*b^(k-n)≤2*decode b k n m*b^(k-n) := by
      rw [← hsplit,Nat.mul_assoc,hmul]
      exact hleast
    exact Nat.le_of_mul_le_mul_right hle (Nat.pow_pos hpos)
  · have hsplit : b^(n-1)=b^(k-1)*b^(n-k) := by
      rw [← pow_add]
      congr 1
      omega
    rw [decode,if_neg hn,hsplit,← Nat.mul_assoc]
    exact Nat.mul_le_mul_right _ hleast

/-- What is encoded has the canonical form. -/
theorem Normal.canonical (hb : 1<b) (h2 : 2∣b) (hk : 2≤k) (h : Normal b v n) :
    Canonical b k n (mantissa b k n v) := by
  have hpos : 0<b := by omega
  have hlow : v≠0 → b^(k-1)≤2*mantissa b k n v := by
    intro hv
    have hleast := h.least hv
    have hn0 : n≠0 := by
      rintro rfl
      have hlt := h.lt
      rw [pow_zero] at hlt
      omega
    unfold mantissa
    split_ifs with hn
    · have hsplit : b^(k-1)=b^(n-1)*b^(k-n) := by
        rw [← pow_add]
        congr 1
        omega
      rw [hsplit,← Nat.mul_assoc]
      exact Nat.mul_le_mul_right _ hleast
    · obtain ⟨c,hc⟩ := half_pow h2 (show n-k<n-1 by omega)
      have hsplit : b^(n-1)=b^(k-1)*b^(n-k) := by
        rw [← pow_add]
        congr 1
        omega
      have hck : b^(k-1)=2*c := by
        apply Nat.eq_of_mul_eq_mul_right (Nat.pow_pos (n := n-k) hpos)
        rw [← hsplit,hc,Nat.mul_assoc]
      have hcle : c≤v/b^(n-k) := (Nat.le_div_iff_mul_le (Nat.pow_pos hpos)).mpr (by omega)
      omega
  refine ⟨h.mantissa_lt hpos h2 (by omega),fun hzero => ?_,fun hne => ?_,fun hn => ?_⟩
  · apply h.zero
    by_contra hv
    have := hlow hv
    have := Nat.pow_pos (n := k-1) hpos
    omega
  · apply hlow
    rintro rfl
    apply hne
    unfold mantissa
    split_ifs
    · exact Nat.zero_mul _
    · exact Nat.zero_div _
  · rw [mantissa,if_pos hn]
    exact Nat.dvd_mul_left _ _

end Zdeex.Framework.Floating
