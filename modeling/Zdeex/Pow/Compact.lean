import Zdeex.Framework.Floating
import Zdeex.Pow.BaseUint

namespace Zdeex.Pow

open Zdeex.Framework Floating

namespace BaseUint

/-- `SetCompact` word by word, with its flags `fNegative` and `fOverflow`. -/
def setCompact (nCompact : BitVec 32) : BaseUint × Bool × Bool :=
  let nSize := (nCompact>>>24).toNat
  let word := nCompact &&& 0x007fffff
  let nWord := if nSize≤3 then word>>>(8*(3-nSize)) else word
  (if nSize≤3 then ofUint64 (nWord.setWidth 64)
    else (ofUint64 (nWord.setWidth 64)).shl (8*(nSize-3)),
    nWord≠0 && nCompact &&& 0x00800000≠0,
    nWord≠0 && (nSize>34 || nWord>0xff && nSize>33 || nWord>0xffff && nSize>32))

/-- The end of `GetCompact`; `none` is a failed assertion. -/
def packCompact (nCompact : BitVec 32) (nSize : Nat) (fNegative : Bool) : Option (BitVec 32) :=
  if nCompact &&& ~~~0x007fffff≠0 then none
  else if nSize≥256 then none
  else
    let nCompact := nCompact ||| BitVec.ofNat 32 nSize<<<24
    some (nCompact ||| if fNegative && nCompact &&& 0x007fffff≠0 then 0x00800000 else 0)

/-- A mantissa that would set the sign bit is divided by 256. -/
def getCompact (x : BaseUint) (fNegative : Bool) : Option (BitVec 32) :=
  let nSize := (x.bits+7)/8
  let nCompact : BitVec 32 :=
    if nSize≤3 then (x.getLow64<<<(8*(3-nSize))).setWidth 32
    else (x.shr (8*(nSize-3))).getLow64.setWidth 32
  if nCompact &&& 0x00800000≠0 then packCompact (nCompact>>>8) (nSize+1) fNegative
  else packCompact nCompact nSize fNegative

/-- Size and mantissa of a compact number, without its sign. -/
def compactSize (nCompact : BitVec 32) : Nat := nCompact.toNat/2^24

def compactMantissa (nCompact : BitVec 32) : Nat := nCompact.toNat%2^23

theorem toNat_and_mask (x : BitVec 32) (i : Nat) (hi : i≤32) :
    (x &&& BitVec.ofNat 32 (2^i-1)).toNat=x.toNat%2^i := by
  have hle : 2^i≤2^32 := Nat.pow_le_pow_right (by decide) hi
  have hpos : 0<2^i := Nat.two_pow_pos i
  rw [BitVec.toNat_and,BitVec.toNat_ofNat,Nat.mod_eq_of_lt (by omega),
    Nat.and_two_pow_sub_one_eq_mod]

theorem pow_eight (n : Nat) : 2^(8*n)=256^n := by
  rw [pow_mul]
  rfl

/-- The words follow the whole number. -/
theorem setCompact_refines (c : BitVec 32) :
    (setCompact c).1.val=(Pow.setCompact c).target.toNat ∧
      (setCompact c).2=((Pow.setCompact c).fNegative,(Pow.setCompact c).fOverflow) := by
  refine ⟨?_,rfl⟩
  unfold setCompact Pow.setCompact
  dsimp only
  split_ifs with hn
  · rw [val_ofUint64,BitVec.toNat_setWidth,BitVec.toNat_setWidth,Nat.mod_eq_of_lt (by omega),
      Nat.mod_eq_of_lt (by omega)]
  · rw [val_shl,val_ofUint64,BitVec.toNat_setWidth,BitVec.toNat_shiftLeft,BitVec.toNat_setWidth,
      Nat.shiftLeft_eq,Nat.mod_eq_of_lt (b := 2^64) (by omega),
      Nat.mod_eq_of_lt (a := BitVec.toNat _) (b := 2^256) (by omega)]

theorem compactSize_eq (c : BitVec 32) : (c>>>24).toNat=compactSize c := by
  rw [BitVec.toNat_ushiftRight,Nat.shiftRight_eq_div_pow]
  rfl

theorem compactMantissa_eq (c : BitVec 32) : (c &&& 0x007fffff).toNat=compactMantissa c :=
  toNat_and_mask c 23 (by decide)

/-- The mantissa that is left after the shift for short numbers. -/
def word (n m : Nat) : Nat := if n≤3 then m/256^(3-n) else m

theorem nWord_toNat (c : BitVec 32) :
    (if (c>>>24).toNat≤3 then (c &&& 0x007fffff)>>>(8*(3-(c>>>24).toNat))
      else c &&& 0x007fffff).toNat=word (compactSize c) (compactMantissa c) := by
  rw [compactSize_eq,word]
  split_ifs with hn
  · rw [BitVec.toNat_ushiftRight,compactMantissa_eq,Nat.shiftRight_eq_div_pow,pow_eight]
  · exact compactMantissa_eq c

theorem word_lt {n m : Nat} (hm : m<2^23) : word n m<2^23 := by
  unfold word
  split_ifs
  · exact (Nat.div_le_self _ _).trans_lt hm
  · exact hm

theorem decode_eq_word (n m : Nat) : decode 256 3 n m=word n m*2^(8*(n-3)) := by
  unfold decode word
  rw [pow_eight]
  split_ifs with hn
  · rw [show n-3=0 by omega,pow_zero,Nat.mul_one]
  · rfl

/-- The three conditions of the overflow flag meet the bound of 256 bits exactly. -/
theorem overflow_iff {n w : Nat} (hw : w<2^23) :
    (w≠0 ∧ (n>34 ∨ w>0xff ∧ n>33 ∨ w>0xffff ∧ n>32)) ↔ 2^256≤w*2^(8*(n-3)) := by
  constructor
  · rintro ⟨hne,hlong | ⟨hbyte,hlong⟩ | ⟨hbytes,hlong⟩⟩
    · calc 2^256≤2^(8*(n-3)) := Nat.pow_le_pow_right (by decide) (by omega)
        _≤w*2^(8*(n-3)) := Nat.le_mul_of_pos_left _ (by omega)
    · calc 2^256=2^8*2^248 := by decide +kernel
        _≤w*2^(8*(n-3)) := Nat.mul_le_mul (by omega) (Nat.pow_le_pow_right (by decide) (by omega))
    · calc 2^256=2^16*2^240 := by decide +kernel
        _≤w*2^(8*(n-3)) := Nat.mul_le_mul (by omega) (Nat.pow_le_pow_right (by decide) (by omega))
  · intro hle
    have hbound : ∀{i j : Nat},w<2^i → n-3≤j → i+8*j≤256 → False := by
      intro i j hi hj hsum
      have hlt : w*2^(8*(n-3))<2^i*2^(8*j) :=
        Nat.mul_lt_mul_of_lt_of_le hi (Nat.pow_le_pow_right (by decide) (by omega))
          (Nat.two_pow_pos _)
      have hpow : 2^i*2^(8*j)≤2^256 := by
        rw [← pow_add]
        exact Nat.pow_le_pow_right (by decide) hsum
      omega
    refine ⟨?_,?_⟩
    · rintro rfl
      rw [Nat.zero_mul] at hle
      exact absurd hle (by decide +kernel)
    · by_contra hcon
      by_cases h32 : n≤32
      · exact hbound (i := 23) (j := 29) hw (by omega) (by decide)
      · by_cases h33 : n≤33
        · exact hbound (i := 16) (j := 30) (by omega) (by omega) (by decide)
        · exact hbound (i := 8) (j := 31) (by omega) (by omega) (by decide)

theorem setCompact_spec (c : BitVec 32) :
    (setCompact c).1.val=decode 256 3 (compactSize c) (compactMantissa c)%2^256 ∧
      ((setCompact c).2.1=true → c &&& 0x00800000≠0) ∧
      ((setCompact c).2.2=true ↔ 2^256≤decode 256 3 (compactSize c) (compactMantissa c)) := by
  have hm : compactMantissa c<2^23 := Nat.mod_lt _ (by decide)
  have hw := word_lt (n := compactSize c) hm
  have hword := nWord_toNat c
  unfold setCompact
  dsimp only
  rw [compactSize_eq] at hword ⊢
  generalize (if compactSize c≤3 then (c &&& 0x007fffff)>>>(8*(3-compactSize c))
    else c &&& 0x007fffff)=nWord at hword ⊢
  rw [← hword] at hw
  rw [decode_eq_word,← hword]
  refine ⟨?_,?_,?_⟩
  · split_ifs with hn
    · rw [val_ofUint64,BitVec.toNat_setWidth,show compactSize c-3=0 by omega,Nat.mul_zero,pow_zero,
        Nat.mul_one]
      omega
    · rw [val_shl,val_ofUint64,BitVec.toNat_setWidth,Nat.mod_eq_of_lt (b := 2^64) (by omega)]
  · intro h
    simp only [Bool.and_eq_true,decide_eq_true_eq] at h
    exact h.2
  · have hzero : nWord≠0 ↔ nWord.toNat≠0 := not_congr BitVec.toNat_eq
    have hbyte : nWord>0xff ↔ nWord.toNat>0xff := Iff.rfl
    have hbytes : nWord>0xffff ↔ nWord.toNat>0xffff := Iff.rfl
    rw [← overflow_iff hw]
    simp only [Bool.and_eq_true,Bool.or_eq_true,decide_eq_true_eq,hzero,hbyte,hbytes]
    tauto

theorem byteLength (v : Nat) : v<256^((v.size+7)/8) ∧
    (v≠0 → 256^((v.size+7)/8-1)≤v) ∧ (v=0 → (v.size+7)/8=0) := by
  refine ⟨?_,fun hv => ?_,?_⟩
  · rw [← pow_eight]
    exact (Nat.lt_size_self v).trans_le (Nat.pow_le_pow_right (by decide) (by omega))
  · have hsize : v.size≠0 := fun h => hv (Nat.size_eq_zero.mp h)
    rw [← pow_eight]
    exact (Nat.pow_le_pow_right (by decide) (by omega)).trans
      (Nat.lt_size.mp (show v.size-1<v.size by omega))
  · rintro rfl
    rfl

theorem mantissa_lt_of_length {n v : Nat} (hv : v<256^n) : mantissa 256 3 n v<2^24 := by
  unfold mantissa
  split_ifs with hn
  · calc v*256^(3-n)<256^n*256^(3-n) := Nat.mul_lt_mul_of_pos_right hv (Nat.pow_pos (by decide))
      _=2^24 := by rw [← pow_add,Nat.add_sub_cancel' hn]; rfl
  · apply Nat.div_lt_of_lt_mul
    calc v<256^n := hv
      _=256^(n-3)*2^24 := by rw [show (2 : Nat)^24=256^3 by rfl,← pow_add]; congr 1; omega

theorem firstMantissa (x : BaseUint) {n : Nat} (hx : x.val<256^n) :
    (if n≤3 then (x.getLow64<<<(8*(3-n))).setWidth 32
      else (x.shr (8*(n-3))).getLow64.setWidth 32 : BitVec 32).toNat=mantissa 256 3 n x.val := by
  have hlt := mantissa_lt_of_length hx
  unfold mantissa at hlt ⊢
  split_ifs at hlt ⊢ with hn
  · have hle : x.val≤x.val*256^(3-n) := Nat.le_mul_of_pos_right _ (Nat.pow_pos (by decide))
    rw [BitVec.toNat_setWidth,BitVec.toNat_shiftLeft,getLow64_toNat,Nat.shiftLeft_eq,pow_eight,
      Nat.mod_eq_of_lt (a := x.val) (by omega),Nat.mod_eq_of_lt (b := 2^64) (by omega),
      Nat.mod_eq_of_lt (by omega)]
  · rw [BitVec.toNat_setWidth,getLow64_toNat,val_shr,pow_eight,
      Nat.mod_eq_of_lt (b := 2^64) (by omega),Nat.mod_eq_of_lt (by omega)]

theorem signBit_iff {x : BitVec 32} (hx : x.toNat<2^24) : x &&& 0x00800000≠0 ↔ 2^23≤x.toNat := by
  have hmask : (0x00800000 : BitVec 32)=BitVec.twoPow 32 23 := by decide
  have hbit : x.getLsbD 23=true ↔ 2^23≤x.toNat := by
    rw [BitVec.getLsbD,Nat.testBit_eq_decide_div_mod_eq,decide_eq_true_eq]
    omega
  rw [hmask,BitVec.and_twoPow,← hbit]
  split_ifs with h
  · exact iff_of_true (by decide) h
  · exact iff_of_false (fun hne => hne rfl) h

theorem assertion_holds {x : BitVec 32} (hx : x.toNat<2^23) : x &&& ~~~0x007fffff=0 := by
  have hlow : x &&& 0x007fffff=x := by
    apply BitVec.eq_of_toNat_eq
    rw [compactMantissa_eq,compactMantissa,Nat.mod_eq_of_lt hx]
  rw [← hlow,BitVec.and_assoc]
  have hnone : (0x007fffff : BitVec 32) &&& ~~~0x007fffff=0 := by decide
  rw [hnone]
  exact BitVec.and_zero

theorem compose_toNat {x : BitVec 32} {n : Nat} (hx : x.toNat<2^24) (hn : n<256) :
    (x ||| BitVec.ofNat 32 n<<<24).toNat=n*2^24+x.toNat := by
  rw [BitVec.toNat_or,BitVec.toNat_shiftLeft,BitVec.toNat_ofNat,Nat.shiftLeft_eq,
    Nat.mod_eq_of_lt (b := 2^32) (by omega),Nat.mod_eq_of_lt (b := 2^32) (by omega),Nat.or_comm,
    Nat.mul_comm n,← Nat.two_pow_add_eq_or_of_lt hx]

theorem packCompact_spec {w : BitVec 32} {n : Nat} (hw : w.toNat<2^23) (hn : n<256) :
    ∃c,packCompact w n false=some c ∧ compactSize c=n ∧ compactMantissa c=w.toNat ∧
      c.toNat=n*2^24+w.toNat := by
  have hcompose := compose_toNat (x := w) (n := n) (by omega) hn
  refine ⟨w ||| BitVec.ofNat 32 n<<<24,?_,?_,?_,hcompose⟩
  · unfold packCompact
    rw [if_neg (not_not.mpr (assertion_holds hw)),if_neg (by omega)]
    exact congrArg some BitVec.or_zero
  · rw [compactSize,hcompose]
    omega
  · rw [compactMantissa,hcompose]
    omega

/-- Size and mantissa of what `GetCompact` returns; its assertions hold. -/
theorem getCompact_spec (x : BaseUint) : ∃c,x.getCompact false=some c ∧ compactSize c≤33 ∧
    Normal 256 x.val (compactSize c) ∧ compactMantissa c=mantissa 256 3 (compactSize c) x.val ∧
    c.toNat=compactSize c*2^24+compactMantissa c := by
  obtain ⟨hlt,hle,hzero⟩ := byteLength x.val
  have hsize : (x.val.size+7)/8≤32 := by
    have := Nat.size_le.mpr x.val_lt
    omega
  have hnormal := normal_of_length (b := 256) (by decide) hlt hle hzero
  have hfirst := firstMantissa x hlt
  have hbound := mantissa_lt_of_length hlt
  have hfree := two_mul_mantissa_lt_iff (b := 256) (k := 3) (n := (x.val.size+7)/8) (v := x.val)
    (by decide) (by decide) (by decide)
  unfold getCompact
  dsimp only
  rw [bits_eq]
  generalize (x.val.size+7)/8=n at *
  generalize (if n≤3 then (x.getLow64<<<(8*(3-n))).setWidth 32
    else (x.shr (8*(n-3))).getLow64.setWidth 32 : BitVec 32)=w at *
  rw [← hfirst] at hbound hfree
  have hsign := signBit_iff hbound
  by_cases hset : 2^23≤w.toNat
  · have hshift : (w>>>8).toNat=w.toNat/256 := by
      rw [BitVec.toNat_ushiftRight,Nat.shiftRight_eq_div_pow]
    obtain ⟨c,hc,hsizeEq,hmant,htoNat⟩ :=
      packCompact_spec (w := w>>>8) (n := n+1) (by omega) (by omega)
    rw [if_neg (by omega)] at hnormal
    rw [if_pos (hsign.mpr hset)]
    refine ⟨c,hc,by omega,hsizeEq.symm ▸ hnormal,?_,by rw [hsizeEq,hmant,htoNat]⟩
    rw [hmant,hsizeEq,hshift,hfirst,mantissa_succ (by decide)]
  · obtain ⟨c,hc,hsizeEq,hmant,htoNat⟩ := packCompact_spec (w := w) (n := n) (by omega) (by omega)
    rw [if_pos (by omega)] at hnormal
    rw [if_neg (fun h => hset (hsign.mp h))]
    exact ⟨c,hc,by omega,hsizeEq.symm ▸ hnormal,by rw [hmant,hsizeEq,hfirst],
      by rw [hsizeEq,hmant,htoNat]⟩

theorem sign_clear_iff (c : BitVec 32) :
    c &&& 0x00800000=0 ↔ c.toNat=compactSize c*2^24+compactMantissa c := by
  have hmask : (0x00800000 : BitVec 32)=BitVec.twoPow 32 23 := by decide
  have hbit : c.getLsbD 23=true ↔ c.toNat/2^23%2=1 := by
    rw [BitVec.getLsbD,Nat.testBit_eq_decide_div_mod_eq,decide_eq_true_eq]
  have hparts : c.toNat/2^23%2=1 ↔ c.toNat≠compactSize c*2^24+compactMantissa c := by
    unfold compactSize compactMantissa
    omega
  rw [hmask,BitVec.and_twoPow]
  split_ifs with h
  · exact iff_of_false (by decide) (hparts.mp (hbit.mp h))
  · exact iff_of_true rfl (not_not.mp (fun hne => h (hbit.mpr (hparts.mpr hne))))

theorem toNat_inj_parts {c c' : BitVec 32} (h : c &&& 0x00800000=0) (h' : c' &&& 0x00800000=0)
    (hsize : compactSize c=compactSize c') (hmant : compactMantissa c=compactMantissa c') : c=c' := by
  apply BitVec.eq_of_toNat_eq
  rw [(sign_clear_iff c).mp h,(sign_clear_iff c').mp h',hsize,hmant]

/-- The one form that a number is encoded in. -/
structure IsCanonical (nCompact : BitVec 32) : Prop where
  positive : nCompact &&& 0x00800000=0
  digits : Canonical 256 3 (compactSize nCompact) (compactMantissa nCompact)

/-- `SetCompact` on what `GetCompact` has returned. -/
theorem setCompact_of_getCompact {x : BaseUint} {c : BitVec 32} (h : x.getCompact false=some c) :
    (setCompact c).2=(false,false) ∧ IsCanonical c ∧ Normal 256 x.val (compactSize c) ∧
      compactMantissa c=mantissa 256 3 (compactSize c) x.val ∧
      (setCompact c).1.val=decode 256 3 (compactSize c) (mantissa 256 3 (compactSize c) x.val) := by
  obtain ⟨c',hc',hsize,hnormal,hmant,htoNat⟩ := getCompact_spec x
  obtain rfl : c'=c := Option.some.inj (hc'.symm.trans h)
  obtain ⟨hval,hneg,hover⟩ := setCompact_spec c'
  have hsign := (sign_clear_iff c').mpr htoNat
  have hle := (decode_mantissa_le (b := 256) (k := 3) (n := compactSize c') (v := x.val) (by decide)).1
  have hlt := x.val_lt
  rw [hmant] at hval hover
  have hneg' : (setCompact c').2.1=false := Bool.eq_false_iff.mpr fun hcon => hneg hcon hsign
  have hover' : (setCompact c').2.2=false :=
    Bool.eq_false_iff.mpr fun hcon => by have := hover.mp hcon; omega
  refine ⟨Prod.ext hneg' hover',⟨hsign,?_⟩,hnormal,hmant,?_⟩
  · rw [hmant]
    exact hnormal.canonical (by decide) (by decide) (by decide)
  · rw [hval,Nat.mod_eq_of_lt (by omega)]

/-- A number loses its bytes behind the mantissa when it goes through the compact form, the
order is kept, and a number that came out of the compact form loses nothing. -/
theorem compact_faithful :
    (∀x : BaseUint,∃c,x.getCompact false=some c ∧ (setCompact c).2=(false,false) ∧
      (setCompact c).1.val=x.val/2^(8*(compactSize c-3))*2^(8*(compactSize c-3)) ∧
      (setCompact c).1.val≤x.val ∧ x.val-(setCompact c).1.val<2^(8*(compactSize c-3)) ∧
      (compactSize c≤3 → (setCompact c).1.val=x.val)) ∧
    (∀(x x' : BaseUint) (c c' : BitVec 32),x.val≤x'.val → x.getCompact false=some c →
      x'.getCompact false=some c' →
      c.toNat ≤ c'.toNat ∧ (setCompact c).1.val≤(setCompact c').1.val) ∧
    ∀c : BitVec 32,(setCompact c).2=(false,false) →
      ∃c',(setCompact c).1.getCompact false=some c' ∧ (setCompact c').2=(false,false) ∧
        (setCompact c').1.val=(setCompact c).1.val ∧ (IsCanonical c ↔ c'=c) := by
  refine ⟨fun x => ?_,fun x x' c c' hx hc hc' => ?_,fun c hc => ?_⟩
  · obtain ⟨c,hc,-⟩ := getCompact_spec x
    obtain ⟨hflags,-,-,-,hval⟩ := setCompact_of_getCompact hc
    obtain ⟨hle,hlt⟩ := decode_mantissa_le (b := 256) (k := 3) (n := compactSize c) (v := x.val) (by decide)
    rw [← hval] at hle hlt
    have hexact : compactSize c≤3 → (setCompact c).1.val=x.val := fun hn =>
      hval.trans (decode_mantissa_of_le (by decide) hn)
    refine ⟨c,hc,hflags,?_⟩
    rw [pow_eight]
    refine ⟨?_,hle,hlt,hexact⟩
    by_cases hn : compactSize c≤3
    · rw [hexact hn,show compactSize c-3=0 by omega,pow_zero,Nat.div_one,Nat.mul_one]
    · rw [hval,decode_mantissa_of_lt (by omega)]
  · obtain ⟨-,⟨hsign,-⟩,hnormal,hmant,hval⟩ := setCompact_of_getCompact hc
    obtain ⟨-,⟨hsign',-⟩,hnormal',hmant',hval'⟩ := setCompact_of_getCompact hc'
    refine ⟨?_,?_⟩
    · rw [(sign_clear_iff c).mp hsign,(sign_clear_iff c').mp hsign']
      have hm : compactMantissa c<2^23 := Nat.mod_lt _ (by decide)
      rcases Nat.lt_or_eq_of_le (hnormal.mono (by decide) hnormal' hx) with hlt | heq
      · omega
      · have hle := mantissa_mono (b := 256) (k := 3) (compactSize c) hx
        rw [heq] at hle hmant
        omega
    · rw [hval,hval']
      exact decode_mantissa_mono (by decide) (by decide) (by decide) hnormal hnormal' hx
  · obtain ⟨hcval,-,hover⟩ := setCompact_spec c
    rw [hc] at hover
    have hbound : ¬2^256≤decode 256 3 (compactSize c) (compactMantissa c) := fun h => by
      simpa using hover.mpr h
    rw [Nat.mod_eq_of_lt (by omega)] at hcval
    have hm : 2*compactMantissa c<256^3 := by
      have : compactMantissa c<2^23 := Nat.mod_lt _ (by decide)
      omega
    obtain ⟨c',hc',-⟩ := getCompact_spec (setCompact c).1
    obtain ⟨hflags,hcanon,hnormal,hmant,hval⟩ := setCompact_of_getCompact hc'
    rw [hcval] at hnormal hmant hval
    refine ⟨c',hc',hflags,?_,fun h => ?_,?_⟩
    · rw [hval,hcval]
      exact decode_again (by decide) hm hnormal
    · obtain ⟨hnormal',hback⟩ := h.digits.encode (by decide) (by decide)
      have hsize := hnormal.unique (by decide) hnormal'
      exact toNat_inj_parts hcanon.positive h.positive hsize (by rw [hmant,hsize,hback])
    · rintro rfl
      exact hcanon

end BaseUint

end Zdeex.Pow
