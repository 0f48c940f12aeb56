import Mathlib.Data.Nat.ModEq
import Zdeex.Block.Transaction
import Zdeex.Primitives.Serialize

namespace Zdeex.Block

open Zdeex.Framework
open Zdeex.Coins

/-- A spent output; the metadata belong to the transaction when this was its last
unspent output. -/
structure CTxInUndo where
  txout : CTxOut
  fCoinBase : Bool
  nHeight : Nat
  nVersion : Int
  deriving DecidableEq

structure CTxUndo where
  vprevout : List CTxInUndo
  deriving DecidableEq

structure CBlockUndo where
  vtxundo : List CTxUndo
  oldSproutTreeRoot : Uint256
  deriving DecidableEq

/-- Validity and decompression of public keys; a valid uncompressed key is found
again from its first coordinate and the parity of the second one. -/
structure PubKeys where
  isFullyValid : List UInt8 → Bool
  decompress : List UInt8 → Option (List UInt8)
  decompress_compress : ∀key,isFullyValid key=true → key.length=65 → key.head?=some 4 →
    decompress ((2+key.getLastD 0%2)::(key.drop 1).take 32)=some key

section Amount

/-- Zeros at the end of a number, at most as many as asked for. -/
def stripZeros : Nat → Nat → Nat × Nat
  | 0,n => (n,0)
  | k+1,n =>
      if n%10=0 then ((stripZeros k (n/10)).1,(stripZeros k (n/10)).2+1) else (n,0)

def compressAmount (n : Nat) : Nat :=
  if n=0 then 0
  else
    let n' := (stripZeros 9 n).1
    let e := (stripZeros 9 n).2
    if e<9 then (1+(n'/10*9+n'%10-1)*10+e)%2^64 else (1+(n'-1)*10+9)%2^64

def decompressAmount (x : Nat) : Nat :=
  if x=0 then 0
  else
    let e := (x-1)%10
    let x := (x-1)/10
    let n := if e<9 then x/9*10+(x%9+1) else x+1
    n*10^e%2^64

theorem stripZeros_spec (k n : Nat) :
    (stripZeros k n).1*10^(stripZeros k n).2=n ∧ (stripZeros k n).2≤k ∧
      ((stripZeros k n).2<k → (stripZeros k n).1%10≠0) := by
  induction k generalizing n with
  | zero => simp [stripZeros]
  | succ k ih =>
    rw [stripZeros]
    split_ifs with hz
    · obtain ⟨hmul,hle,hlast⟩ := ih (n/10)
      refine ⟨?_,by omega,fun hlt => hlast (by omega)⟩
      dsimp only
      rw [pow_succ,← mul_assoc,hmul]
      omega
    · exact ⟨by simp,by simp,fun _ => hz⟩

/-- Amounts whose code fits 64 bits: those that end in a zero, and the small ones. -/
def AmountFits (n : Nat) : Prop := n%10=0 ∨ n≤2049638230412172402

instance (n : Nat) : Decidable (AmountFits n) := inferInstanceAs (Decidable (_ ∨ _))

theorem decompressAmount_of_digit {x e : Nat} (he : e<9) :
    decompressAmount (1+10*x+e)=(x/9*10+(x%9+1))*10^e%2^64 := by
  have hdigit : (1+10*x+e-1)%10=e := by omega
  have hrest : (1+10*x+e-1)/10=x := by omega
  rw [decompressAmount,if_neg (by omega),hdigit,hrest]
  dsimp only
  rw [if_pos he]

theorem decompressAmount_of_fits {n : Nat} (hn : n<2^64) (hfits : AmountFits n) :
    decompressAmount (compressAmount n)=n := by
  unfold compressAmount
  by_cases h0 : n=0
  · simp [h0,decompressAmount]
  rw [if_neg h0]
  obtain ⟨hmul,hle,hlast⟩ := stripZeros_spec 9 n
  generalize (stripZeros 9 n).1=m at hmul hlast
  generalize (stripZeros 9 n).2=e at hmul hle hlast
  have hm0 : m≠0 := by
    rintro rfl
    exact h0 (by simpa using hmul.symm)
  have hshort : 0<e → m*10≤n := by
    intro hpos
    rw [← hmul]
    exact Nat.mul_le_mul_left m (Nat.le_self_pow (by omega) 10)
  dsimp only
  by_cases he : e<9
  · have hd := hlast he
    have hsmall : 1+(m/10*9+m%10-1)*10+e<2^64 := by
      rcases Nat.eq_zero_or_pos e with rfl | hpos
      · have heq : m=n := by simpa using hmul
        rcases hfits with hzero | hfits
        · exact absurd hzero (heq ▸ hd)
        · omega
      · have hten := hshort hpos
        omega
    rw [if_pos he,Nat.mod_eq_of_lt hsmall,Nat.mul_comm _ 10,decompressAmount_of_digit he]
    have hquot : (m/10*9+m%10-1)/9*10+((m/10*9+m%10-1)%9+1)=m := by omega
    rw [hquot,hmul,Nat.mod_eq_of_lt hn]
  · obtain rfl : e=9 := by omega
    have hten := hshort (by decide)
    rw [if_neg he,Nat.mod_eq_of_lt (by omega)]
    have hpos : 1+(m-1)*10+9≠0 := by omega
    have hdigit : (1+(m-1)*10+9-1)%10=9 := by omega
    have hrest : (1+(m-1)*10+9-1)/10=m-1 := by omega
    rw [decompressAmount,if_neg hpos,hdigit,hrest]
    dsimp only
    rw [if_neg (by decide),Nat.sub_add_cancel (by omega),hmul,Nat.mod_eq_of_lt (by omega)]

theorem decompressAmount_compressAmount {n : Nat} (hn : n<2^60) :
    decompressAmount (compressAmount n)=n :=
  decompressAmount_of_fits (by omega) (.inr (by omega))

theorem compressAmount_of_digit {a d : Nat} (hd : 1≤d ∧ d≤9) :
    compressAmount (10*a+d)=(1+10*(9*a+d-1))%2^64 := by
  have hdiv : (10*a+d)/10=a := by omega
  have hmod : (10*a+d)%10=d := by omega
  have hstrip : stripZeros 9 (10*a+d)=(10*a+d,0) := by rw [stripZeros,if_neg (by omega)]
  rw [compressAmount,if_neg (by omega),hstrip]
  dsimp only
  rw [if_pos (by decide),hdiv,hmod,Nat.mul_comm a 9,Nat.mul_comm _ 10,Nat.add_zero]

/-- Codes that differ by `c` belong to amounts that differ by ten ninths of it. -/
private theorem digits_shift {a d c x : Nat} (hd : 1≤d ∧ d≤9) (hx : x+c=9*a+d-1) :
    10*a+d=x/9*10+(x%9+1)+(c/9*10+c%9) ∨ 10*a+d=x/9*10+(x%9+1)+(c/9*10+c%9+1) := by
  omega

/-- What is read for an amount whose code has lost `k*2^64`. -/
private theorem wrapped_code {a d k e c : Nat} (hd : 1≤d ∧ d≤9) (he : e<9)
    (hc : 10*c=k*2^64+e) (hlow : k*2^64≤1+10*(9*a+d-1)) (hhigh : 1+10*(9*a+d-1)<(k+1)*2^64)
    (h : decompressAmount (compressAmount (10*a+d))=10*a+d) :
    ∃m δ,(δ=0 ∨ δ=1) ∧ 10*a+d=m+(c/9*10+c%9+δ) ∧ m*10^e%2^64=10*a+d := by
  obtain ⟨x,hx⟩ : ∃x,x+c=9*a+d-1 := ⟨9*a+d-1-c,by omega⟩
  have hsplit : 1+10*(9*a+d-1)=1+10*x+e+2^64*k := by omega
  have hlt : 1+10*x+e<2^64 := by omega
  rw [compressAmount_of_digit hd,hsplit,Nat.add_mul_mod_self_left,Nat.mod_eq_of_lt hlt,
    decompressAmount_of_digit he] at h
  rcases digits_shift hd hx with hm | hm
  · exact ⟨_,0,.inl rfl,hm,h⟩
  · exact ⟨_,1,.inr rfl,hm,h⟩

/-- An amount that a shift by `c` and a power of ten lead back to is determined. -/
private theorem shifted_unique {m c e i : Nat} (hm : m<2^64) (hback : m*10^e%2^64=m+c)
    (hi : (10^e-1)*i%2^64=1) : m=c*i%2^64 := by
  have hpow : m*10^e=m*(10^e-1)+m := by
    have hpos : 1≤10^e := Nat.one_le_pow e 10 (by decide)
    rw [← Nat.mul_succ,Nat.succ_eq_add_one,Nat.sub_add_cancel hpos]
  have hmod : m*(10^e-1)+m≡c+m [MOD 2^64] := by
    rw [← hpow,Nat.add_comm c]
    exact (Nat.mod_modEq _ _).symm.trans (by rw [hback])
  have hinv : m*((10^e-1)*i)≡c*i [MOD 2^64] := by
    rw [← Nat.mul_assoc]
    exact (Nat.ModEq.add_right_cancel' m hmod).mul_right i
  have hone : m*((10^e-1)*i)≡m*1 [MOD 2^64] := Nat.ModEq.mul_left m hi
  rw [Nat.mul_one] at hone
  have heq : m%2^64=c*i%2^64 := hone.symm.trans hinv
  rwa [Nat.mod_eq_of_lt hm] at heq

theorem fits_of_decompressAmount {n : Nat} (hn : n<2^64)
    (h : decompressAmount (compressAmount n)=n) : AmountFits n := by
  by_contra hno
  have hlarge : n%10≠0 ∧ 2049638230412172402<n := by
    unfold AmountFits at hno
    omega
  obtain ⟨a,d,rfl,hd⟩ : ∃a d,n=10*a+d ∧ 1≤d ∧ d≤9 := ⟨n/10,n%10,by omega,by omega,by omega⟩
  have hone : ∀k e c i,e<9 → 10*c=k*2^64+e → (10^e-1)*i%2^64=1 →
      k*2^64≤1+10*(9*a+d-1) → 1+10*(9*a+d-1)<(k+1)*2^64 →
      ∃δ,(δ=0 ∨ δ=1) ∧ 10*a+d=(c/9*10+c%9+δ)*i%2^64+(c/9*10+c%9+δ) := by
    intro k e c i he hc hi hlow hhigh
    obtain ⟨m,δ,hδ,hsum,hmul⟩ := wrapped_code hd he hc hlow hhigh h
    have huniq := shifted_unique (by omega) (hmul.trans hsum) hi
    exact ⟨δ,hδ,by rw [← huniq]; exact hsum⟩
  obtain ⟨k,hk⟩ : ∃k,k=(1+10*(9*a+d-1))/2^64 := ⟨_,rfl⟩
  have hcases : k=1 ∨ k=2 ∨ k=3 ∨ k=4 ∨ k=5 ∨ k=6 ∨ k=7 ∨ k=8 := by omega
  rcases hcases with rfl | rfl | rfl | rfl | rfl | rfl | rfl | rfl
  · obtain ⟨δ,rfl | rfl,hsum⟩ := hone 1 4 1844674407370955162 13458245626333751279
      (by decide) (by decide) (by decide) (by omega) (by omega) <;> omega
  · obtain ⟨δ,rfl | rfl,hsum⟩ := hone 2 8 3689348814741910324 300153063250403071
      (by decide) (by decide) (by decide) (by omega) (by omega) <;> omega
  · obtain ⟨δ,rfl | rfl,hsum⟩ := hone 3 2 5534023222112865485 12670490878911611211
      (by decide) (by decide) (by decide) (by omega) (by omega) <;> omega
  · obtain ⟨δ,rfl | rfl,hsum⟩ := hone 4 6 7378697629483820647 1672254362768354751
      (by decide) (by decide) (by decide) (by omega) (by omega) <;> omega
  · obtain ⟨m,δ,hδ,hsum,hmul⟩ := wrapped_code (k := 5) (e := 0) (c := 9223372036854775808)
      hd (by decide) (by decide) (by omega) (by omega) h
    omega
  · obtain ⟨δ,rfl | rfl,hsum⟩ := hone 6 4 11068046444225730970 13458245626333751279
      (by decide) (by decide) (by decide) (by omega) (by omega) <;> omega
  · obtain ⟨δ,rfl | rfl,hsum⟩ := hone 7 8 12912720851596686132 300153063250403071
      (by decide) (by decide) (by decide) (by omega) (by omega) <;> omega
  · obtain ⟨δ,rfl | rfl,hsum⟩ := hone 8 2 14757395258967641293 12670490878911611211
      (by decide) (by decide) (by decide) (by omega) (by omega) <;> omega

theorem decompressAmount_iff_fits {n : Nat} (hn : n<2^64) :
    decompressAmount (compressAmount n)=n ↔ AmountFits n :=
  ⟨fits_of_decompressAmount hn,decompressAmount_of_fits hn⟩

end Amount

section Script

variable (K : PubKeys)

/-- The bytes between the opcodes of a script of exactly this form. -/
def between (before after : List UInt8) (n : Nat) (script : List UInt8) : Option (List UInt8) :=
  if script.length=before.length+n+after.length ∧ script.take before.length=before ∧
      script.drop (before.length+n)=after then
    some ((script.drop before.length).take n)
  else none

/-- OP_DUP OP_HASH160 20 .. OP_EQUALVERIFY OP_CHECKSIG -/
def isToKeyID : List UInt8 → Option (List UInt8) := between [0x76,0xa9,20] [0x88,0xac] 20

/-- OP_HASH160 20 .. OP_EQUAL -/
def isToScriptID : List UInt8 → Option (List UInt8) := between [0xa9,20] [0x87] 20

/-- A key of 33 or 65 bytes and OP_CHECKSIG. -/
def isToPubKey (script : List UInt8) : Option (List UInt8) :=
  match between [33] [0xac] 33 script with
  | some key => if key.head?=some 2 ∨ key.head?=some 3 then some key else none
  | none =>
      match between [65] [0xac] 65 script with
      | some key => if key.head?=some 4 ∧ K.isFullyValid key then some key else none
      | none => none

def compress (script : List UInt8) : Option (List UInt8) :=
  match isToKeyID script with
  | some keyID => some (0::keyID)
  | none =>
      match isToScriptID script with
      | some scriptID => some (1::scriptID)
      | none =>
          match isToPubKey K script with
          | none => none
          | some key =>
              let first := if key.head?=some 4 then 4+key.getLastD 0%2 else key.headD 0
              some (first::(key.drop 1).take 32)

def getSpecialSize (nSize : Nat) : Nat := if nSize≤1 then 20 else if nSize≤5 then 32 else 0

/-- `none` leaves the script as it was. -/
def decompress (nSize : Nat) (vch : List UInt8) : Option (List UInt8) :=
  if nSize=0 then some ([0x76,0xa9,20]++vch++[0x88,0xac])
  else if nSize=1 then some ([0xa9,20]++vch++[0x87])
  else if nSize≤3 then some ([33,UInt8.ofNat nSize]++vch++[0xac])
  else if nSize≤5 then (K.decompress (UInt8.ofNat (nSize-2)::vch)).map fun key => [65]++key++[0xac]
  else none

def toByteList (script : List UInt8) : List Byte := script.map UInt8.toBitVec

def ofByteList (bs : List Byte) : List UInt8 := bs.map UInt8.ofBitVec

def writeScript (script : List UInt8) : List Byte :=
  match compress K script with
  | some compr => toByteList compr
  | none => writeVarInt 32 ((script.length+6 : Nat) : Int)++toByteList script

/-- What follows the size; a script that is too long is skipped. -/
def readSizedScript (nSize : Nat) : Reader (List UInt8) :=
  if nSize<6 then do
    let vch ← Reader.bytes (getSpecialSize nSize)
    return (decompress K nSize (ofByteList vch)).getD []
  else if MAX_SCRIPT_SIZE<nSize-6 then do
    let _ ← Reader.bytes (nSize-6)
    return [0x6a]
  else do
    return ofByteList (← Reader.bytes (nSize-6))

def readScript : Reader (List UInt8) := do
  let nSize ← readVarInt 32
  readSizedScript K nSize

theorem between_eq {before after script mid : List UInt8} {n : Nat}
    (h : between before after n script=some mid) :
    script=before++mid++after ∧ mid.length=n := by
  unfold between at h
  split_ifs at h with hform
  obtain ⟨hlen,htake,hdrop⟩ := hform
  obtain rfl := Option.some.inj h
  constructor
  · have hsplit : (script.drop before.length).drop n=after := by rw [List.drop_drop,hdrop]
    rw [List.append_assoc,← hsplit,List.take_append_drop]
    calc script=script.take before.length++script.drop before.length :=
          (List.take_append_drop before.length script).symm
      _=before++script.drop before.length := by rw [htake]
  · rw [List.length_take,List.length_drop]
    omega

@[simp] theorem ofByteList_toByteList (l : List UInt8) : ofByteList (toByteList l)=l := by
  simp [ofByteList,toByteList,Function.comp_def]

@[simp] theorem length_toByteList (l : List UInt8) : (toByteList l).length=l.length :=
  List.length_map ..

/-- A special form: its code and the bytes it keeps. -/
theorem reads_special {nSize : Nat} {vch script : List UInt8} (hsize : nSize<6)
    (hlen : vch.length=getSpecialSize nSize) (hdec : decompress K nSize vch=some script) :
    Reads (readScript K) (toByteList (UInt8.ofNat nSize::vch)) script := by
  have hcode : Reads (readVarInt 32) [BitVec.ofNat 8 nSize] nSize := by
    have hread := reads_varInt (w := 32) (n := nSize) (by decide) (by omega)
    have hwrite : writeVarInt 32 (nSize : Int)=[BitVec.ofNat 8 nSize] := by
      have hall : ∀k<6,writeVarInt 32 ((k : Nat) : Int)=[BitVec.ofNat 8 k] := by decide
      exact hall nSize hsize
    rwa [hwrite] at hread
  have hbody : Reads (readSizedScript K nSize) (toByteList vch) script := by
    rw [readSizedScript,if_pos hsize]
    have hbytes : Reads (Reader.bytes (getSpecialSize nSize)) (toByteList vch) (toByteList vch) := by
      have hread := Reads.bytes (toByteList vch)
      rwa [length_toByteList,hlen] at hread
    have hmap := hbytes.map fun vch => (decompress K nSize (ofByteList vch)).getD []
    rwa [ofByteList_toByteList,hdec] at hmap
  exact hcode.bind hbody

/-- A key in front of OP_CHECKSIG, with the code that its first byte gives. -/
theorem isToPubKey_cases {script key : List UInt8} (h : isToPubKey K script=some key) :
    (script=[33]++key++[0xac] ∧ key.length=33 ∧ (key.head?=some 2 ∨ key.head?=some 3)) ∨
    (script=[65]++key++[0xac] ∧ key.length=65 ∧ key.head?=some 4 ∧ K.isFullyValid key=true) := by
  unfold isToPubKey at h
  cases hshort : between [33] [0xac] 33 script with
  | some key' =>
    rw [hshort] at h
    dsimp only at h
    split_ifs at h with hhead
    obtain rfl := Option.some.inj h
    obtain ⟨hscript,hlen⟩ := between_eq hshort
    exact .inl ⟨hscript,hlen,hhead⟩
  | none =>
    rw [hshort] at h
    dsimp only at h
    cases hlong : between [65] [0xac] 65 script with
    | none =>
      rw [hlong] at h
      cases h
    | some key' =>
      rw [hlong] at h
      dsimp only at h
      split_ifs at h with hhead
      obtain rfl := Option.some.inj h
      obtain ⟨hscript,hlen⟩ := between_eq hlong
      exact .inr ⟨hscript,hlen,hhead.1,hhead.2⟩

theorem compress_cases {script compr : List UInt8} (h : compress K script=some compr) :
    ∃nSize vch,compr=UInt8.ofNat nSize::vch ∧ nSize<6 ∧ vch.length=getSpecialSize nSize ∧
      decompress K nSize vch=some script := by
  unfold compress at h
  cases hkey : isToKeyID script with
  | some keyID =>
    rw [hkey] at h
    obtain rfl := Option.some.inj h
    obtain ⟨hscript,hlen⟩ := between_eq hkey
    exact ⟨0,keyID,rfl,by decide,hlen,by rw [decompress,if_pos rfl,hscript]⟩
  | none =>
    rw [hkey] at h
    dsimp only at h
    cases hid : isToScriptID script with
    | some scriptID =>
      rw [hid] at h
      obtain rfl := Option.some.inj h
      obtain ⟨hscript,hlen⟩ := between_eq hid
      exact ⟨1,scriptID,rfl,by decide,hlen,by simp [decompress,hscript]⟩
    | none =>
      rw [hid] at h
      dsimp only at h
      cases hpub : isToPubKey K script with
      | none =>
        rw [hpub] at h
        cases h
      | some key =>
        rw [hpub] at h
        obtain rfl := Option.some.inj h
        obtain ⟨hscript,hlen,hhead⟩ | ⟨hscript,hlen,hhead,hvalid⟩ := isToPubKey_cases K hpub
        · cases key with
          | nil => cases hlen
          | cons b rest =>
            have hrest : rest.take 32=rest := by
              apply List.take_of_length_le
              simp at hlen
              omega
            have hb : b=2 ∨ b=3 := by simpa using hhead
            have hlen' : rest.length=32 := by simpa using hlen
            rcases hb with rfl | rfl
            · exact ⟨2,rest,by simp [hrest],by decide,hlen',by simp [decompress,hscript]⟩
            · exact ⟨3,rest,by simp [hrest],by decide,hlen',by simp [decompress,hscript]⟩
        · have hlaw := K.decompress_compress key hvalid hlen hhead
          have hlen' : ((key.drop 1).take 32).length=32 := by simp [hlen]
          have hparity : key.getLastD 0%2=0 ∨ key.getLastD 0%2=1 := by
            have hmod : (key.getLastD 0%2).toNat=(key.getLastD 0).toNat%2 := UInt8.toNat_mod ..
            rcases Nat.mod_two_eq_zero_or_one (key.getLastD 0).toNat with h | h
            · exact .inl (UInt8.toNat_inj.mp (hmod.trans h))
            · exact .inr (UInt8.toNat_inj.mp (hmod.trans h))
          rcases hparity with hp | hp
          · rw [hp] at hlaw
            exact ⟨4,_,by rw [if_pos hhead,hp]; rfl,by decide,hlen',
              by simpa [decompress,hscript] using hlaw⟩
          · rw [hp] at hlaw
            exact ⟨5,_,by rw [if_pos hhead,hp]; rfl,by decide,hlen',
              by simpa [decompress,hscript] using hlaw⟩

theorem reads_script {script : List UInt8} (hlen : script.length≤MAX_SCRIPT_SIZE) :
    Reads (readScript K) (writeScript K script) script := by
  have hmax : MAX_SCRIPT_SIZE=10000 := rfl
  unfold writeScript
  cases hcompr : compress K script with
  | some compr =>
    obtain ⟨nSize,vch,rfl,hsize,hvch,hdec⟩ := compress_cases K hcompr
    exact reads_special K hsize hvch hdec
  | none =>
    have hsize : Reads (readVarInt 32) (writeVarInt 32 ((script.length+6 : Nat) : Int))
        (script.length+6) := reads_varInt (by decide) (by omega)
    refine hsize.bind ?_
    rw [readSizedScript,if_neg (by omega),if_neg (by omega)]
    have hbytes := Reads.bytes (toByteList script)
    rw [length_toByteList] at hbytes
    have hmap := hbytes.map ofByteList
    rwa [ofByteList_toByteList] at hmap

private theorem between_none {before after script : List UInt8} {n : Nat}
    (h : script.length≠before.length+n+after.length) : between before after n script=none := by
  rw [between,if_neg fun hform => h hform.1]

/-- A script that is too long comes back as a lone OP_RETURN. -/
theorem reads_longScript {script : List UInt8} (hlong : MAX_SCRIPT_SIZE<script.length)
    (hlen : script.length+6<2^32) : Reads (readScript K) (writeScript K script) [0x6a] := by
  have hmax : MAX_SCRIPT_SIZE=10000 := rfl
  have hcompr : compress K script=none := by
    have hkey : isToKeyID script=none := between_none (by simp; omega)
    have hid : isToScriptID script=none := between_none (by simp; omega)
    have hshort : between [33] [0xac] 33 script=none := between_none (by simp; omega)
    have hfull : between [65] [0xac] 65 script=none := between_none (by simp; omega)
    have hpub : isToPubKey K script=none := by simp only [isToPubKey,hshort,hfull]
    simp only [compress,hkey,hid,hpub]
  have hsize : Reads (readVarInt 32) (writeVarInt 32 ((script.length+6 : Nat) : Int))
      (script.length+6) := reads_varInt (by decide) hlen
  rw [writeScript,hcompr]
  refine hsize.bind ?_
  rw [readSizedScript,if_neg (by omega),if_pos (by omega)]
  have hbytes := Reads.bytes (toByteList script)
  rw [length_toByteList] at hbytes
  exact hbytes.map fun _ => [0x6a]

end Script

section Records

variable (K : PubKeys)

def writeTxOut (txout : CTxOut) : List Byte :=
  writeVarInt 64 (compressAmount (txout.nValue%2^64).toNat : Int)++writeScript K txout.scriptPubKey

def readTxOut : Reader CTxOut := do
  let nVal ← readVarInt 64
  let scriptPubKey ← readScript K
  return ⟨(decompressAmount nVal : Int).bmod (2^64),scriptPubKey⟩

/-- The version is written only next to a height. -/
def writeTxInUndo (undo : CTxInUndo) : List Byte :=
  writeVarInt 32 ((undo.nHeight*2+(if undo.fCoinBase then 1 else 0))%2^32 : Nat)++
    ((if 0<undo.nHeight then writeVarInt 32 undo.nVersion else [])++writeTxOut K undo.txout)

/-- The version of a record, 0 when there is no height. -/
def readUndoVersion (nHeight : Nat) : Reader Int :=
  if 0<nHeight then do
    let n ← readVarInt 32
    return (n : Int).bmod (2^32)
  else pure 0

def readTxInUndo : Reader CTxInUndo := do
  let nCode ← readVarInt 32
  let nVersion ← readUndoVersion (nCode/2)
  let txout ← readTxOut K
  return ⟨txout,nCode%2==1,nCode/2,nVersion⟩

def writeTxUndo (undo : CTxUndo) : List Byte := writeVector (writeTxInUndo K) undo.vprevout

def readTxUndo : Reader CTxUndo := do
  return ⟨← readVector (readTxInUndo K)⟩

def writeBlockUndo (undo : CBlockUndo) : List Byte :=
  writeVector (writeTxUndo K) undo.vtxundo++toBytes undo.oldSproutTreeRoot

def readBlockUndo : Reader CBlockUndo := do
  let vtxundo ← readVector (readTxUndo K)
  let oldSproutTreeRoot ← Reader.word 256
  return ⟨vtxundo,oldSproutTreeRoot⟩

/-- Undo data in the file: the records and a checksum over the parent block's hash
and the records. -/
def undoWriteToDisk (checksum : Uint256 → List Byte → Uint256) (hashBlock : Uint256)
    (blockundo : CBlockUndo) : List Byte :=
  writeBlockUndo K blockundo++toBytes (checksum hashBlock (writeBlockUndo K blockundo))

def undoReadFromDisk (checksum : Uint256 → List Byte → Uint256) (hashBlock : Uint256)
    (file : List Byte) : Option CBlockUndo :=
  match readBlockUndo K file with
  | none => none
  | some (blockundo,rest) =>
      match Reader.word 256 rest with
      | none => none
      | some (hashChecksum,_) =>
          if hashChecksum=checksum hashBlock (writeBlockUndo K blockundo) then some blockundo
          else none

/-- What the format can hold of an unspent output. -/
structure CTxOut.Storable (o : CTxOut) : Prop where
  value : 0≤o.nValue ∧ o.nValue<2^60
  script : o.scriptPubKey.length≤MAX_SCRIPT_SIZE

/-- A record with metadata has a height and a version that are not negative; one
without has none. -/
structure CTxInUndo.Storable (u : CTxInUndo) : Prop where
  txout : CTxOut.Storable u.txout
  height : u.nHeight<2^31
  version : 0≤u.nVersion ∧ u.nVersion<2^31
  bare : u.nHeight=0 → u.nVersion=0

/-- An output as it comes back from the format. -/
def storedTxOut (o : CTxOut) : CTxOut :=
  ⟨((decompressAmount (compressAmount (o.nValue%2^64).toNat) : Nat) : Int).bmod (2^64),
    if o.scriptPubKey.length≤MAX_SCRIPT_SIZE then o.scriptPubKey else [0x6a]⟩

theorem compressAmount_lt (n : Nat) : compressAmount n<2^64 := by
  unfold compressAmount
  split_ifs
  · decide
  · dsimp only
    split_ifs <;> exact Nat.mod_lt _ (by decide)

theorem decompressAmount_lt (x : Nat) : decompressAmount x<2^64 := by
  unfold decompressAmount
  split_ifs
  · decide
  · exact Nat.mod_lt _ (by decide)

theorem reads_storedTxOut {o : CTxOut} (hlen : o.scriptPubKey.length+6<2^32) :
    Reads (readTxOut K) (writeTxOut K o) (storedTxOut o) := by
  have hscript : Reads (readScript K) (writeScript K o.scriptPubKey)
      (storedTxOut o).scriptPubKey := by
    unfold storedTxOut
    dsimp only
    split_ifs with h
    · exact reads_script K h
    · exact reads_longScript K (by omega) hlen
  exact (reads_varInt (by decide) (compressAmount_lt _)).bind
    (f := fun nVal => do
      let scriptPubKey ← readScript K
      return (⟨(decompressAmount nVal : Int).bmod (2^64),scriptPubKey⟩ : CTxOut))
    (hscript.map _)

/-- Exactly the outputs with a short script and an amount whose code fits come back
as they were. -/
theorem storedTxOut_eq_iff {o : CTxOut} (hvalue : -2^63≤o.nValue ∧ o.nValue<2^63) :
    storedTxOut o=o ↔
      AmountFits (o.nValue%2^64).toNat ∧ o.scriptPubKey.length≤MAX_SCRIPT_SIZE := by
  have hcode := decompressAmount_lt (compressAmount (o.nValue%2^64).toNat)
  have hamount : ((decompressAmount (compressAmount (o.nValue%2^64).toNat) : Nat) : Int).bmod
      (2^64)=o.nValue ↔ AmountFits (o.nValue%2^64).toNat := by
    rw [← decompressAmount_iff_fits (by omega),Int.bmod_def]
    split_ifs <;> omega
  have hscript : (if o.scriptPubKey.length≤MAX_SCRIPT_SIZE then o.scriptPubKey else [0x6a])=
      o.scriptPubKey ↔ o.scriptPubKey.length≤MAX_SCRIPT_SIZE := by
    have hmax : MAX_SCRIPT_SIZE=10000 := rfl
    refine ⟨fun h => ?_,fun h => if_pos h⟩
    by_contra hlong
    rw [if_neg hlong] at h
    rw [← h] at hlong
    exact hlong (by decide)
  rw [← hamount,← hscript]
  unfold storedTxOut
  generalize ((decompressAmount (compressAmount (o.nValue%2^64).toNat) : Nat) : Int).bmod (2^64)=n
  cases o
  exact iff_of_eq (CTxOut.mk.injEq ..)

/-- An undo record whose fields are in the ranges of their types. -/
structure CTxInUndo.Typed (u : CTxInUndo) : Prop where
  value : -2^63≤u.txout.nValue ∧ u.txout.nValue<2^63
  script : u.txout.scriptPubKey.length≤MAX_SIZE
  height : u.nHeight<2^32
  version : -2^31≤u.nVersion ∧ u.nVersion<2^31

/-- An undo record that the format can hold. -/
structure CTxInUndo.Fits (u : CTxInUndo) : Prop where
  amount : AmountFits (u.txout.nValue%2^64).toNat
  script : u.txout.scriptPubKey.length≤MAX_SCRIPT_SIZE
  height : u.nHeight<2^31
  version : 0≤u.nVersion
  bare : u.nHeight=0 → u.nVersion=0

/-- Of a negative number only the last seven bits are written. -/
theorem writeVarInt_neg {n : Int} (hn : n<0) :
    writeVarInt 32 n=writeVarInt 32 ((n%128).toNat : Int) := by
  have hdigits : ∀slots,varIntDigits (slots+1) false n=
      varIntDigits (slots+1) false ((n%128).toNat : Int) := by
    intro slots
    have hmod : ((n%128).toNat : Int)%128=n%128 := by omega
    have hsmall : n≤127 := by omega
    have hsmall' : ((n%128).toNat : Int)≤127 := by omega
    rw [varIntDigits,varIntDigits,if_pos hsmall,if_pos hsmall',hmod]
  exact congrArg List.reverse (hdigits 4)

/-- The version that comes back. -/
def storedVersion (u : CTxInUndo) : Int :=
  if u.nHeight=0 then 0 else if u.nVersion<0 then u.nVersion%128 else u.nVersion

theorem reads_storedVersion {u : CTxInUndo} (h : u.nVersion<2^31) :
    Reads (readUndoVersion u.nHeight) (if 0<u.nHeight then writeVarInt 32 u.nVersion else [])
      (storedVersion u) := by
  have hread : ∀n : Nat,n<2^31 → Reads
      (do let n ← readVarInt 32; return (n : Int).bmod (2^32)) (writeVarInt 32 (n : Int))
        (n : Int) := by
    intro n hn
    have hmap := (reads_varInt (w := 32) (n := n) (by decide) (by omega)).map
      fun n : Nat => (n : Int).bmod (2^32)
    rwa [Int.bmod_eq_of_le (by omega) (by omega)] at hmap
  unfold readUndoVersion storedVersion
  by_cases hpos : 0<u.nHeight
  · rw [if_pos hpos,if_pos hpos,if_neg (by omega)]
    split_ifs with hneg
    · have hmod := hread (u.nVersion%128).toNat (by omega)
      rwa [← writeVarInt_neg hneg,Int.toNat_of_nonneg (by omega)] at hmod
    · have hnat := hread u.nVersion.toNat (by omega)
      rwa [Int.toNat_of_nonneg (by omega)] at hnat
  · rw [if_neg hpos,if_neg hpos,if_pos (by omega)]
    exact Reads.pure 0

theorem storedVersion_eq_iff (u : CTxInUndo) :
    storedVersion u=u.nVersion ↔ 0≤u.nVersion ∧ (u.nHeight=0 → u.nVersion=0) := by
  unfold storedVersion
  split_ifs <;> omega

/-- The height of a record that comes back is in range. -/
theorem height_of_reads {u : CTxInUndo}
    (h : Reads (readTxInUndo K) (writeTxInUndo K u) u) : u.nHeight<2^31 := by
  have hcode := reads_varInt (w := 32) (n := (u.nHeight*2+(if u.fCoinBase then 1 else 0))%2^32)
    (by decide) (Nat.mod_lt _ (by decide))
  obtain ⟨nVersion,bs,bs',hversion⟩ := (hcode.of_bind h).exists_of_bind
  obtain ⟨⟨txout,bs''⟩,-,hout⟩ := Option.bind_eq_some_iff.mp hversion
  have hheight := congrArg CTxInUndo.nHeight (Prod.mk.inj (Option.some.inj hout)).1
  dsimp only at hheight
  omega

theorem reads_txInUndo_iff {u : CTxInUndo} (h : u.Typed) :
    Reads (readTxInUndo K) (writeTxInUndo K u) u ↔ u.Fits := by
  obtain ⟨hvalue,hlen,-,hversion⟩ := h
  have hmax : MAX_SIZE=33554432 := rfl
  have hstored : u.nHeight<2^31 → Reads (readTxInUndo K) (writeTxInUndo K u)
      ⟨storedTxOut u.txout,u.fCoinBase,u.nHeight,storedVersion u⟩ := by
    intro hheight
    have hcode : (u.nHeight*2+(if u.fCoinBase then 1 else 0))%2^32=
        u.nHeight*2+(if u.fCoinBase then 1 else 0) := by
      apply Nat.mod_eq_of_lt
      split_ifs <;> omega
    have hhalf : (u.nHeight*2+(if u.fCoinBase then 1 else 0))/2=u.nHeight := by
      split_ifs <;> omega
    have hbit : ((u.nHeight*2+(if u.fCoinBase then 1 else 0))%2==1)=u.fCoinBase := by
      cases u.fCoinBase <;> simp
    have hfirst := reads_varInt (w := 32) (by decide)
      (show u.nHeight*2+(if u.fCoinBase then 1 else 0)<2^32 by split_ifs <;> omega)
    unfold writeTxInUndo
    rw [hcode]
    refine hfirst.bind ?_
    rw [hhalf,hbit]
    exact (reads_storedVersion hversion.2).bind ((reads_storedTxOut K (by omega)).map _)
  constructor
  · intro hread
    have hheight := height_of_reads K hread
    have heq := (hstored hheight).unique hread
    have hout := congrArg CTxInUndo.txout heq
    have hver := congrArg CTxInUndo.nVersion heq
    dsimp only at hout hver
    obtain ⟨hamount,hscript⟩ := (storedTxOut_eq_iff hvalue).mp hout
    obtain ⟨hnonneg,hbare⟩ := (storedVersion_eq_iff u).mp hver
    exact ⟨hamount,hscript,hheight,hnonneg,hbare⟩
  · rintro ⟨hamount,hscript,hheight,hnonneg,hbare⟩
    have hread := hstored hheight
    rwa [(storedTxOut_eq_iff hvalue).mpr ⟨hamount,hscript⟩,
      (storedVersion_eq_iff u).mpr ⟨hnonneg,hbare⟩] at hread

theorem reads_txInUndo {u : CTxInUndo} (h : u.Storable) :
    Reads (readTxInUndo K) (writeTxInUndo K u) u := by
  obtain ⟨⟨⟨hvalue,hlt⟩,hscript⟩,hheight,hversion,hbare⟩ := h
  have hmax : MAX_SIZE=33554432 := rfl
  have hscript' : MAX_SCRIPT_SIZE=10000 := rfl
  have htyped : u.Typed := ⟨by omega,by omega,by omega,by omega⟩
  exact (reads_txInUndo_iff K htyped).mpr
    ⟨.inr (by omega),hscript,hheight,hversion.1,hbare⟩

/-- Records that are in range, in vectors whose length is in range. -/
structure CBlockUndo.Storable (u : CBlockUndo) : Prop where
  length : u.vtxundo.length≤MAX_SIZE
  records : ∀t∈u.vtxundo,t.vprevout.length≤MAX_SIZE ∧ ∀r∈t.vprevout,r.Storable

theorem reads_blockUndo {u : CBlockUndo} (h : u.Storable) :
    Reads (readBlockUndo K) (writeBlockUndo K u) u := by
  have htx : ∀t∈u.vtxundo,Reads (readTxUndo K) (writeTxUndo K t) t := by
    intro t ht
    obtain ⟨hlen,hrecords⟩ := h.records t ht
    exact (reads_vector hlen fun r hr => reads_txInUndo K (hrecords r hr)).map CTxUndo.mk
  exact (reads_vector h.length htx).bind ((Reads.word (by decide) u.oldSproutTreeRoot).map _)

theorem undoReadFromDisk_undoWriteToDisk (checksum : Uint256 → List Byte → Uint256)
    (hashBlock : Uint256) {u : CBlockUndo} (h : u.Storable) :
    undoReadFromDisk K checksum hashBlock (undoWriteToDisk K checksum hashBlock u)=some u := by
  have hread := reads_blockUndo K h
    (toBytes (checksum hashBlock (writeBlockUndo K u)))
  have hword := Reads.word (by decide) (checksum hashBlock (writeBlockUndo K u)) []
  rw [List.append_nil] at hword
  simp only [undoReadFromDisk,undoWriteToDisk,hread,hword]
  exact if_pos trivial

end Records

end Zdeex.Block
