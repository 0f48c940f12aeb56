import Mathlib.Tactic.Ring
import Zdeex.Script.ScriptNum

namespace Zdeex.Script

def OP_0 : Nat := 0x00
def OP_1NEGATE : Nat := 0x4f
def OP_1 : Nat := 0x51
def OP_16 : Nat := 0x60

/-- An opcode with its operand, as `GetOp` returns them. -/
structure Instr where
  opcode : Nat
  vchPushValue : Valtype
deriving DecidableEq

/-- The loops over a script: `GetOp` until the end, or until it fails. -/
def readFrom : Nat → List UInt8 → List (Option Instr)
  | 0,_ => []
  | _+1,[] => []
  | n+1,b::pc =>
      match getOp (b::pc) with
      | none => [none]
      | some (opcode,data,rest) => some ⟨opcode,data⟩::readFrom n rest

def readOps (script : List UInt8) : List (Option Instr) := readFrom script.length script

/-- `WriteLE16` and `WriteLE32`. -/
def writeLE : Nat → Nat → List UInt8
  | 0,_ => []
  | width+1,x => UInt8.ofNat x::writeLE width (x/256)

/-- What `operator<<` puts in front of the data: the opcode, then the length bytes. -/
def pushOpcode (b : Valtype) : Nat :=
  if b.length<OP_PUSHDATA1 then b.length
  else if b.length≤0xff then OP_PUSHDATA1
  else if b.length≤0xffff then OP_PUSHDATA2
  else OP_PUSHDATA4

def pushLength (b : Valtype) : List UInt8 :=
  if b.length<OP_PUSHDATA1 then []
  else if b.length≤0xff then writeLE 1 b.length
  else if b.length≤0xffff then writeLE 2 b.length
  else writeLE 4 b.length

/-- `CScript::operator<<` of a vector. -/
def push (b : Valtype) : List UInt8 := UInt8.ofNat (pushOpcode b)::(pushLength b++b)

/-- `operator<<` of a vector or of an opcode. -/
def Instr.bytes (i : Instr) : List UInt8 :=
  if i.opcode≤OP_PUSHDATA4 then push i.vchPushValue else [UInt8.ofNat i.opcode]

def assemble (is : List Instr) : List UInt8 := is.flatMap Instr.bytes

/-- `CheckMinimalPush`. -/
def checkMinimalPush (data : Valtype) (opcode : Nat) : Bool :=
  let first := (data.headD 0).toNat
  if data.length=0 then opcode=OP_0
  else if data.length=1 ∧ 1≤first ∧ first≤16 then opcode=OP_1+(first-1)
  else if data.length=1 ∧ first=0x81 then opcode=OP_1NEGATE
  else if data.length≤75 then opcode=data.length
  else if data.length≤255 then opcode=OP_PUSHDATA1
  else if data.length≤65535 then opcode=OP_PUSHDATA2
  else true

/-- The test under `SCRIPT_VERIFY_MINIMALDATA`, which only looks at pushes. -/
def Instr.Minimal (i : Instr) : Prop :=
  i.opcode≤OP_PUSHDATA4 → checkMinimalPush i.vchPushValue i.opcode=true

instance (i : Instr) : Decidable i.Minimal := inferInstanceAs (Decidable (_ → _))

/-- An instruction that some script holds, in the one form the test passes. -/
structure Instr.Canonical (i : Instr) : Prop where
  isMinimal : i.Minimal
  size : i.vchPushValue.length<2^32
  isByte : i.opcode<256
  noOperand : OP_PUSHDATA4 < i.opcode → i.vchPushValue=[]
  pushed : i.opcode≤OP_PUSHDATA4 → i.opcode=pushOpcode i.vchPushValue

/-- The length bytes behind a push opcode and the size they announce. -/
def Announces (opcode : Nat) (len : List UInt8) (nSize : Nat) : Prop :=
  if opcode<OP_PUSHDATA1 then len=[] ∧ nSize=opcode
  else len.length=(if opcode=OP_PUSHDATA1 then 1 else if opcode=OP_PUSHDATA2 then 2 else 4) ∧
    nSize=readLength len

section LittleEndian

@[simp] theorem length_writeLE (width x : Nat) : (writeLE width x).length=width := by
  induction width generalizing x with
  | zero => rfl
  | succ width ih => rw [writeLE,List.length_cons,ih]

theorem readLength_writeLE (width x : Nat) : readLength (writeLE width x)=x%256^width := by
  induction width generalizing x with
  | zero => simp [writeLE,Nat.mod_one]
  | succ width ih =>
    have hcons : readLength (writeLE (width+1) x)=
        (UInt8.ofNat x).toNat+256*readLength (writeLE width (x/256)) := rfl
    rw [hcons,ih,UInt8.toNat_ofNat',pow_succ' 256,Nat.mod_mul]

theorem writeLE_readLength (bs : List UInt8) : writeLE bs.length (readLength bs)=bs := by
  induction bs with
  | nil => rfl
  | cons b bs ih =>
    have hb := b.toNat_lt
    have hcons : readLength (b::bs)=b.toNat+256*readLength bs := rfl
    have hlow : UInt8.ofNat (b.toNat+256*readLength bs)=b := by
      apply UInt8.toNat_inj.mp
      rw [UInt8.toNat_ofNat']
      omega
    have hhigh : (b.toNat+256*readLength bs)/256=readLength bs := by omega
    rw [List.length_cons,hcons,writeLE,hlow,hhigh,ih]

end LittleEndian

section Push

variable {len data : List UInt8} {opcode : Nat}

theorem announces_push (h : data.length<2^32) :
    Announces (pushOpcode data) (pushLength data) data.length := by
  rw [Announces,pushOpcode,pushLength]
  split
  · simp
  · split
    · simp [readLength_writeLE,OP_PUSHDATA1]
      omega
    · split
      · simp [readLength_writeLE,OP_PUSHDATA1,OP_PUSHDATA2]
        omega
      · simp [readLength_writeLE,OP_PUSHDATA1,OP_PUSHDATA2,OP_PUSHDATA4]
        omega

/-- The data and its opcode leave no choice of the length bytes. -/
theorem Announces.unique {len' : List UInt8} {nSize : Nat} (h : Announces opcode len nSize)
    (h' : Announces opcode len' nSize) : len=len' := by
  rw [Announces] at h h'
  split at h
  · rw [if_pos ‹_›] at h'
    rw [h.1,h'.1]
  · rw [if_neg ‹_›] at h'
    rw [← writeLE_readLength len,← writeLE_readLength len',h.1,h'.1,← h.2,← h'.2]

theorem Announces.lt {nSize : Nat} (h : Announces opcode len nSize) : nSize<2^32 := by
  have hlt := readLength_lt len
  rw [Announces] at h
  split at h
  · have : OP_PUSHDATA1<2^32 := by decide
    omega
  · have hpow : 256^len.length≤256^4 := by
      refine Nat.pow_le_pow_right (by decide) ?_
      rw [h.1]
      split
      · omega
      · split <;> omega
    rw [h.2]
    omega

/-- The room each opcode has for a size. -/
theorem Announces.room {nSize : Nat} (h : Announces opcode len nSize) (hle : opcode≤OP_PUSHDATA4) :
    (opcode<OP_PUSHDATA1 ∧ nSize=opcode) ∨ (opcode=OP_PUSHDATA1 ∧ nSize≤255) ∨
      (opcode=OP_PUSHDATA2 ∧ nSize≤65535) ∨ opcode=OP_PUSHDATA4 := by
  have hlt := readLength_lt len
  rw [Announces] at h
  split at h
  · exact .inl ⟨‹_›,h.2⟩
  · have hcases : opcode=OP_PUSHDATA1 ∨ opcode=OP_PUSHDATA2 ∨ opcode=OP_PUSHDATA4 := by
      simp only [OP_PUSHDATA1,OP_PUSHDATA2,OP_PUSHDATA4] at *
      omega
    rcases hcases with rfl | rfl | rfl
    · rw [if_pos rfl] at h
      rw [h.1] at hlt
      exact .inr (.inl ⟨rfl,by omega⟩)
    · rw [if_neg (by decide),if_pos rfl] at h
      rw [h.1] at hlt
      exact .inr (.inr (.inl ⟨rfl,by omega⟩))
    · exact .inr (.inr (.inr rfl))

theorem pushOpcode_cases (data : Valtype) :
    (data.length≤75 ∧ pushOpcode data=data.length) ∨
    (75<data.length ∧ data.length≤255 ∧ pushOpcode data=OP_PUSHDATA1) ∨
    (255<data.length ∧ data.length≤65535 ∧ pushOpcode data=OP_PUSHDATA2) ∨
    (65535<data.length ∧ pushOpcode data=OP_PUSHDATA4) := by
  rw [pushOpcode]
  have h76 : OP_PUSHDATA1=76 := rfl
  split_ifs <;> omega

/-- The minimal push of some data is the one `operator<<` writes, unless there is an
opcode that pushes the data without an operand. -/
theorem pushOpcode_of_minimal (h : Announces opcode len data.length)
    (hle : opcode≤OP_PUSHDATA4) (hminimal : checkMinimalPush data opcode=true) :
    opcode=pushOpcode data := by
  have hroom := h.room hle
  have hcases := pushOpcode_cases data
  have h0 : OP_0=0 := rfl
  have h1 : OP_1=81 ∧ OP_1NEGATE=79 := ⟨rfl,rfl⟩
  have hpush : OP_PUSHDATA1=76 ∧ OP_PUSHDATA2=77 ∧ OP_PUSHDATA4=78 := ⟨rfl,rfl,rfl⟩
  simp only [checkMinimalPush] at hminimal
  split_ifs at hminimal <;> simp only [decide_eq_true_eq] at hminimal <;> omega

end Push

section Reading

variable {script rest data : List UInt8} {opcode : Nat}

theorem pushSize_eq_some {pc : List UInt8} {nSize : Nat} :
    pushSize opcode pc=some (nSize,rest) ↔ ∃len,pc=len++rest ∧ Announces opcode len nSize := by
  rw [pushSize]
  by_cases hshort : opcode<OP_PUSHDATA1
  · simp only [if_pos hshort,Announces,Option.some.injEq,Prod.mk.injEq]
    constructor
    · rintro ⟨rfl,rfl⟩
      exact ⟨[],rfl,rfl,rfl⟩
    · rintro ⟨_,rfl,rfl,rfl⟩
      exact ⟨rfl,rfl⟩
  · simp only [if_neg hshort,Announces]
    generalize (if opcode=OP_PUSHDATA1 then 1 else if opcode=OP_PUSHDATA2 then 2 else 4)=width
    by_cases hwidth : pc.length<width
    · rw [if_pos hwidth]
      constructor
      · simp
      · rintro ⟨len,rfl,hlen,-⟩
        rw [List.length_append] at hwidth
        omega
    · simp only [if_neg hwidth,Option.some.injEq,Prod.mk.injEq]
      constructor
      · rintro ⟨rfl,rfl⟩
        exact ⟨pc.take width,(List.take_append_drop _ _).symm,by simp; omega,rfl⟩
      · rintro ⟨len,rfl,hlen,rfl⟩
        rw [List.take_left' hlen,List.drop_left' hlen]
        exact ⟨rfl,rfl⟩

theorem getOp_eq_some {b : UInt8} {pc : List UInt8} :
    getOp (b::pc)=some (opcode,data,rest) ↔ opcode=b.toNat ∧
      (if opcode≤OP_PUSHDATA4 then ∃len,pc=len++(data++rest) ∧ Announces opcode len data.length
        else data=[] ∧ pc=rest) := by
  have hb : b.toNat<256 := b.toNat_lt
  rw [getOp]
  by_cases hpush : b.toNat≤OP_PUSHDATA4
  · rw [if_pos hpush]
    cases hsize : pushSize b.toNat pc with
    | none =>
      constructor
      · simp
      · rintro ⟨rfl,h⟩
        rw [if_pos hpush] at h
        obtain ⟨len,hpc,hlen⟩ := h
        exact absurd (pushSize_eq_some.mpr ⟨len,hpc,hlen⟩) (by simp [hsize])
    | some found =>
      obtain ⟨nSize,after⟩ := found
      obtain ⟨len,rfl,hlen⟩ := pushSize_eq_some.mp hsize
      by_cases hshort : after.length<nSize
      · simp only [if_pos hshort]
        constructor
        · simp
        · rintro ⟨rfl,h⟩
          rw [if_pos hpush] at h
          obtain ⟨len',hpc,hlen'⟩ := h
          have hfound := pushSize_eq_some.mpr ⟨len',hpc,hlen'⟩
          rw [hsize] at hfound
          obtain ⟨rfl,rfl⟩ := Prod.mk.inj (Option.some.inj hfound)
          simp at hshort
      · simp only [if_neg hshort,Option.some.injEq,Prod.mk.injEq]
        constructor
        · rintro ⟨rfl,rfl,rfl⟩
          refine ⟨rfl,?_⟩
          rw [if_pos hpush]
          have htaken : (after.take nSize).length=nSize := by
            rw [List.length_take,min_eq_left (by omega)]
          exact ⟨len,by rw [List.take_append_drop],htaken.symm▸hlen⟩
        · rintro ⟨rfl,h⟩
          rw [if_pos hpush] at h
          obtain ⟨len',hpc,hlen'⟩ := h
          have hfound := pushSize_eq_some.mpr ⟨len',hpc,hlen'⟩
          rw [hsize] at hfound
          obtain ⟨rfl,rfl⟩ := Prod.mk.inj (Option.some.inj hfound)
          exact ⟨rfl,List.take_left' rfl,List.drop_left' rfl⟩
  · rw [if_neg hpush]
    simp only [Option.some.injEq,Prod.mk.injEq]
    constructor
    · rintro ⟨rfl,rfl,rfl⟩
      exact ⟨rfl,by rw [if_neg hpush]; exact ⟨rfl,rfl⟩⟩
    · rintro ⟨rfl,h⟩
      rw [if_neg hpush] at h
      exact ⟨rfl,h.1.symm,h.2⟩

theorem length_lt_of_getOp (h : getOp script=some (opcode,data,rest)) :
    rest.length<script.length := by
  cases script with
  | nil => simp [getOp] at h
  | cons b pc =>
    obtain ⟨-,hpc⟩ := getOp_eq_some.mp h
    split at hpc
    · obtain ⟨len,rfl,-⟩ := hpc
      simp only [List.length_cons,List.length_append]
      omega
    · rw [hpc.2,List.length_cons]
      omega

theorem readFrom_fuel {n m : Nat} (hn : script.length≤n) (hm : script.length ≤ m) :
    readFrom n script=readFrom m script := by
  induction n generalizing m script with
  | zero =>
    obtain rfl := List.eq_nil_of_length_eq_zero (Nat.le_zero.mp hn)
    cases m <;> rfl
  | succ n ih =>
    cases script with
    | nil => cases m <;> rfl
    | cons b pc =>
      cases m with
      | zero => simp at hm
      | succ m =>
        rw [readFrom,readFrom]
        cases hop : getOp (b::pc) with
        | none => rfl
        | some found =>
          obtain ⟨opcode,data,rest⟩ := found
          have hlt := length_lt_of_getOp hop
          rw [List.length_cons] at hn hm hlt
          have hrest : readFrom n rest=readFrom m rest := ih (by omega) (by omega)
          simp only [hrest]

@[simp] theorem readOps_nil : readOps []=[] := rfl

theorem readOps_none (hne : script≠[]) (h : getOp script=none) : readOps script=[none] := by
  cases script with
  | nil => exact absurd rfl hne
  | cons b pc => simp [readOps,readFrom,h]

theorem readOps_some (h : getOp script=some (opcode,data,rest)) :
    readOps script=some ⟨opcode,data⟩::readOps rest := by
  cases script with
  | nil => simp [getOp] at h
  | cons b pc =>
    have hlt := length_lt_of_getOp h
    simp only [readOps,List.length_cons,readFrom,h] at hlt ⊢
    rw [readFrom_fuel (by omega) (le_refl rest.length)]

/-- Reading a script goes by its first instruction. -/
theorem readOps_eq_cons {is : List (Option Instr)} {i : Instr} (h : readOps script=some i::is) :
    ∃rest,getOp script=some (i.opcode,i.vchPushValue,rest) ∧ readOps rest=is := by
  by_cases hne : script=[]
  · simp [hne] at h
  cases hop : getOp script with
  | none => simp [readOps_none hne hop] at h
  | some found =>
    obtain ⟨opcode,data,rest⟩ := found
    rw [readOps_some hop] at h
    obtain ⟨hi,rfl⟩ := List.cons.inj h
    obtain rfl := Option.some.inj hi
    exact ⟨rest,rfl,rfl⟩

end Reading

section Canonical

variable {script rest : List UInt8} {i : Instr}

theorem getOp_bytes (h : i.Canonical) :
    getOp (i.bytes++rest)=some (i.opcode,i.vchPushValue,rest) := by
  have hopcode : i.opcode=(UInt8.ofNat i.opcode).toNat := (UInt8.toNat_ofNat_of_lt' h.isByte).symm
  rw [Instr.bytes]
  by_cases hpush : i.opcode≤OP_PUSHDATA4
  · rw [if_pos hpush,push,← h.pushed hpush,List.cons_append,getOp_eq_some]
    refine ⟨hopcode,?_⟩
    rw [if_pos hpush,h.pushed hpush]
    exact ⟨pushLength i.vchPushValue,List.append_assoc _ _ _,announces_push h.size⟩
  · rw [if_neg hpush,List.singleton_append,getOp_eq_some]
    refine ⟨hopcode,?_⟩
    rw [if_neg hpush]
    exact ⟨h.noOperand (by omega),rfl⟩

theorem bytes_of_getOp (h : getOp script=some (i.opcode,i.vchPushValue,rest)) (hmin : i.Minimal) :
    script=i.bytes++rest ∧ i.Canonical := by
  cases script with
  | nil => simp [getOp] at h
  | cons b pc =>
    obtain ⟨hb,hpc⟩ := getOp_eq_some.mp h
    have hbyte : i.opcode<256 := hb▸b.toNat_lt
    have hofNat : UInt8.ofNat i.opcode=b := by rw [hb,UInt8.ofNat_toNat]
    by_cases hpush : i.opcode≤OP_PUSHDATA4
    · rw [if_pos hpush] at hpc
      obtain ⟨len,rfl,hlen⟩ := hpc
      have hop := pushOpcode_of_minimal hlen hpush (hmin hpush)
      have hlen' : len=pushLength i.vchPushValue :=
        Announces.unique (hop▸hlen) (announces_push hlen.lt)
      refine ⟨?_,hmin,hlen.lt,hbyte,fun hlt => by omega,fun _ => hop⟩
      rw [Instr.bytes,if_pos hpush,push,← hop,hofNat,hlen',List.cons_append,List.append_assoc]
    · rw [if_neg hpush] at hpc
      obtain ⟨hdata,rfl⟩ := hpc
      refine ⟨?_,hmin,by rw [hdata]; decide,hbyte,fun _ => hdata,fun hle => absurd hle hpush⟩
      rw [Instr.bytes,if_neg hpush,hofNat,List.singleton_append]

/-- A script whose pushes are all minimal is what `operator<<` writes for its instructions, and
is read back as them: its instructions leave no choice of its bytes. -/
theorem readOps_minimal_iff (script : List UInt8) (is : List Instr) :
    (readOps script=is.map some ∧ ∀i∈is,i.Minimal) ↔
      script=assemble is ∧ ∀i∈is,i.Canonical := by
  induction is generalizing script with
  | nil =>
    have hnil : readOps script=[] ↔ script=[] := by
      refine ⟨fun h => ?_,fun h => by rw [h]; rfl⟩
      by_contra hne
      cases hop : getOp script with
      | none => simp [readOps_none hne hop] at h
      | some found =>
        obtain ⟨opcode,data,rest⟩ := found
        simp [readOps_some hop] at h
    simpa [assemble] using hnil
  | cons i is ih =>
    rw [List.map_cons,List.forall_mem_cons,List.forall_mem_cons]
    constructor
    · rintro ⟨hread,hmin,hall⟩
      obtain ⟨rest,hop,hrest⟩ := readOps_eq_cons hread
      obtain ⟨hscript,hi⟩ := bytes_of_getOp hop hmin
      obtain ⟨hassemble,his⟩ := (ih rest).mp ⟨hrest,hall⟩
      rw [hassemble] at hscript
      exact ⟨hscript,hi,his⟩
    · rintro ⟨hscript,hi,his⟩
      obtain ⟨hrest,hall⟩ := (ih (assemble is)).mpr ⟨rfl,his⟩
      refine ⟨?_,hi.isMinimal,hall⟩
      rw [hscript,assemble,List.flatMap_cons,readOps_some (getOp_bytes hi)]
      exact congrArg _ hrest

end Canonical

end Zdeex.Script
