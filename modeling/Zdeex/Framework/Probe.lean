import Mathlib.Data.List.Infix
import Mathlib.Tactic.Common
import Zdeex.Framework.Bytes

namespace Zdeex.Framework

/-- A computation that reads single bytes of a memory. `fault` is undefined behaviour
of another kind. -/
inductive Probe (α : Type) where
  | ret (a : α)
  | read (i : Nat) (next : Byte → Probe α)
  | fault

namespace Probe

variable {α β : Type}

def bind : Probe α → (α → Probe β) → Probe β
  | ret a,f => f a
  | read i next,f => read i fun b => bind (next b) f
  | fault,_ => fault

instance : Monad Probe where
  pure := ret
  bind := bind

/-- The result; `none` is a fault. -/
def run (mem : Nat → Byte) : Probe α → Option α
  | ret a => some a
  | read i next => run mem (next (mem i))
  | fault => none

/-- No fault, and every byte read lies below the limit. -/
def Safe (limit : Nat) (mem : Nat → Byte) : Probe α → Prop
  | ret _ => True
  | read i next => i<limit ∧ Safe limit mem (next (mem i))
  | fault => False

/-- Every result has the property, whatever the memory holds. -/
def Ends (P : α → Prop) (p : Probe α) : Prop := ∀mem a,run mem p=some a → P a

def byte (i : Nat) : Probe Byte := read i ret

/-- Consecutive bytes. -/
def bytes (i : Nat) : Nat → Probe (List Byte)
  | 0 => pure []
  | n+1 => do
      let b ← byte i
      let bs ← bytes (i+1) n
      return b::bs

/-- A little-endian field. -/
def word (w i : Nat) : Probe (BitVec w) := do
  let bs ← bytes i (w/8)
  return ofBytes w bs

/-- Compares the string with a C string in memory, up to the first difference. -/
def strcmp : List Byte → Nat → Probe Bool
  | [],i => do
      let b ← byte i
      return b==0
  | ch::str,i => do
      let b ← byte i
      if b=ch then strcmp str (i+1) else return false

/-- The same for the characters of the string only. -/
def strncmp : List Byte → Nat → Probe Bool
  | [],_ => return true
  | ch::str,i => do
      let b ← byte i
      if b=ch then strncmp str (i+1) else return false

/-- Counts characters up to the first one that stops it. The fuel covers the memory
below the limit. -/
def span (stop : Byte → Bool) : Nat → Nat → Probe Nat
  | 0,_ => fault
  | fuel+1,i => do
      let b ← byte i
      if stop b then return 0
      else
        let n ← span stop fuel (i+1)
        return n+1

section Laws

variable {limit : Nat} {mem mem' : Nat → Byte} {p : Probe α} {f : α → Probe β}

@[simp] theorem run_pure (a : α) : run mem (pure a : Probe α)=some a := rfl

@[simp] theorem safe_pure (a : α) : Safe limit mem (pure a : Probe α) := trivial

@[simp] theorem run_bind : run mem (p>>=f)=(run mem p).bind fun a => run mem (f a) := by
  change run mem (bind p f)=_
  induction p with
  | ret a => rfl
  | read i next ih => exact ih (mem i)
  | fault => rfl

theorem safe_bind :
    Safe limit mem (p>>=f) ↔ Safe limit mem p ∧ ∀a,run mem p=some a → Safe limit mem (f a) := by
  change Safe limit mem (bind p f) ↔ _
  induction p with
  | ret a => simp [bind,Safe,run]
  | read i next ih =>
    simp only [bind,Safe,run,ih (mem i),and_assoc]
  | fault => simp [bind,Safe]

@[simp] theorem run_byte (i : Nat) : run mem (byte i)=some (mem i) := rfl

@[simp] theorem safe_byte (i : Nat) : Safe limit mem (byte i) ↔ i<limit := by
  simp [byte,Safe]

theorem Ends.pure {P : α → Prop} {a : α} (h : P a) : Ends P (pure a : Probe α) := by
  intro mem b hrun
  obtain rfl := Option.some.inj hrun
  exact h

theorem Ends.bind {P : β → Prop} (h : ∀a,Ends P (f a)) : Ends P (p>>=f) := by
  intro mem b hrun
  rw [run_bind,Option.bind_eq_some_iff] at hrun
  obtain ⟨a,-,hnext⟩ := hrun
  exact h a mem b hnext

/-- Behind a computation whose result is known. -/
theorem safe_bind_of_run {a : α} (h : run mem p=some a) :
    Safe limit mem (p>>=f) ↔ Safe limit mem p ∧ Safe limit mem (f a) := by
  rw [safe_bind,h]
  simp

/-- What is safe returns. -/
theorem Safe.isSome (h : Safe limit mem p) : (run mem p).isSome := by
  induction p with
  | ret a => rfl
  | read i next ih => exact ih (mem i) h.2
  | fault => exact h.elim

/-- The bytes at and behind the limit do not matter to what is safe. -/
theorem Safe.local (h : Safe limit mem p) (hmem : ∀i<limit,mem i=mem' i) :
    run mem p=run mem' p ∧ Safe limit mem' p := by
  induction p with
  | ret a => exact ⟨rfl,trivial⟩
  | read i next ih =>
    obtain ⟨hi,hnext⟩ := h
    obtain ⟨hrun,hsafe⟩ := ih (mem i) hnext
    rw [hmem i hi] at hrun hsafe
    exact ⟨by rw [run,run,hmem i hi,hrun],hi,hsafe⟩
  | fault => exact h.elim

theorem run_bytes (i n : Nat) :
    run mem (bytes i n)=some ((List.range n).map fun k => mem (i+k)) := by
  induction n generalizing i with
  | zero => rfl
  | succ n ih =>
    rw [bytes,run_bind,run_byte,Option.bind_some,run_bind,ih,Option.bind_some,run_pure,
      List.range_succ_eq_map,List.map_cons,List.map_map]
    simp only [Nat.add_zero,Function.comp_def,Nat.succ_eq_add_one,Nat.add_assoc,Nat.add_comm 1]

theorem safe_bytes (i n : Nat) : Safe limit mem (bytes i n) ↔ n=0 ∨ i+n≤limit := by
  induction n generalizing i with
  | zero => simp [bytes]
  | succ n ih =>
    rw [bytes,safe_bind_of_run (run_byte i),safe_byte,safe_bind_of_run (run_bytes (i+1) n),ih]
    simp only [safe_pure,and_true]
    omega

theorem run_word (w i : Nat) :
    run mem (word w i)=some (ofBytes w ((List.range (w/8)).map fun k => mem (i+k))) := by
  rw [word,run_bind,run_bytes]
  rfl

theorem safe_word {w : Nat} (hw : 0 < w/8) (i : Nat) :
    Safe limit mem (word w i) ↔ i+w/8≤limit := by
  rw [word,safe_bind_of_run (run_bytes i (w/8)),safe_bytes]
  simp only [safe_pure,and_true]
  omega

end Laws

/-- A buffer with a script in front and older bytes behind it. -/
def overlay (s : List Byte) (stale : Nat → Byte) (i : Nat) : Byte := (s[i]?).getD (stale i)

section Overlay

variable {s : List Byte} {stale : Nat → Byte}

theorem overlay_of_lt {i : Nat} (hi : i<s.length) (stale' : Nat → Byte) :
    overlay s stale i=overlay s stale' i := by
  simp [overlay,List.getElem?_eq_getElem hi]

theorem drop_eq_cons_overlay (stale : Nat → Byte) {i : Nat} (hi : i<s.length) :
    s.drop i=overlay s stale i::s.drop (i+1) := by
  rw [List.drop_eq_getElem_cons hi]
  simp [overlay,List.getElem?_eq_getElem hi]

/-- The bytes of a field that lies in the script. -/
theorem map_overlay {i n : Nat} (h : n=0 ∨ i+n ≤ s.length) :
    ((List.range n).map fun k => overlay s stale (i+k))=(s.drop i).take n := by
  induction n generalizing i with
  | zero => simp
  | succ n ih =>
    rw [drop_eq_cons_overlay stale (show i<s.length by omega),List.take_succ_cons,
      ←ih (by omega),List.range_succ_eq_map,List.map_cons,List.map_map]
    simp only [Nat.add_zero,Function.comp_def,Nat.succ_eq_add_one,Nat.add_assoc,Nat.add_comm 1]

theorem run_bytes_overlay {i n : Nat} (h : n=0 ∨ i+n ≤ s.length) :
    run (overlay s stale) (bytes i n)=some ((s.drop i).take n) := by
  rw [run_bytes,map_overlay h]

theorem run_word_overlay {w i : Nat} (h : i+w/8 ≤ s.length) :
    run (overlay s stale) (word w i)=some (ofBytes w ((s.drop i).take (w/8))) := by
  rw [run_word,map_overlay (.inr h)]

/-- The comparison ends in the script unless the script ends first. -/
theorem safe_strcmp (stale : Nat → Byte) (str : List Byte) (i : Nat) :
    Safe s.length (overlay s stale) (strcmp str i) ↔
      ¬∃t≠[],s.drop i++t=str++[0] := by
  induction str generalizing i with
  | nil =>
    rw [strcmp,safe_bind_of_run (run_byte i),safe_byte]
    simp only [safe_pure,and_true,List.nil_append]
    constructor
    · rintro hi ⟨t,hne,heq⟩
      rw [drop_eq_cons_overlay stale hi,List.cons_append] at heq
      have htail := (List.cons.inj heq).2
      simp only [List.append_eq_nil_iff] at htail
      exact hne htail.2
    · intro h
      by_contra hge
      exact h ⟨[0],by simp,by rw [List.drop_eq_nil_of_le (by omega),List.nil_append]⟩
  | cons ch str ih =>
    rw [strcmp,safe_bind_of_run (run_byte i),safe_byte]
    by_cases hi : i<s.length
    · rw [drop_eq_cons_overlay stale hi]
      split_ifs with heq
      · rw [ih (i+1),heq]
        simp only [hi,true_and,List.cons_append,List.cons.injEq]
      · simp only [hi,safe_pure,List.cons_append,List.cons.injEq,heq,false_and,and_false,
          exists_false,not_false_iff,and_self]
    · rw [List.drop_eq_nil_of_le (by omega)]
      constructor
      · intro h
        exact absurd h.1 hi
      · intro h
        exact absurd ⟨ch::str++[0],by simp,by simp⟩ h

theorem safe_strncmp (stale : Nat → Byte) (str : List Byte) (i : Nat) :
    Safe s.length (overlay s stale) (strncmp str i) ↔ ¬∃t≠[],s.drop i++t=str := by
  induction str generalizing i with
  | nil =>
    simp only [strncmp,safe_pure,true_iff,List.append_eq_nil_iff]
    rintro ⟨t,hne,-,ht⟩
    exact hne ht
  | cons ch str ih =>
    rw [strncmp,safe_bind_of_run (run_byte i),safe_byte]
    by_cases hi : i<s.length
    · rw [drop_eq_cons_overlay stale hi]
      split_ifs with heq
      · rw [ih (i+1),heq]
        simp only [hi,true_and,List.cons_append,List.cons.injEq]
      · simp only [hi,safe_pure,List.cons_append,List.cons.injEq,heq,false_and,and_false,
          exists_false,not_false_iff,and_self]
    · rw [List.drop_eq_nil_of_le (by omega)]
      constructor
      · intro h
        exact absurd h.1 hi
      · intro h
        exact absurd ⟨ch::str,by simp,by simp⟩ h

/-- Where the comparison stays in the script it compares with the script. -/
theorem run_strncmp {str : List Byte} {i : Nat}
    (h : Safe s.length (overlay s stale) (strncmp str i)) :
    run (overlay s stale) (strncmp str i)=some (decide (str<+:s.drop i)) := by
  induction str generalizing i with
  | nil => simp [strncmp]
  | cons ch str ih =>
    rw [strncmp,safe_bind_of_run (run_byte i),safe_byte] at h
    rw [strncmp,run_bind,run_byte,Option.bind_some,drop_eq_cons_overlay stale h.1]
    split_ifs with heq
    · rw [if_pos heq] at h
      rw [ih h.2]
      simp [heq,List.cons_prefix_cons]
    · simp [List.cons_prefix_cons,Ne.symm heq]

theorem run_strcmp {str : List Byte} {i : Nat}
    (h : Safe s.length (overlay s stale) (strcmp str i)) :
    run (overlay s stale) (strcmp str i)=some (decide (str++[0]<+:s.drop i)) := by
  induction str generalizing i with
  | nil =>
    rw [strcmp,safe_bind_of_run (run_byte i),safe_byte] at h
    rw [strcmp,run_bind,run_byte,Option.bind_some,drop_eq_cons_overlay stale h.1]
    simp [List.cons_prefix_cons,beq_eq_decide,eq_comm]
  | cons ch str ih =>
    rw [strcmp,safe_bind_of_run (run_byte i),safe_byte] at h
    rw [strcmp,run_bind,run_byte,Option.bind_some,drop_eq_cons_overlay stale h.1]
    split_ifs with heq
    · rw [if_pos heq] at h
      rw [ih h.2]
      simp [heq,List.cons_prefix_cons]
    · simp [List.cons_prefix_cons,Ne.symm heq]

/-- The count ends in the script exactly when something there stops it. -/
theorem safe_span (stale : Nat → Byte) (stop : Byte → Bool) {fuel i : Nat}
    (hfuel : s.length < i+fuel) :
    Safe s.length (overlay s stale) (span stop fuel i) ↔ ∃b∈s.drop i,stop b=true := by
  induction fuel generalizing i with
  | zero =>
    rw [List.drop_eq_nil_of_le (by omega)]
    simp [span,Safe]
  | succ fuel ih =>
    rw [span,safe_bind_of_run (run_byte i),safe_byte]
    by_cases hi : i<s.length
    · rw [drop_eq_cons_overlay stale hi]
      by_cases hstop : stop (overlay s stale i)=true
      · rw [if_pos hstop]
        simp [hi,hstop]
      · rw [if_neg hstop,safe_bind]
        simp only [hi,true_and,safe_pure,implies_true,and_true,ih (show s.length < i+1+fuel by omega)]
        simp [hstop]
    · rw [List.drop_eq_nil_of_le (by omega)]
      simp [hi]

theorem run_span {stop : Byte → Bool} {fuel i : Nat}
    (h : Safe s.length (overlay s stale) (span stop fuel i)) :
    run (overlay s stale) (span stop fuel i)=
      some ((s.drop i).takeWhile fun b => !stop b).length := by
  induction fuel generalizing i with
  | zero => exact h.elim
  | succ fuel ih =>
    rw [span,safe_bind_of_run (run_byte i),safe_byte] at h
    rw [span,run_bind,run_byte,Option.bind_some,drop_eq_cons_overlay stale h.1]
    by_cases hstop : stop (overlay s stale i)=true
    · rw [if_pos hstop]
      simp [hstop]
    · rw [if_neg hstop,safe_bind] at h
      rw [if_neg hstop,run_bind,ih h.2.1]
      simp [hstop]

/-- A little-endian field of the script. -/
def field (s : List Byte) (w i : Nat) : BitVec w := ofBytes w ((s.drop i).take (w/8))

section Rules

variable {β : Type} {stale : Nat → Byte} {i : Nat}

theorem safe_byte_bind {f : Byte → Probe β} :
    Safe s.length (overlay s stale) (byte i>>=f) ↔
      i<s.length ∧ Safe s.length (overlay s stale) (f (s.getD i 0)) := by
  rw [safe_bind_of_run (run_byte i),safe_byte]
  refine and_congr_right fun hi => ?_
  simp [overlay,List.getElem?_eq_getElem hi]

theorem safe_bytes_bind {n : Nat} {f : List Byte → Probe β} :
    Safe s.length (overlay s stale) (bytes i n>>=f) ↔
      (n=0 ∨ i+n ≤ s.length) ∧ Safe s.length (overlay s stale) (f ((s.drop i).take n)) := by
  rw [safe_bind_of_run (run_bytes i n),safe_bytes]
  refine and_congr_right fun h => ?_
  rw [map_overlay h]

theorem safe_word_bind {w : Nat} (hw : 0 < w/8) {f : BitVec w → Probe β} :
    Safe s.length (overlay s stale) (word w i>>=f) ↔
      i+w/8 ≤ s.length ∧ Safe s.length (overlay s stale) (f (field s w i)) := by
  rw [safe_bind_of_run (run_word w i),safe_word hw]
  refine and_congr_right fun h => ?_
  rw [map_overlay (.inr h)]
  rfl

theorem safe_strcmp_bind {str : List Byte} {f : Bool → Probe β} :
    Safe s.length (overlay s stale) (strcmp str i>>=f) ↔
      (¬∃t≠[],s.drop i++t=str++[0]) ∧
        Safe s.length (overlay s stale) (f (decide (str++[0]<+:s.drop i))) := by
  rw [safe_bind,safe_strcmp]
  refine and_congr_right fun h => ?_
  rw [run_strcmp ((safe_strcmp stale str i).mpr h)]
  simp

theorem safe_span_bind {stop : Byte → Bool} {fuel : Nat} (hfuel : s.length < i+fuel)
    {f : Nat → Probe β} :
    Safe s.length (overlay s stale) (span stop fuel i>>=f) ↔
      (∃b∈s.drop i,stop b=true) ∧ Safe s.length (overlay s stale)
        (f ((s.drop i).takeWhile fun b => !stop b).length) := by
  rw [safe_bind,safe_span stale stop hfuel]
  refine and_congr_right fun h => ?_
  rw [run_span ((safe_span stale stop hfuel).mpr h)]
  simp

end Rules

end Overlay

end Probe

end Zdeex.Framework
