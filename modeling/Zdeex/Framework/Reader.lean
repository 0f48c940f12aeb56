import Mathlib.Data.List.Basic
import Mathlib.Tactic.Common
import Zdeex.Framework.Bytes

namespace Zdeex.Framework

variable {α β : Type}

/-- Takes what it needs from the front of a stream; `none` is an exception. -/
abbrev Reader := StateT (List Byte) Option

namespace Reader

def fail : Reader α := fun _ => none

def byte : Reader Byte
  | [] => none
  | b::bs => some (b,bs)

def bytes (n : Nat) : Reader (List Byte) := fun bs =>
  if n≤bs.length then some (bs.take n,bs.drop n) else none

def word (w : Nat) : Reader (BitVec w) := do
  return ofBytes w (← bytes (w/8))

/-- One item after the other. -/
def items (r : Reader α) : Nat → Reader (List α)
  | 0 => pure []
  | n+1 => do
      let a ← r
      let as ← items r n
      return a::as

/-- The result of a sequence of readers comes from both of them. -/
theorem length_items {r : Reader α} {n : Nat} {bs rest : List Byte} {as : List α}
    (h : items r n bs=some (as,rest)) : as.length=n := by
  induction n generalizing bs rest as with
  | zero =>
    obtain ⟨rfl,-⟩ := Prod.mk.inj (Option.some.inj h)
    rfl
  | succ n ih =>
    obtain ⟨p,-,h⟩ := Option.bind_eq_some_iff.mp h
    obtain ⟨q,hq,h⟩ := Option.bind_eq_some_iff.mp h
    obtain ⟨rfl,-⟩ := Prod.mk.inj (Option.some.inj h)
    rw [List.length_cons,ih hq]

end Reader

/-- The reader takes exactly the bytes `e` and returns `a`, whatever follows. -/
def Reads (r : Reader α) (e : List Byte) (a : α) : Prop := ∀rest,r (e++rest)=some (a,rest)

namespace Reads

variable {r : Reader α} {e e' : List Byte} {a : α} {b : β} {f : α → Reader β}

theorem pure (a : α) : Reads (Pure.pure a : Reader α) [] a := by
  intro rest
  rfl

theorem bind (h : Reads r e a) (h' : Reads (f a) e' b) : Reads (r>>=f) (e++e') b := by
  intro rest
  change (r (e++e'++rest)).bind (fun p => f p.1 p.2)=some (b,rest)
  rw [List.append_assoc,h]
  exact h' rest

theorem run_bind (h : Reads r e a) (bs : List Byte) : (r>>=f) (e++bs)=f a bs := by
  change (r (e++bs)).bind (fun p => f p.1 p.2)=f a bs
  rw [h]
  rfl

theorem of_bind (h : Reads r e a) (h' : Reads (r>>=f) (e++e') b) : Reads (f a) e' b := by
  intro rest
  have hread : (r (e++e'++rest)).bind (fun p => f p.1 p.2)=some (b,rest) := h' rest
  rwa [List.append_assoc,h] at hread

/-- What is returned comes from a value that was read. -/
theorem exists_of_bind (h : Reads (r>>=f) e b) : ∃a bs bs',f a bs=some (b,bs') := by
  have hread : (r (e++[])).bind (fun p => f p.1 p.2)=some (b,[]) := h []
  obtain ⟨⟨a,bs⟩,-,hf⟩ := Option.bind_eq_some_iff.mp hread
  exact ⟨a,bs,[],hf⟩

theorem unique {a' : α} (h : Reads r e a) (h' : Reads r e a') : a=a' := by
  have heq := (h []).symm.trans (h' [])
  exact congrArg Prod.fst (Option.some.inj heq)

theorem map (g : α → β) (h : Reads r e a) : Reads (do return g (← r)) e (g a) := by
  have hbind := h.bind (f := fun a => (Pure.pure (g a) : Reader β)) (Reads.pure (g a))
  rwa [List.append_nil] at hbind

theorem byte (b : Byte) : Reads Reader.byte [b] b := by
  intro rest
  rfl

theorem bytes (bs : List Byte) : Reads (Reader.bytes bs.length) bs bs := by
  intro rest
  simp [Reader.bytes]

theorem word {w : Nat} (hw : 8∣w) (x : BitVec w) : Reads (Reader.word w) (toBytes x) x := by
  have hread : Reads (Reader.bytes (w/8)) (toBytes x) (toBytes x) := by
    have hlen := Reads.bytes (toBytes x)
    rwa [length_toBytes] at hlen
  have hmap := hread.map (ofBytes w)
  rwa [ofBytes_toBytes hw] at hmap

/-- A list whose items are written one after the other. -/
theorem items {enc : α → List Byte} (as : List α) (h : ∀a∈as,Reads r (enc a) a) :
    Reads (Reader.items r as.length) (as.flatMap enc) as := by
  induction as with
  | nil => exact Reads.pure []
  | cons a as ih =>
    have htail := (ih (fun c hc => h c (List.mem_cons_of_mem a hc))).map (fun cs => a::cs)
    exact (h a (by simp)).bind htail

end Reads

end Zdeex.Framework
