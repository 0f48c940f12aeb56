import Mathlib.Data.List.DropRight
import Zdeex.Primitives.Uint256

namespace Zdeex.Coins

structure CTxOut where
  nValue : Int
  scriptPubKey : List UInt8
  deriving DecidableEq

namespace CTxOut

def setNull : CTxOut := ⟨-1,[]⟩

def isNull (o : CTxOut) : Bool := o.nValue== -1

end CTxOut

/-- Pruned transaction: metadata and the outputs that are still unspent. -/
structure CCoins where
  fCoinBase : Bool
  vout : List CTxOut
  nHeight : Int
  nVersion : Int
  deriving DecidableEq

namespace CCoins

/-- Also the value of the empty constructor. -/
def clear : CCoins := ⟨false,[],0,0⟩

/-- Spent outputs at the end of the array are dropped. -/
def cleanup (c : CCoins) : CCoins := {c with vout := c.vout.rdropWhile CTxOut.isNull}

def isPruned (c : CCoins) : Bool := c.vout.all CTxOut.isNull

def isAvailable (c : CCoins) (nPos : Nat) : Bool :=
  match c.vout[nPos]? with
  | none => false
  | some o => !o.isNull

/-- The output at a position, unless it is spent or out of range. -/
def unspentOutput (c : CCoins) (nPos : Nat) : Option CTxOut :=
  if c.isAvailable nPos then c.vout[nPos]? else none

end CCoins

/-- What a transaction with unspent outputs shows to a reader of a view. -/
@[ext] structure Unspent where
  fCoinBase : Bool
  nHeight : Int
  nVersion : Int
  output : Nat → Option CTxOut

/-- A missing entry and a fully pruned entry are identified. -/
def seen : Option CCoins → Option Unspent
  | none => none
  | some c =>
      if c.isPruned then none
      else some ⟨c.fCoinBase,c.nHeight,c.nVersion,c.unspentOutput⟩

@[simp] theorem seen_none : seen none=none := rfl

theorem seen_of_pruned {c : CCoins} (h : c.isPruned=true) : seen (some c)=none := by
  simp [seen,h]

theorem seen_eq_none_iff (c : CCoins) : seen (some c)=none ↔ c.isPruned=true := by
  cases h : c.isPruned <;> simp [seen,h]

private theorem rdropWhile_all (p : CTxOut → Bool) (l : List CTxOut) :
    (l.rdropWhile p).all p=l.all p := by
  induction l using List.reverseRecOn with
  | nil => simp
  | append_singleton l o ih =>
    rw [List.rdropWhile_concat]
    cases ho : p o <;> simp [ho,ih]

private theorem rdropWhile_filter (p : CTxOut → Bool) (l : List CTxOut) (n : Nat) :
    ((l.rdropWhile p)[n]?).filter (fun o => !p o)=(l[n]?).filter (fun o => !p o) := by
  induction l using List.reverseRecOn with
  | nil => simp
  | append_singleton l o ih =>
    rw [List.rdropWhile_concat]
    split_ifs with ho
    · rw [ih]
      by_cases hn : n<l.length
      · rw [List.getElem?_append_left hn]
      · have hlast : l[n]?=none := List.getElem?_eq_none (by omega)
        rw [hlast,List.getElem?_append_right (by omega)]
        cases hs : ([o] : List CTxOut)[n-l.length]? with
        | none => rfl
        | some o' =>
          have : o'=o := by
            have := List.mem_of_getElem? hs
            simpa using this
          subst o'
          simp [Option.filter,ho]
    · rfl

namespace CCoins

theorem unspentOutput_eq_filter (c : CCoins) (n : Nat) :
    c.unspentOutput n=(c.vout[n]?).filter (fun o => !o.isNull) := by
  unfold unspentOutput isAvailable
  cases h : c.vout[n]? with
  | none => simp
  | some o => cases ho : o.isNull <;> simp [Option.filter,ho]

@[simp] theorem isPruned_cleanup (c : CCoins) : c.cleanup.isPruned=c.isPruned :=
  rdropWhile_all CTxOut.isNull c.vout

@[simp] theorem unspentOutput_cleanup (c : CCoins) : c.cleanup.unspentOutput=c.unspentOutput := by
  funext n
  rw [unspentOutput_eq_filter,unspentOutput_eq_filter]
  exact rdropWhile_filter CTxOut.isNull c.vout n

end CCoins

@[simp] theorem seen_cleanup (c : CCoins) : seen (some c.cleanup)=seen (some c) := by
  simp only [seen,CCoins.isPruned_cleanup,CCoins.unspentOutput_cleanup]
  rfl

/-- An edit that cannot tell a missing entry from a pruned one, nor trailing
spent outputs from absent ones. -/
def RespectsSeen (f : CCoins → CCoins) : Prop :=
  ∀a b,seen (some a)=seen (some b) → seen (some (f a))=seen (some (f b))

end Zdeex.Coins
