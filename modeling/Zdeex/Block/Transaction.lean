import Mathlib.Algebra.BigOperators.Group.List.Basic
import Mathlib.Algebra.Order.BigOperators.Group.List
import Mathlib.Tactic.Ring
import Zdeex.Coins.CCoins

namespace Zdeex.Block

open Zdeex.Coins

structure COutPoint where
  hash : Uint256
  n : Nat
  deriving DecidableEq

def COutPoint.isNull (o : COutPoint) : Bool := o.hash.isNull && o.n==0xFFFFFFFF

structure CTxIn where
  prevout : COutPoint
  scriptSig : List UInt8
  deriving DecidableEq

/-- What the coins view and the value checks read of a Sapling spend. -/
structure SpendDescription where
  anchor : Uint256
  nullifier : Uint256
  deriving DecidableEq

structure OutputDescription where
  cm : Uint256
  deriving DecidableEq

/-- Only the public values of a JoinSplit are still read. -/
structure JSDescription where
  vpubOld : Int
  vpubNew : Int
  deriving DecidableEq

/-- A transaction with its id. -/
structure CTransaction where
  hash : Uint256
  fOverwintered : Bool
  nVersion : Int
  nVersionGroupId : Nat
  vin : List CTxIn
  vout : List CTxOut
  nExpiryHeight : Nat
  valueBalance : Int
  vShieldedSpend : List SpendDescription
  vShieldedOutput : List OutputDescription
  vjoinsplit : List JSDescription
  deriving DecidableEq

def MAX_SCRIPT_SIZE : Nat := 10000

/-- `IsUnspendable` of a script: provably so, or too long to be run. -/
def isUnspendable (script : List UInt8) : Bool :=
  script.head?==some 0x6a || decide (MAX_SCRIPT_SIZE<script.length)

def OVERWINTER_VERSION_GROUP_ID : Nat := 0x03C48270
def SAPLING_VERSION_GROUP_ID : Nat := 0x892F2085

def moneyRange (MAX_MONEY nValue : Int) : Bool := decide (0≤nValue ∧ nValue≤MAX_MONEY)

def getSizeOfCompactSize (nSize : Nat) : Nat :=
  if nSize<253 then 1 else if nSize≤0xFFFF then 3 else if nSize≤0xFFFFFFFF then 5 else 9

/-- The value that a 64-bit signed variable holds. -/
def toCAmount (x : Int) : Int := x.bmod (2^64)

/-- Amounts added up in a 64-bit variable. -/
def sumCAmount (amounts : List Int) : Int :=
  amounts.foldl (fun sum nValue => toCAmount (sum+nValue)) 0

theorem toCAmount_add_left (x y : Int) : toCAmount (toCAmount x+y)=toCAmount (x+y) :=
  Int.bmod_add_bmod

theorem toCAmount_of_bounds {x : Int} (h0 : 0≤x) (h : x<2^63) : toCAmount x=x := by
  unfold toCAmount
  rw [Int.bmod_eq_of_le] <;> omega

theorem toCAmount_le {x : Int} (h : 0≤x) : toCAmount x≤x := by
  rw [toCAmount,Int.bmod_def]
  split_ifs <;> omega

/-- The sum wraps as a whole. -/
theorem sumCAmount_eq (amounts : List Int) : sumCAmount amounts=toCAmount amounts.sum := by
  have hfrom : ∀sum,amounts.foldl (fun sum nValue => toCAmount (sum+nValue)) (toCAmount sum)=
      toCAmount (sum+amounts.sum) := by
    induction amounts with
    | nil =>
      intro sum
      rw [List.foldl_nil,List.sum_nil,add_zero]
    | cons nValue rest ih =>
      intro sum
      rw [List.foldl_cons,toCAmount_add_left,ih,List.sum_cons,add_assoc]
  have hzero := hfrom 0
  rwa [zero_add] at hzero

namespace CTransaction

/-- The marker `10e8` in the index of the spent output. -/
def importMarker : Nat := 1000000000

def isCoinBase (tx : CTransaction) : Bool :=
  match tx.vin with
  | [txin] => txin.prevout.isNull
  | _ => false

def isCoinImport (tx : CTransaction) : Bool :=
  match tx.vin with
  | [txin] => txin.prevout.n==importMarker
  | _ => false

/-- `pegscc` says that ASSETCHAINS_SELFIMPORT is PEGSCC. There the source reads the first input
without a test that there is one; here a transaction without inputs is no import. -/
def isPegsImport (pegscc : Bool) (tx : CTransaction) : Bool :=
  match tx.vin with
  | [] => false
  | txin::_ => pegscc && txin.prevout.n==importMarker

def isMint (tx : CTransaction) : Bool := tx.isCoinImport || tx.isCoinBase

def isOverwinterV3 (tx : CTransaction) : Bool :=
  tx.fOverwintered && tx.nVersionGroupId==OVERWINTER_VERSION_GROUP_ID && tx.nVersion==3

def isSaplingV4 (tx : CTransaction) : Bool :=
  tx.fOverwintered && tx.nVersionGroupId==SAPLING_VERSION_GROUP_ID && tx.nVersion==4

/-- A vector with its length in front. -/
def vectorSize {α : Type} (size : α → Nat) (v : List α) : Nat :=
  getSizeOfCompactSize v.length+(v.map size).sum

/-- `GetSerializeSize`: a Sapling spend takes 384 bytes, an output 948, and a
JoinSplit 1698 or 1802 with the older proof. -/
def serializeSize (tx : CTransaction) : Nat :=
  4+(if tx.fOverwintered then 4 else 0)+
  vectorSize (fun txin => 36+vectorSize (fun _ => 1) txin.scriptSig+4) tx.vin+
  vectorSize (fun out => 8+vectorSize (fun _ => 1) out.scriptPubKey) tx.vout+4+
  (if tx.isOverwinterV3 || tx.isSaplingV4 then 4 else 0)+
  (if tx.isSaplingV4 then
    8+vectorSize (fun _ => 384) tx.vShieldedSpend+vectorSize (fun _ => 948) tx.vShieldedOutput
  else 0)+
  (if 2≤tx.nVersion then
    vectorSize (fun _ => if tx.fOverwintered ∧ 4≤tx.nVersion then 1698 else 1802) tx.vjoinsplit+
      (if tx.vjoinsplit=[] then 0 else 96)
  else 0)+
  (if tx.isSaplingV4 && !(tx.vShieldedSpend.isEmpty && tx.vShieldedOutput.isEmpty) then 64 else 0)

/-- Adds amounts one by one; `none` is the exception for a value or a sum that is
out of range. -/
def sumInRange (MAX_MONEY : Int) : List Int → Int → Option Int
  | [],sum => some sum
  | nValue::rest,sum =>
      if moneyRange MAX_MONEY nValue && moneyRange MAX_MONEY (sum+nValue) then
        sumInRange MAX_MONEY rest (sum+nValue)
      else none

/-- Outputs, then a negative value balance, then `vpub_old` of the JoinSplits. -/
def getValueOut (MAX_MONEY : Int) (tx : CTransaction) : Option Int :=
  sumInRange MAX_MONEY (tx.vout.map CTxOut.nValue++
    (if tx.valueBalance≤0 then [-tx.valueBalance] else [])++
    tx.vjoinsplit.map JSDescription.vpubOld) 0

/-- A positive value balance, then `vpub_new` of the JoinSplits. -/
def getShieldedValueIn (MAX_MONEY : Int) (tx : CTransaction) : Option Int :=
  sumInRange MAX_MONEY ((if 0≤tx.valueBalance then [tx.valueBalance] else [])++
    tx.vjoinsplit.map JSDescription.vpubNew) 0

theorem sumInRange_eq {MAX_MONEY : Int} {l : List Int} {a s : Int}
    (h : sumInRange MAX_MONEY l a=some s) : s=a+l.sum := by
  induction l generalizing a with
  | nil =>
    obtain rfl := Option.some.inj h
    simp
  | cons x l ih =>
    rw [sumInRange] at h
    split_ifs at h
    rw [ih h,List.sum_cons]
    ring

theorem sumInRange_mem {MAX_MONEY : Int} {l : List Int} {a s : Int}
    (h : sumInRange MAX_MONEY l a=some s) : ∀x∈l,0≤x ∧ x≤MAX_MONEY := by
  induction l generalizing a with
  | nil => simp
  | cons x l ih =>
    rw [sumInRange] at h
    split_ifs at h with hx
    rw [Bool.and_eq_true] at hx
    intro y hy
    rcases List.mem_cons.mp hy with rfl | hy
    · simpa [moneyRange] using hx.1
    · exact ih h y hy

/-- A sum that started in range ends in range. -/
theorem sumInRange_le {MAX_MONEY : Int} {l : List Int} {a s : Int} (ha : 0≤a ∧ a≤MAX_MONEY)
    (h : sumInRange MAX_MONEY l a=some s) : 0 ≤ s ∧ s≤MAX_MONEY := by
  induction l generalizing a with
  | nil =>
    obtain rfl := Option.some.inj h
    exact ha
  | cons x l ih =>
    rw [sumInRange] at h
    split_ifs at h with hx
    rw [Bool.and_eq_true] at hx
    exact ih (by simpa [moneyRange] using hx.2) h

/-- Outputs are amounts and a part of the value out. -/
theorem sum_vout_le_valueOut {MAX_MONEY valueOut : Int} {tx : CTransaction}
    (h : tx.getValueOut MAX_MONEY=some valueOut) :
    (∀o∈tx.vout,0 ≤ o.nValue) ∧ (tx.vout.map CTxOut.nValue).sum ≤ valueOut := by
  have hmem := sumInRange_mem h
  have hsum := sumInRange_eq h
  rw [List.append_assoc,List.sum_append,zero_add] at hsum
  have hrest : 0 ≤ ((if tx.valueBalance≤0 then [-tx.valueBalance] else [])++
      tx.vjoinsplit.map JSDescription.vpubOld).sum := by
    apply List.sum_nonneg
    intro x hx
    apply (hmem x ?_).1
    rw [List.append_assoc]
    exact List.mem_append_right _ hx
  refine ⟨?_,by omega⟩
  intro o ho
  apply (hmem o.nValue ?_).1
  rw [List.append_assoc]
  exact List.mem_append_left _ (List.mem_map_of_mem ho)

theorem length_le_vectorSize {α : Type} (size : α → Nat) (v : List α) (h : ∀a∈v,1 ≤ size a) :
    v.length≤vectorSize size v := by
  have hsum : v.length≤(v.map size).sum := by
    induction v with
    | nil => simp
    | cons a v ih =>
      have ha := h a (by simp)
      have hv := ih (fun b hb => h b (by simp [hb]))
      simp only [List.length_cons,List.map_cons,List.sum_cons]
      omega
  unfold vectorSize
  omega

theorem length_vin_le (tx : CTransaction) : tx.vin.length≤tx.serializeSize := by
  have hvin := length_le_vectorSize (fun txin : CTxIn =>
    36+vectorSize (fun _ => 1) txin.scriptSig+4) tx.vin (fun _ _ => by omega)
  unfold serializeSize
  omega

theorem isCoinBase_singleton {tx : CTransaction} (h : tx.isCoinBase=true) :
    ∃txin,tx.vin=[txin] ∧ txin.prevout.isNull=true := by
  unfold isCoinBase at h
  split at h
  · exact ⟨_,‹_›,h⟩
  · cases h

/-- A coinbase does not have the marker of an import. -/
theorem not_isPegsImport_of_isMint (tx : CTransaction) {pegscc : Bool}
    (himport : tx.isCoinImport=false) (hmint : tx.isMint=true) : tx.isPegsImport pegscc=false := by
  have hcb : tx.isCoinBase=true := by simpa [isMint,himport] using hmint
  obtain ⟨txin,hvin,hnull⟩ := isCoinBase_singleton hcb
  simp only [isCoinImport,hvin] at himport
  simp only [isPegsImport,hvin,himport,Bool.and_false]

end CTransaction

end Zdeex.Block
