import Mathlib.Algebra.Order.BigOperators.Group.List
import Zdeex.Cc.FillPrice

namespace Zdeex.Cc.BurnedTokens

open Zdeex.Coins
open Zdeex.Block
open Zdeex.Crosschain

section Definitions

variable (W : World)

/-- The scripts of the forms of a burned output. -/
def burnScripts (evalCodes : UInt8 × UInt8) : List (List UInt8) :=
  W.ccPubKey (makeCCcond1 EVAL_TOKENS W.burnPk)::
    W.ccPubKey (makeTokensCCcond1 evalCodes.1 evalCodes.2 W.burnPk)::
      if evalCodes.2≠0 then [W.ccPubKey (makeTokensCCcond1 evalCodes.2 evalCodes.1 W.burnPk)]
      else []

/-- The codes of the outputs of a token transaction; without a token op_return there are none. -/
def burnCodes (tx : CTransaction) (reftokenid : Uint256) : Option (UInt8 × UInt8) :=
  (decodeTokenOpRet W.strayPk (lastScript tx)).map fun r =>
    World.tokenEvalCodes (W.getNonfungibleData reftokenid) (filterOutNonCCOprets r.oprets)

/-- An output under a token condition for the burn key. -/
def IsBurned (scripts : List (List UInt8)) (out : CTxOut) : Prop :=
  isPayToCryptoCondition out.scriptPubKey=true ∧ out.scriptPubKey∈scripts

instance (scripts : List (List UInt8)) (out : CTxOut) : Decidable (IsBurned scripts out) :=
  inferInstanceAs (Decidable (_ ∧ _))

/-- The burned amount, with each output counted once. -/
def burnedAmount (scripts : List (List UInt8)) (outs : List CTxOut) : Int :=
  ((outs.filter fun out => IsBurned scripts out).map CTxOut.nValue).sum

def burnedOnce (tx : CTransaction) (reftokenid : Uint256) : Int :=
  (burnCodes W tx reftokenid).elim 0 fun evalCodes =>
    burnedAmount (burnScripts W evalCodes) tx.vout

/-- Every burned output of some value has a single form, and no condition output before it has
the same value. -/
def SingleForms (scripts : List (List UInt8)) (outs : List CTxOut) : Prop :=
  ∀before out after,outs=before++out::after → IsBurned scripts out → out.nValue≠0 →
    scripts.count out.scriptPubKey=1 ∧
      ∀o∈before,isPayToCryptoCondition o.scriptPubKey=true → o.nValue≠out.nValue

end Definitions

section Counting

variable {W : World} {scripts : List (List UInt8)}

/-- The forms of an output of an amount. -/
def formsOf (scripts : List (List UInt8)) (nValue : Int) : List CTxOut :=
  scripts.map fun script => ⟨nValue,script⟩

theorem burnVouts_eq (evalCodes : UInt8 × UInt8) (nValue : Int) :
    W.burnVouts evalCodes.1 evalCodes.2 nValue=formsOf (burnScripts W evalCodes) nValue := by
  unfold World.burnVouts World.threeEvalVouts World.voutIf formsOf burnScripts
  by_cases h : evalCodes.2=0 <;> simp [h,World.makeCC1vout,World.makeTokensCC1vout]

theorem count_formsOf (nValue : Int) (out : CTxOut) :
    (formsOf scripts nValue).count out=
      if nValue=out.nValue then scripts.count out.scriptPubKey else 0 := by
  obtain ⟨value,script⟩ := out
  induction scripts with
  | nil => simp [formsOf]
  | cons s rest ih =>
    unfold formsOf at ih ⊢
    rw [List.map_cons,List.count_cons,List.count_cons,ih]
    by_cases hvalue : nValue=value
    · simp [hvalue]
    · simp [hvalue]

/-- The forms that were collected for the outputs with these values. -/
theorem count_collected (seen : List Int) (out : CTxOut) :
    (seen.flatMap (formsOf scripts)).count out=
      seen.count out.nValue*scripts.count out.scriptPubKey := by
  induction seen with
  | nil => simp
  | cons nValue rest ih =>
    rw [List.flatMap_cons,List.count_append,ih,count_formsOf,List.count_cons]
    by_cases hvalue : nValue=out.nValue
    · simp [hvalue,Nat.add_mul,Nat.add_comm]
    · simp [hvalue]

/-- What the loop counts besides the amount of each output, after condition outputs with these
values. -/
def again (scripts : List (List UInt8)) : List Int → List CTxOut → Int
  | _,[] => 0
  | seen,out::rest =>
      if isPayToCryptoCondition out.scriptPubKey then
        let times := (seen++[out.nValue]).count out.nValue*scripts.count out.scriptPubKey
        (times-1 : Nat)*out.nValue+again scripts (seen++[out.nValue]) rest
      else again scripts seen rest

theorem burnedAmount_cons (out : CTxOut) (rest : List CTxOut) :
    burnedAmount scripts (out::rest)=
      (if IsBurned scripts out then out.nValue else 0)+burnedAmount scripts rest := by
  unfold burnedAmount
  by_cases h : IsBurned scripts out
  · simp [h]
  · simp [h]

theorem burnedLoop_eq (evalCodes : UInt8 × UInt8) (outs : List CTxOut) (seen : List Int)
    (amount : Int) :
    W.burnedLoop evalCodes.1 evalCodes.2 outs
        (seen.flatMap (formsOf (burnScripts W evalCodes))) (toCAmount amount)=
      toCAmount (amount+burnedAmount (burnScripts W evalCodes) outs+
        again (burnScripts W evalCodes) seen outs) := by
  induction outs generalizing seen amount with
  | nil => simp [World.burnedLoop,burnedAmount,again]
  | cons out rest ih =>
    rw [World.burnedLoop,again,burnedAmount_cons]
    by_cases hcc : isPayToCryptoCondition out.scriptPubKey=true
    · rw [if_pos hcc,if_pos hcc]
      dsimp only
      have hcollected : seen.flatMap (formsOf (burnScripts W evalCodes))++
          W.burnVouts evalCodes.1 evalCodes.2 out.nValue=
          (seen++[out.nValue]).flatMap (formsOf (burnScripts W evalCodes)) := by
        rw [burnVouts_eq,List.flatMap_append,List.flatMap_singleton]
      rw [hcollected,toCAmount_add_left,ih,count_collected]
      congr 1
      have hseen : 0<(seen++[out.nValue]).count out.nValue :=
        List.count_pos_iff.mpr (List.mem_append_right _ (List.mem_singleton_self _))
      by_cases hmem : out.scriptPubKey∈burnScripts W evalCodes
      · have htimes : 0<(seen++[out.nValue]).count out.nValue*
            (burnScripts W evalCodes).count out.scriptPubKey :=
          Nat.mul_pos hseen (List.count_pos_iff.mpr hmem)
        rw [if_pos ⟨hcc,hmem⟩]
        generalize (seen++[out.nValue]).count out.nValue*
          (burnScripts W evalCodes).count out.scriptPubKey=times at *
        rw [Int.natCast_sub htimes,Int.sub_mul]
        omega
      · rw [if_neg fun h => hmem h.2,List.count_eq_zero_of_not_mem hmem]
        simp
    · rw [if_neg hcc,if_neg hcc,if_neg fun h => hcc h.1,ih,zero_add]

theorem hasBurnedTokensvouts_eq (tx : CTransaction) (reftokenid : Uint256) :
    W.hasBurnedTokensvouts tx reftokenid=toCAmount (burnedOnce W tx reftokenid+
      (burnCodes W tx reftokenid).elim 0 fun evalCodes =>
        again (burnScripts W evalCodes) [] tx.vout) := by
  unfold World.hasBurnedTokensvouts burnedOnce burnCodes
  cases decodeTokenOpRet W.strayPk (lastScript tx) with
  | none => rfl
  | some r =>
    simp only [Option.map_some,Option.elim_some]
    have h := burnedLoop_eq (W := W) (World.tokenEvalCodes (W.getNonfungibleData reftokenid)
      (filterOutNonCCOprets r.oprets)) tx.vout [] 0
    rw [List.flatMap_nil,zero_add] at h
    exact h

end Counting

section Exactness

variable {scripts : List (List UInt8)}

theorem again_nonneg {outs : List CTxOut} (h : ∀out∈outs,0≤out.nValue) (seen : List Int) :
    0≤again scripts seen outs := by
  induction outs generalizing seen with
  | nil => exact le_refl _
  | cons out rest ih =>
    rw [List.forall_mem_cons] at h
    rw [again]
    split_ifs with hcc
    · exact Int.add_nonneg (Int.mul_nonneg (Int.natCast_nonneg _) h.1) (ih h.2 _)
    · exact ih h.2 _

/-- The values of the condition outputs. -/
def conditionValues (outs : List CTxOut) : List Int :=
  (outs.filter fun out => isPayToCryptoCondition out.scriptPubKey).map CTxOut.nValue

/-- The condition for the outputs after some others. -/
def SingleAfter (scripts : List (List UInt8)) (seen : List Int) (outs : List CTxOut) : Prop :=
  ∀before out after,outs=before++out::after → IsBurned scripts out → out.nValue≠0 →
    scripts.count out.scriptPubKey=1 ∧ out.nValue∉seen++conditionValues before

theorem singleAfter_cons {seen : List Int} {out : CTxOut} {rest : List CTxOut} :
    SingleAfter scripts seen (out::rest) ↔
      (IsBurned scripts out → out.nValue≠0 →
        scripts.count out.scriptPubKey=1 ∧ out.nValue∉seen) ∧
      SingleAfter scripts (seen++conditionValues [out]) rest := by
  constructor
  · intro h
    refine ⟨fun hburned hvalue => ?_,fun before o after hsplit hburned hvalue => ?_⟩
    · have hfirst := h [] out rest rfl hburned hvalue
      rwa [conditionValues,List.filter_nil,List.map_nil,List.append_nil] at hfirst
    · have hlater := h (out::before) o after (by rw [hsplit]; rfl) hburned hvalue
      rw [List.append_assoc,conditionValues,conditionValues,← List.map_append,
        ← List.filter_append]
      exact hlater
  · rintro ⟨hfirst,hrest⟩ before o after hsplit hburned hvalue
    cases before with
    | nil =>
      obtain ⟨rfl,-⟩ := List.cons.inj hsplit
      rw [conditionValues,List.filter_nil,List.map_nil,List.append_nil]
      exact hfirst hburned hvalue
    | cons b before =>
      obtain ⟨rfl,htail⟩ := List.cons.inj hsplit
      have hlater := hrest before o after htail hburned hvalue
      rw [List.append_assoc,conditionValues,conditionValues,← List.map_append,
        ← List.filter_append] at hlater
      exact hlater

theorem singleForms_iff {outs : List CTxOut} :
    SingleForms scripts outs ↔ SingleAfter scripts [] outs := by
  unfold SingleForms SingleAfter conditionValues
  simp [and_imp]

/-- An output adds its amount once when it has a single form and no equal amount was seen. -/
theorem counted_single {seen : List Int} {out : CTxOut}
    (hcc : isPayToCryptoCondition out.scriptPubKey=true) :
    (((seen++[out.nValue]).count out.nValue*scripts.count out.scriptPubKey-1 : Nat) : Int)*
        out.nValue=0 ↔
      (IsBurned scripts out → out.nValue≠0 →
        scripts.count out.scriptPubKey=1 ∧ out.nValue∉seen) := by
  rw [Int.mul_eq_zero,Int.natCast_eq_zero,List.count_append,List.count_singleton_self,
    ← List.count_eq_zero]
  unfold IsBurned
  rw [← List.count_pos_iff]
  generalize seen.count out.nValue=earlier
  generalize scripts.count out.scriptPubKey=forms
  constructor
  · rintro (hone | hzero) ⟨-,hforms⟩ hvalue
    · have hle : (earlier+1)*forms≤1 := by omega
      have hforms_le : forms≤(earlier+1)*forms := Nat.le_mul_of_pos_left forms (Nat.succ_pos _)
      obtain rfl : forms=1 := by omega
      exact ⟨rfl,by omega⟩
    · exact absurd hzero hvalue
  · intro himp
    by_cases hvalue : out.nValue=0
    · exact .inr hvalue
    · left
      rcases Nat.eq_zero_or_pos forms with hnone | hforms
      · rw [hnone,Nat.mul_zero]
      · obtain ⟨hone,hearlier⟩ := himp ⟨hcc,hforms⟩ hvalue
        rw [hone,hearlier]

/-- Nothing is counted again exactly when every burned output of some value is a single one. -/
theorem again_eq_zero_iff {outs : List CTxOut} (h : ∀out∈outs,0≤out.nValue) (seen : List Int) :
    again scripts seen outs=0 ↔ SingleAfter scripts seen outs := by
  induction outs generalizing seen with
  | nil =>
    refine iff_of_true rfl fun before out after hsplit => ?_
    have hlength := congrArg List.length hsplit
    simp at hlength
  | cons out rest ih =>
    rw [List.forall_mem_cons] at h
    rw [singleAfter_cons,again]
    by_cases hcc : isPayToCryptoCondition out.scriptPubKey=true
    · have hvalues : conditionValues [out]=[out.nValue] := by simp [conditionValues,hcc]
      rw [if_pos hcc,hvalues,← ih h.2]
      have hrest := @again_nonneg scripts _ h.2 (seen++[out.nValue])
      dsimp only
      rw [← counted_single hcc]
      have hfirst : 0≤(((seen++[out.nValue]).count out.nValue*
          scripts.count out.scriptPubKey-1 : Nat) : Int)*out.nValue :=
        Int.mul_nonneg (Int.natCast_nonneg _) h.1
      omega
    · have hvalues : conditionValues [out]=[] := by simp [conditionValues,hcc]
      rw [if_neg hcc,hvalues,List.append_nil,ih h.2]
      exact ⟨fun hrest => ⟨fun hburned => absurd hburned.1 hcc,hrest⟩,And.right⟩

/-- Counted once, the burned outputs are a part of all outputs. -/
theorem burnedOnce_bounds (W : World) (tx : CTransaction) (reftokenid : Uint256)
    (h : ∀out∈tx.vout,0≤out.nValue) :
    0≤burnedOnce W tx reftokenid ∧
      burnedOnce W tx reftokenid≤(tx.vout.map CTxOut.nValue).sum := by
  have hnonneg : ∀outs : List CTxOut,(∀out∈outs,0≤out.nValue) →
      0≤(outs.map CTxOut.nValue).sum := by
    intro outs houts
    apply List.sum_nonneg
    intro x hx
    obtain ⟨out,hout,rfl⟩ := List.mem_map.mp hx
    exact houts out hout
  unfold burnedOnce
  cases burnCodes W tx reftokenid with
  | none => exact ⟨le_refl _,hnonneg _ h⟩
  | some evalCodes =>
    rw [Option.elim_some]
    constructor
    · exact hnonneg _ fun out hout => h out (List.mem_of_mem_filter hout)
    · apply List.Sublist.sum_le_sum (List.filter_sublist.map CTxOut.nValue)
      intro x hx
      obtain ⟨out,hout,rfl⟩ := List.mem_map.mp hx
      exact h out hout

/-- A 64-bit amount with something added is the same exactly when whole turns were added. -/
theorem toCAmount_add_eq_iff {x y : Int} (h0 : 0≤x) (h : x<2^63) :
    toCAmount (x+y)=x ↔ (2^64 : Int)∣y := by
  unfold toCAmount
  rw [Int.bmod_def]
  split_ifs <;> omega

/-- For the amounts of a transaction that passed its checks, the burned amount is exact exactly
when every burned output of some value has a single form and no condition output before it has its
value, or what is counted again wraps around to nothing. -/
theorem burned_once_iff (W : World) (tx : CTransaction) (reftokenid : Uint256)
    (h : ∀out∈tx.vout,0≤out.nValue) (htotal : (tx.vout.map CTxOut.nValue).sum<2^63) :
    W.hasBurnedTokensvouts tx reftokenid=burnedOnce W tx reftokenid ↔
      ∀evalCodes∈burnCodes W tx reftokenid,SingleForms (burnScripts W evalCodes) tx.vout ∨
        (0<again (burnScripts W evalCodes) [] tx.vout ∧
          (2^64 : Int)∣again (burnScripts W evalCodes) [] tx.vout) := by
  obtain ⟨hnonneg,hle⟩ := burnedOnce_bounds W tx reftokenid h
  rw [hasBurnedTokensvouts_eq,toCAmount_add_eq_iff hnonneg (hle.trans_lt htotal)]
  cases burnCodes W tx reftokenid with
  | none => exact iff_of_true (Int.dvd_zero _) fun evalCodes hcodes => by cases hcodes
  | some evalCodes =>
    rw [Option.elim_some]
    have hagain := @again_nonneg (burnScripts W evalCodes) _ h []
    have hsingle : again (burnScripts W evalCodes) [] tx.vout=0 ↔
        SingleForms (burnScripts W evalCodes) tx.vout :=
      (again_eq_zero_iff h []).trans singleForms_iff.symm
    constructor
    · intro hturns evalCodes' hcodes
      obtain rfl := Option.some.inj hcodes
      rcases hagain.lt_or_eq with hpos | hzero
      · exact .inr ⟨hpos,hturns⟩
      · exact .inl (hsingle.mp hzero.symm)
    · intro hall
      rcases hall evalCodes rfl with hforms | ⟨-,hturns⟩
      · rw [hsingle.mpr hforms]
        exact Int.dvd_zero _
      · exact hturns

/-- Without additional data the dual form is the single one: everything burned is counted
twice. -/
theorem plain_token_forms (script : List UInt8) (W : World) :
    (burnScripts W (EVAL_TOKENS,0)).count script≠1 := by
  have hsame : W.ccPubKey (makeTokensCCcond1 EVAL_TOKENS 0 W.burnPk)=
      W.ccPubKey (makeCCcond1 EVAL_TOKENS W.burnPk) := rfl
  simp only [burnScripts,hsame,ne_eq,not_true_eq_false,if_false,List.count_cons,List.count_nil]
  split_ifs <;> omega

end Exactness

section Transactions

/-- A burn of a hundred tokens without data. -/
def plainBurn : CTransaction :=
  plainTx 30 [] [⟨100,[2,0xf2,0xde,0xcc]⟩,⟨0,transferScript 9⟩]

/-- A burn of tokens of the asset contract. -/
def assetBurn : CTransaction :=
  plainTx 31 [] [⟨100,[3,0xe3,0xf2,0xde,0xcc]⟩,⟨0,World.assetScript 'x' 5 (World.keyOf 7)⟩]

def burnWorld : World := World.ofKeys fun _ => none

theorem plain_burn_counted_twice :
    burnWorld.hasBurnedTokensvouts plainBurn 9=200 ∧ burnedOnce burnWorld plainBurn 9=100 := by
  decide +kernel

theorem asset_burn_counted_once :
    burnWorld.hasBurnedTokensvouts assetBurn 9=burnedOnce burnWorld assetBurn 9 := by
  refine (burned_once_iff burnWorld assetBurn 9 ?_ (by decide)).mpr ?_
  · intro out hout
    simp only [assetBurn,plainTx,List.mem_cons,List.not_mem_nil,or_false] at hout
    rcases hout with rfl | rfl <;> decide
  · have hcodes : burnCodes burnWorld assetBurn 9=some (0xe3,0) := by decide +kernel
    intro evalCodes hmem
    rw [hcodes] at hmem
    obtain rfl := Option.some.inj hmem
    rw [singleForms_iff]
    left
    refine (again_eq_zero_iff ?_ []).mp ?_
    · intro out hout
      simp only [assetBurn,plainTx,List.mem_cons,List.not_mem_nil,or_false] at hout
      rcases hout with rfl | rfl <;> decide
    · decide +kernel

end Transactions

end Zdeex.Cc.BurnedTokens
