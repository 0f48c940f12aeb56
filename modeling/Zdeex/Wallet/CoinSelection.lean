import Mathlib.Algebra.BigOperators.Group.List.Basic
import Mathlib.Algebra.Order.BigOperators.Group.List
import Mathlib.Data.List.GetD
import Mathlib.Data.List.Nodup
import Zdeex.Framework.OrderedMap
import Zdeex.Wallet.MapWallet

namespace Zdeex.Wallet.CoinSelection

open Zdeex.Block
open Zdeex.Framework

section Coins

def CENT : Int := 1000000

def INT64_MAX : Int := 2^63-1

/-- An output with what `IsMine` says about its script. -/
structure CTxOut where
  nValue : Int
  mine : IsMineType
  deriving DecidableEq,Repr

/-- A wallet transaction with what the chain and its inputs say about it. -/
structure CWalletTx where
  hash : Uint256
  vout : List CTxOut
  isFinal : Bool
  isTrusted : Bool
  isCoinBase : Bool
  blocksToMaturity : Int
  depth : Int
  isFromMe : Bool
  deriving DecidableEq,Repr

/-- `pair<const CWalletTx*, unsigned int>` -/
structure Coin where
  tx : CWalletTx
  i : Nat
  deriving DecidableEq,Repr

def Coin.nValue (c : Coin) : Int := ((c.tx.vout[c.i]?).map CTxOut.nValue).getD 0

structure COutput where
  coin : Coin
  nDepth : Int
  fSpendable : Bool
  deriving DecidableEq,Repr

/-- A standard algorithm that changes the order only. -/
structure Rearrangement (T : Type) where
  apply : List T → List T
  perm : ∀l,(apply l).Perm l

/-- `sort(rbegin, rend, CompareValueOnly())`: descending, equal values in any order. -/
structure ValueSort extends Rearrangement (Int × Coin) where
  sorted : ∀l,(apply l).Pairwise fun a b => b.1≤a.1

end Coins

section BestSubset

/-- The best selection so far. -/
structure Best where
  vfBest : List Bool
  nBest : Int
  deriving DecidableEq,Repr

/-- The state of one repetition. -/
structure Repetition where
  nTotal : Int
  vfIncluded : List Bool
  fReachedTarget : Bool
  best : Best
  deriving DecidableEq,Repr

variable (vValue : List (Int × Coin)) (nTargetValue : Int)

/-- A coin is added, and taken out again when the target is reached. -/
def includeCoin (r : Repetition) (i : Nat) : Repetition :=
  let nTotal := r.nTotal+(vValue.map Prod.fst).getD i 0
  let vfIncluded := r.vfIncluded.set i true
  if nTargetValue≤nTotal then
    {r with
      fReachedTarget := true
      best := if nTotal < r.best.nBest then ⟨vfIncluded,nTotal⟩ else r.best
      vfIncluded := vfIncluded.set i false}
  else {r with nTotal := nTotal,vfIncluded := vfIncluded}

/-- The first pass follows the random bits. -/
def firstPass (bits : Nat → Bool) (r : Repetition) (i : Nat) : Repetition :=
  if bits i=true then includeCoin vValue nTargetValue r i else r

/-- The second pass tries what is not included. -/
def secondPass (r : Repetition) (i : Nat) : Repetition :=
  if r.vfIncluded.getD i false=false then includeCoin vValue nTargetValue r i else r

def repetition (bits : Nat → Bool) (best : Best) : Best :=
  let r := (List.range vValue.length).foldl (firstPass vValue nTargetValue bits)
    ⟨0,List.replicate vValue.length false,false,best⟩
  if r.fReachedTarget=true then r.best
  else ((List.range vValue.length).foldl (secondPass vValue nTargetValue) r).best

/-- The repetitions that are left. -/
def repetitions (bits : Nat → Nat → Bool) : Nat → Nat → Best → Best
  | 0,_,best => best
  | left+1,nRep,best =>
    if best.nBest=nTargetValue then best
    else repetitions bits left (nRep+1) (repetition vValue nTargetValue (bits nRep) best)

def approximateBestSubset (bits : Nat → Nat → Bool) (nTotalLower : Int) : Best :=
  repetitions vValue nTargetValue bits 1000 0 ⟨List.replicate vValue.length true,nTotalLower⟩

end BestSubset

section MinConf

/-- The coins below the target, and the smallest one of those far above it. -/
structure Lower where
  vValue : List (Int × Coin)
  nTotalLower : Int
  coinLowestLarger : Option (Int × Coin)
  deriving DecidableEq,Repr

def Lower.lowest (s : Lower) : Int := (s.coinLowestLarger.map Prod.fst).getD INT64_MAX

variable (nTargetValue nConfMine nConfTheirs : Int)

def eligible (out : COutput) : Bool :=
  out.fSpendable && decide ((if out.coin.tx.isFromMe then nConfMine else nConfTheirs)≤out.nDepth)

/-- The loop over the coins, which ends at an exact match. -/
def scanCoins : List COutput → Lower → (Int × Coin) ⊕ Lower
  | [],s => .inr s
  | out::rest,s =>
    if eligible nConfMine nConfTheirs out=false then scanCoins rest s
    else
      let n := out.coin.nValue
      if n=nTargetValue then .inl (n,out.coin)
      else if n<nTargetValue+CENT then
        let t := {s with vValue := s.vValue++[(n,out.coin)],nTotalLower := s.nTotalLower+n}
        if toCAmount (4*nTargetValue+CENT)<t.nTotalLower then .inr t else scanCoins rest t
      else if n<s.lowest then scanCoins rest {s with coinLowestLarger := some (n,out.coin)}
      else scanCoins rest s

/-- `setCoinsRet` and `nValueRet` -/
structure Selection where
  setCoinsRet : List Coin
  nValueRet : Int
  deriving DecidableEq,Repr

def Selection.empty : Selection := ⟨[],0⟩

/-- Inserted into the set, with the value added. -/
def Selection.insert (s : Selection) (c : Int × Coin) : Selection :=
  ⟨if c.2∈s.setCoinsRet then s.setCoinsRet else s.setCoinsRet++[c.2],s.nValueRet+c.1⟩

/-- The random choices of one call. -/
structure Randomness where
  shuffle : Rearrangement COutput
  bits : Nat → Nat → Bool
  bitsCent : Nat → Nat → Bool

def subsetOf (sort : ValueSort) (rand : Randomness) (s : Lower) : List (Int × Coin) × Best :=
  let vValue := sort.apply s.vValue
  let best := approximateBestSubset vValue nTargetValue rand.bits s.nTotalLower
  (vValue,
    if best.nBest≠nTargetValue ∧ nTargetValue+CENT ≤ s.nTotalLower then
      approximateBestSubset vValue (nTargetValue+CENT) rand.bitsCent s.nTotalLower
    else best)

/-- The coins with a flag. -/
def flagged (vValue : List (Int × Coin)) (vfBest : List Bool) : List (Int × Coin) :=
  ((vValue.zip vfBest).filter Prod.snd).map Prod.fst

def selectCoinsMinConf (sort : ValueSort) (rand : Randomness) (vCoins : List COutput) :
    Bool × Selection :=
  match scanCoins nTargetValue nConfMine nConfTheirs (rand.shuffle.apply vCoins) ⟨[],0,none⟩ with
  | .inl coin => (true,Selection.empty.insert coin)
  | .inr s =>
    if s.nTotalLower=nTargetValue then (true,s.vValue.foldl Selection.insert .empty)
    else if s.nTotalLower<nTargetValue then
      match s.coinLowestLarger with
      | none => (false,.empty)
      | some coin => (true,Selection.empty.insert coin)
    else
      let r := subsetOf nTargetValue sort rand s
      match s.coinLowestLarger with
      | some coin =>
        if (r.2.nBest≠nTargetValue ∧ r.2.nBest<nTargetValue+CENT) ∨ coin.1 ≤ r.2.nBest then
          (true,Selection.empty.insert coin)
        else (true,(flagged r.1 r.2.vfBest).foldl Selection.insert .empty)
      | none => (true,(flagged r.1 r.2.vfBest).foldl Selection.insert .empty)

end MinConf

section SelectCoins

/-- The selected outputs are a set. -/
structure CCoinControl where
  fAllowOtherInputs : Bool
  setSelected : List COutPoint
  nodup : setSelected.Nodup

def CCoinControl.hasSelected (c : CCoinControl) : Bool := !c.setSelected.isEmpty

/-- The wallet; `interest` is the field of that name of each output, wherever it was set. -/
structure CWallet where
  mapWallet : List CWalletTx
  nodup : (mapWallet.map CWalletTx.hash).Nodup
  isSpent : COutPoint → Bool
  setLockedCoins : COutPoint → Bool
  interest : COutPoint → Int
  bSpendZeroConfChange : Bool
  fCoinbaseMustBeProtected : Bool

def hasSelected (coinControl : Option CCoinControl) : Bool :=
  (coinControl.map CCoinControl.hasSelected).getD false

/-- The test of an output in `AvailableCoins`. -/
def availableOutput (w : CWallet) (coinControl : Option CCoinControl) (fIncludeZeroValue : Bool)
    (tx : CWalletTx) (i : Nat) : Bool :=
  match tx.vout[i]? with
  | none => false
  | some out =>
    !w.isSpent ⟨tx.hash,i⟩ && out.mine != .no && !w.setLockedCoins ⟨tx.hash,i⟩ &&
      (decide (0<out.nValue) || fIncludeZeroValue) &&
      coinControl.all fun c => !c.hasSelected || c.setSelected.contains ⟨tx.hash,i⟩

def availableTx (fOnlyConfirmed fIncludeCoinBase : Bool) (tx : CWalletTx) : Bool :=
  tx.isFinal && (!fOnlyConfirmed || tx.isTrusted) && (!tx.isCoinBase || fIncludeCoinBase) &&
    (!tx.isCoinBase || decide (tx.blocksToMaturity≤0)) && decide (0≤tx.depth)

/-- The outputs that are listed. -/
def availableCoins (w : CWallet) (fOnlyConfirmed : Bool) (coinControl : Option CCoinControl)
    (fIncludeZeroValue fIncludeCoinBase : Bool) : List COutput :=
  (w.mapWallet.filter (availableTx fOnlyConfirmed fIncludeCoinBase)).flatMap fun tx =>
    ((List.range tx.vout.length).filter (availableOutput w coinControl fIncludeZeroValue tx)).map
      fun i => ⟨⟨tx,i⟩,tx.depth,((tx.vout[i]?).map CTxOut.mine).getD .no == .spendable⟩

/-- `AvailableCoins` sets the interest of what it lists to zero. -/
def clearInterest (vCoins : List COutput) (interest : COutPoint → Int) (out : COutPoint) : Int :=
  if vCoins.any fun c => c.coin.tx.hash == out.hash && c.coin.i == out.n then 0 else interest out

def Coin.outpoint (c : Coin) : COutPoint := ⟨c.tx.hash,c.i⟩

/-- The value of the outputs that can be spent, with interest. -/
def spendableValue (interest : COutPoint → Int) (vCoins : List COutput) : Int :=
  ((vCoins.filter COutput.fSpendable).map fun out =>
    out.coin.nValue+interest out.coin.outpoint).sum

/-- The preset inputs with their value; none if one of them is no output in the wallet. -/
def presetInputs (w : CWallet) (interest : COutPoint → Int) :
    List COutPoint → Option (List (Int × Coin))
  | [] => some []
  | outpoint::rest =>
    match w.mapWallet.find? fun tx => tx.hash == outpoint.hash with
    | none => none
    | some tx =>
      if tx.vout.length≤outpoint.n then none
      else (presetInputs w interest rest).map fun presets =>
        (Coin.nValue ⟨tx,outpoint.n⟩+interest outpoint,⟨tx,outpoint.n⟩)::presets

structure SelectResult where
  retval : Bool
  selection : Selection
  fOnlyCoinbaseCoinsRet : Bool
  fNeedCoinbaseCoinsRet : Bool
  deriving DecidableEq,Repr

/-- The two lists and the interest after they are made. -/
structure Listed where
  vCoinsNoCoinbase : List COutput
  vCoinsWithCoinbase : List COutput
  interest : COutPoint → Int

def listCoins (w : CWallet) (coinControl : Option CCoinControl) : Listed :=
  let vCoinsNoCoinbase := availableCoins w true coinControl false false
  let vCoinsWithCoinbase := availableCoins w true coinControl false true
  ⟨vCoinsNoCoinbase,vCoinsWithCoinbase,
    clearInterest vCoinsWithCoinbase (clearInterest vCoinsNoCoinbase w.interest)⟩

def Listed.vCoins (l : Listed) (w : CWallet) : List COutput :=
  if w.fCoinbaseMustBeProtected then l.vCoinsNoCoinbase else l.vCoinsWithCoinbase

/-- Whether the target needs coinbase outputs. -/
def needCoinbase (w : CWallet) (l : Listed) (nTargetValue : Int) (fNeed : Bool) : Bool :=
  if w.fCoinbaseMustBeProtected = true ∧
      l.vCoinsNoCoinbase.length < l.vCoinsWithCoinbase.length ∧
      spendableValue l.interest l.vCoinsNoCoinbase≤nTargetValue then
    decide (nTargetValue ≤ spendableValue l.interest l.vCoinsWithCoinbase)
  else fNeed

/-- The three attempts, each with its own random choices. -/
def attempts (w : CWallet) (sort : ValueSort) (rand : Nat → Randomness) (nTargetValue : Int)
    (vCoins : List COutput) : Bool × Selection :=
  let r := selectCoinsMinConf nTargetValue 1 6 sort (rand 0) vCoins
  if r.1 = true then r
  else
    let r := selectCoinsMinConf nTargetValue 1 1 sort (rand 1) vCoins
    if r.1 = true then r
    else if w.bSpendZeroConfChange = true then
      selectCoinsMinConf nTargetValue 0 1 sort (rand 2) vCoins
    else r

def selectCoins (w : CWallet) (sort : ValueSort) (rand : Nat → Randomness) (nTargetValue : Int)
    (ret : Selection) (fNeed : Bool) (coinControl : Option CCoinControl) : SelectResult :=
  let l := listCoins w coinControl
  let vCoins := l.vCoins w
  let fOnly := l.vCoinsNoCoinbase.isEmpty && !l.vCoinsWithCoinbase.isEmpty
  let need := needCoinbase w l nTargetValue fNeed
  if hasSelected coinControl=true ∧ coinControl.any (fun c => !c.fAllowOtherInputs)=true then
    let all := ((vCoins.filter COutput.fSpendable).map fun out =>
      (out.coin.nValue,out.coin)).foldl Selection.insert ret
    ⟨decide (nTargetValue≤all.nValueRet),all,fOnly,need⟩
  else
    match presetInputs w l.interest ((coinControl.map CCoinControl.setSelected).getD []) with
    | none => ⟨false,ret,fOnly,need⟩
    | some presets =>
      let nValueFromPresetInputs := toCAmount (presets.map Prod.fst).sum
      let others := if hasSelected coinControl=true then
          vCoins.filter fun out => !(presets.map Prod.snd).contains out.coin
        else vCoins
      let r := if nTargetValue≤nValueFromPresetInputs then (true,ret)
        else attempts w sort rand nTargetValue others
      let set := presets.foldl Selection.insert r.2
      ⟨r.1,⟨set.setCoinsRet,r.2.nValueRet+nValueFromPresetInputs⟩,fOnly,need⟩

end SelectCoins

section Subset

/-- The sum of the values with a flag. -/
def chosenValue : List Int → List Bool → Int
  | v::vs,f::fs => (if f=true then v else 0)+chosenValue vs fs
  | _,_ => 0

theorem chosenValue_set {vs : List Int} {fs : List Bool} {i : Nat} (hi : i < vs.length)
    (hlen : fs.length=vs.length) (hoff : fs.getD i false=false) :
    chosenValue vs (fs.set i true)=chosenValue vs fs+vs.getD i 0 := by
  induction vs generalizing fs i with
  | nil => simp at hi
  | cons v vs ih =>
    cases fs with
    | nil => simp at hlen
    | cons f fs =>
      cases i with
      | zero =>
        have hf : f=false := hoff
        simp only [List.set_cons_zero,chosenValue,hf,List.getD_cons_zero]
        simp
        omega
      | succ i =>
        have hrest := ih (by simpa using hi) (by simpa using hlen) (by simpa using hoff)
        simp only [List.set_cons_succ,chosenValue,hrest,List.getD_cons_succ]
        omega

theorem chosenValue_none (vs : List Int) :
    chosenValue vs (List.replicate vs.length false)=0 := by
  induction vs with
  | nil => rfl
  | cons v vs ih => simp [chosenValue,List.replicate_succ,ih]

theorem chosenValue_all (vs : List Int) :
    chosenValue vs (List.replicate vs.length true)=vs.sum := by
  induction vs with
  | nil => rfl
  | cons v vs ih => simp [chosenValue,List.replicate_succ,ih]

theorem sum_flagged (vValue : List (Int × Coin)) (vfBest : List Bool) :
    ((flagged vValue vfBest).map Prod.fst).sum=chosenValue (vValue.map Prod.fst) vfBest := by
  induction vValue generalizing vfBest with
  | nil => simp [flagged,chosenValue]
  | cons c cs ih =>
    cases vfBest with
    | nil => simp [flagged,chosenValue]
    | cons f fs =>
      have hrest := ih fs
      cases f with
      | false => simpa [flagged,chosenValue] using hrest
      | true => simpa [flagged,chosenValue] using hrest

theorem flagged_sublist (vValue : List (Int × Coin)) (vfBest : List Bool) :
    (flagged vValue vfBest).Sublist vValue := by
  induction vValue generalizing vfBest with
  | nil => simp [flagged]
  | cons c cs ih =>
    cases vfBest with
    | nil => simp [flagged]
    | cons f fs =>
      have hrest := ih fs
      cases f with
      | false => exact hrest.cons c
      | true => exact hrest.cons_cons c

variable {vValue : List (Int × Coin)} {nTargetValue : Int}

/-- The best selection is one, with its value, and reaches the target. -/
structure Reaching (vValue : List (Int × Coin)) (nTargetValue : Int) (best : Best) : Prop where
  length : best.vfBest.length=vValue.length
  nBest : best.nBest=chosenValue (vValue.map Prod.fst) best.vfBest
  enough : nTargetValue≤best.nBest

/-- The total of a repetition is the value of what it includes. -/
structure Counted (vValue : List (Int × Coin)) (nTargetValue : Int) (r : Repetition) : Prop where
  length : r.vfIncluded.length=vValue.length
  nTotal : r.nTotal=chosenValue (vValue.map Prod.fst) r.vfIncluded
  best : Reaching vValue nTargetValue r.best

theorem includeCoin_counted {r : Repetition} (h : Counted vValue nTargetValue r) {i : Nat}
    (hi : i < vValue.length) (hoff : r.vfIncluded.getD i false=false) :
    Counted vValue nTargetValue (includeCoin vValue nTargetValue r i) ∧
      ∀j,j≠i → (includeCoin vValue nTargetValue r i).vfIncluded.getD j false=
        r.vfIncluded.getD j false := by
  have hlen : r.vfIncluded.length=(vValue.map Prod.fst).length := by
    rw [List.length_map,h.length]
  have hvalue := chosenValue_set (by rwa [List.length_map]) hlen hoff
  have hset : ∀b j,j≠i → (r.vfIncluded.set i b).getD j false=r.vfIncluded.getD j false := by
    intro b j hj
    rw [List.getD_eq_getElem?_getD,List.getElem?_set_ne hj.symm,← List.getD_eq_getElem?_getD]
  have hback : (r.vfIncluded.set i true).set i false=r.vfIncluded := by
    rw [List.set_set]
    apply List.ext_getElem (by rw [List.length_set])
    intro j hj hj'
    by_cases hji : j=i
    · subst hji
      rw [List.getElem_set_self,← hoff,List.getD_eq_getElem _ _ hj']
    · rw [List.getElem_set_ne (Ne.symm hji)]
  unfold includeCoin
  dsimp only
  split_ifs with hreach hbetter
  · refine ⟨⟨?_,?_,?_,?_,?_⟩,fun j hj => ?_⟩
    · rw [hback]
      exact h.length
    · rw [hback]
      exact h.nTotal
    · rw [List.length_set]
      exact h.length
    · rw [hvalue,h.nTotal]
    · exact hreach
    · rw [hback]
  · refine ⟨⟨?_,?_,h.best⟩,fun j hj => ?_⟩
    · rw [hback]
      exact h.length
    · rw [hback]
      exact h.nTotal
    · rw [hback]
  · refine ⟨⟨?_,?_,h.best⟩,fun j hj => hset true j hj⟩
    · rw [List.length_set]
      exact h.length
    · rw [hvalue,h.nTotal]

/-- What lies ahead in the first pass is not included yet. -/
theorem firstPass_counted (bits : Nat → Bool) (m k : Nat) (hkm : k+m≤vValue.length)
    {r : Repetition} (h : Counted vValue nTargetValue r)
    (hahead : ∀j,k≤j → r.vfIncluded.getD j false=false) :
    Counted vValue nTargetValue
      ((List.range' k m).foldl (firstPass vValue nTargetValue bits) r) := by
  induction m generalizing k r with
  | zero => exact h
  | succ m ih =>
    rw [List.range'_succ,List.foldl_cons]
    unfold firstPass
    by_cases hbit : bits k=true
    · rw [if_pos hbit]
      obtain ⟨hcounted,hother⟩ := includeCoin_counted h (i := k) (by omega) (hahead k le_rfl)
      refine ih (k+1) (by omega) hcounted fun j hj => ?_
      rw [hother j (by omega)]
      exact hahead j (by omega)
    · rw [if_neg hbit]
      exact ih (k+1) (by omega) h fun j hj => hahead j (by omega)

theorem secondPass_counted (l : List Nat) (hl : ∀i∈l,i < vValue.length) {r : Repetition}
    (h : Counted vValue nTargetValue r) :
    Counted vValue nTargetValue (l.foldl (secondPass vValue nTargetValue) r) := by
  induction l generalizing r with
  | nil => exact h
  | cons i l ih =>
    rw [List.forall_mem_cons] at hl
    rw [List.foldl_cons]
    unfold secondPass
    by_cases hoff : r.vfIncluded.getD i false=false
    · rw [if_pos hoff]
      exact ih hl.2 (includeCoin_counted h hl.1 hoff).1
    · rw [if_neg hoff]
      exact ih hl.2 h

theorem repetition_reaching (bits : Nat → Bool) {best : Best}
    (h : Reaching vValue nTargetValue best) :
    Reaching vValue nTargetValue (repetition vValue nTargetValue bits best) := by
  have hstart : Counted vValue nTargetValue
      ⟨0,List.replicate vValue.length false,false,best⟩ := by
    refine ⟨List.length_replicate,?_,h⟩
    have hnone := chosenValue_none (vValue.map Prod.fst)
    rw [List.length_map] at hnone
    exact hnone.symm
  have hoff : ∀j,0≤j → (List.replicate vValue.length false).getD j false=false := by
    intro j _
    rw [List.getD_eq_getElem?_getD,List.getElem?_replicate]
    split_ifs <;> rfl
  have hfirst := firstPass_counted bits vValue.length 0 (by omega) hstart hoff
  rw [← List.range_eq_range'] at hfirst
  unfold repetition
  dsimp only
  split_ifs
  · exact hfirst.best
  · exact (secondPass_counted _ (fun i hi => List.mem_range.mp hi) hfirst).best

theorem repetitions_reaching (bits : Nat → Nat → Bool) (left nRep : Nat) {best : Best}
    (h : Reaching vValue nTargetValue best) :
    Reaching vValue nTargetValue (repetitions vValue nTargetValue bits left nRep best) := by
  induction left generalizing nRep best with
  | zero => exact h
  | succ left ih =>
    rw [repetitions]
    split_ifs
    · exact h
    · exact ih (nRep+1) (repetition_reaching (bits nRep) h)

theorem approximateBestSubset_reaching (bits : Nat → Nat → Bool) {nTotalLower : Int}
    (hsum : nTotalLower=(vValue.map Prod.fst).sum) (henough : nTargetValue≤nTotalLower) :
    Reaching vValue nTargetValue
      (approximateBestSubset vValue nTargetValue bits nTotalLower) := by
  apply repetitions_reaching
  refine ⟨List.length_replicate,?_,henough⟩
  have hall := chosenValue_all (vValue.map Prod.fst)
  rw [List.length_map] at hall
  exact hsum.trans hall.symm

end Subset

section Exactness

variable {nTargetValue nConfMine nConfTheirs : Int}

/-- The eligible coins with their values. -/
def entries (nConfMine nConfTheirs : Int) (l : List COutput) : List (Int × Coin) :=
  (l.filter (eligible nConfMine nConfTheirs)).map fun out => (out.coin.nValue,out.coin)

def eligibleValue (nConfMine nConfTheirs : Int) (l : List COutput) : Int :=
  ((l.filter (eligible nConfMine nConfTheirs)).map fun out => out.coin.nValue).sum

theorem sum_entries (l : List COutput) :
    ((entries nConfMine nConfTheirs l).map Prod.fst).sum=
      eligibleValue nConfMine nConfTheirs l := by
  rw [entries,eligibleValue,List.map_map]
  rfl

/-- What the loop over the coins leaves when it finds no exact match. -/
structure Scanned (nTargetValue nConfMine nConfTheirs : Int) (l : List COutput) (s t : Lower)
    (taken : List (Int × Coin)) : Prop where
  sublist : taken.Sublist (entries nConfMine nConfTheirs l)
  vValue : t.vValue=s.vValue++taken
  nTotalLower : t.nTotalLower=s.nTotalLower+(taken.map Prod.fst).sum
  larger : ∀c,t.coinLowestLarger=some c → s.coinLowestLarger=some c ∨
    c∈entries nConfMine nConfTheirs l ∧ nTargetValue+CENT ≤ c.1
  rest : nTargetValue<t.nTotalLower ∨ (t.coinLowestLarger=none →
    s.coinLowestLarger=none ∧ taken=entries nConfMine nConfTheirs l)

/-- How the loop over the coins ends: with an exact match, or with what it leaves. -/
def ScanEnds (nTargetValue nConfMine nConfTheirs : Int) (l : List COutput) (s : Lower)
    (r : (Int × Coin) ⊕ Lower) : Prop :=
  (∃c∈entries nConfMine nConfTheirs l,r=.inl c ∧ c.1=nTargetValue) ∨
    ∃t taken,r=.inr t ∧ Scanned nTargetValue nConfMine nConfTheirs l s t taken

theorem entries_skip {out : COutput} (l : List COutput)
    (h : eligible nConfMine nConfTheirs out=false) :
    entries nConfMine nConfTheirs (out::l)=entries nConfMine nConfTheirs l := by
  rw [entries,List.filter_cons_of_neg (by rw [h]; exact Bool.false_ne_true)]
  rfl

theorem entries_cons {out : COutput} (l : List COutput)
    (h : eligible nConfMine nConfTheirs out=true) :
    entries nConfMine nConfTheirs (out::l)=
      (out.coin.nValue,out.coin)::entries nConfMine nConfTheirs l := by
  rw [entries,List.filter_cons_of_pos h]
  rfl

section ScanStep

variable {out : COutput} {l : List COutput} {s s' : Lower} {r : (Int × Coin) ⊕ Lower}

/-- A coin that is not eligible changes nothing. -/
theorem ScanEnds.skip (heligible : eligible nConfMine nConfTheirs out=false)
    (h : ScanEnds nTargetValue nConfMine nConfTheirs l s r) :
    ScanEnds nTargetValue nConfMine nConfTheirs (out::l) s r := by
  have hskip := entries_skip l heligible
  rcases h with ⟨c,hc,hr⟩ | ⟨t,taken,hr,h⟩
  · exact Or.inl ⟨c,by rwa [hskip],hr⟩
  · refine Or.inr ⟨t,taken,hr,?_,h.vValue,h.nTotalLower,?_,?_⟩
    · rw [hskip]
      exact h.sublist
    · rw [hskip]
      exact h.larger
    · rw [hskip]
      exact h.rest

/-- A coin below the target is taken into the list. -/
theorem ScanEnds.take (heligible : eligible nConfMine nConfTheirs out=true)
    (h : ScanEnds nTargetValue nConfMine nConfTheirs l {s with
      vValue := s.vValue++[(out.coin.nValue,out.coin)]
      nTotalLower := s.nTotalLower+out.coin.nValue} r) :
    ScanEnds nTargetValue nConfMine nConfTheirs (out::l) s r := by
  have hcons := entries_cons l heligible
  rcases h with ⟨c,hc,hr⟩ | ⟨t,taken,hr,h⟩
  · exact Or.inl ⟨c,by rw [hcons]; exact List.mem_cons_of_mem _ hc,hr⟩
  · refine Or.inr ⟨t,(out.coin.nValue,out.coin)::taken,hr,?_,?_,?_,?_,?_⟩
    · rw [hcons]
      exact h.sublist.cons_cons _
    · rw [h.vValue,List.append_assoc]
      rfl
    · rw [h.nTotalLower,List.map_cons,List.sum_cons]
      dsimp only
      omega
    · intro c hc
      rcases h.larger c hc with hs | ⟨hmem,hge⟩
      · exact Or.inl hs
      · rw [hcons]
        exact Or.inr ⟨List.mem_cons_of_mem _ hmem,hge⟩
    · rcases h.rest with hover | hall
      · exact Or.inl hover
      · refine Or.inr fun hnone => ?_
        obtain ⟨hs,htaken⟩ := hall hnone
        exact ⟨hs,by rw [htaken,hcons]⟩

/-- The loop stops at a coin that makes the list large enough. -/
theorem scanEnds_full (heligible : eligible nConfMine nConfTheirs out=true)
    (hover : nTargetValue<s.nTotalLower+out.coin.nValue) :
    ScanEnds nTargetValue nConfMine nConfTheirs (out::l) s (.inr {s with
      vValue := s.vValue++[(out.coin.nValue,out.coin)]
      nTotalLower := s.nTotalLower+out.coin.nValue}) := by
  refine Or.inr ⟨_,[(out.coin.nValue,out.coin)],rfl,?_,rfl,?_,fun c hc => Or.inl hc,Or.inl hover⟩
  · rw [entries_cons l heligible]
    exact (List.nil_sublist _).cons_cons _
  · simp

/-- A coin far above the target may become the smallest of those. -/
theorem ScanEnds.larger (h : ScanEnds nTargetValue nConfMine nConfTheirs l s' r)
    (heligible : eligible nConfMine nConfTheirs out=true)
    (hlarge : nTargetValue+CENT ≤ out.coin.nValue)
    (hlarger : ∀c,s'.coinLowestLarger=some c →
      s.coinLowestLarger=some c ∨ c=(out.coin.nValue,out.coin))
    (hsome : s'.coinLowestLarger≠none) (hvalue : s'.vValue=s.vValue)
    (htotal : s'.nTotalLower=s.nTotalLower) :
    ScanEnds nTargetValue nConfMine nConfTheirs (out::l) s r := by
  have hcons := entries_cons l heligible
  rcases h with ⟨c,hc,hr⟩ | ⟨t,taken,hr,h⟩
  · exact Or.inl ⟨c,by rw [hcons]; exact List.mem_cons_of_mem _ hc,hr⟩
  · refine Or.inr ⟨t,taken,hr,?_,by rw [h.vValue,hvalue],by rw [h.nTotalLower,htotal],?_,?_⟩
    · rw [hcons]
      exact h.sublist.cons _
    · intro c hc
      rw [hcons]
      rcases h.larger c hc with hs | ⟨hmem,hge⟩
      · rcases hlarger c hs with hs | rfl
        · exact Or.inl hs
        · exact Or.inr ⟨List.mem_cons_self,hlarge⟩
      · exact Or.inr ⟨List.mem_cons_of_mem _ hmem,hge⟩
    · rcases h.rest with hover | hall
      · exact Or.inl hover
      · exact Or.inr fun hnone => absurd (hall hnone).1 hsome

end ScanStep

/-- The sum at which the loop stops does not wrap. -/
theorem target_le_stop (htarget : 0<nTargetValue) (hbound : nTargetValue+CENT<2^61) :
    nTargetValue≤toCAmount (4*nTargetValue+CENT) := by
  unfold CENT at hbound ⊢
  rw [toCAmount,Int.bmod_def]
  split_ifs <;> omega

theorem scanCoins_spec (htarget : 0<nTargetValue) (hbound : nTargetValue+CENT<2^61)
    (l : List COutput) (hlt : ∀out∈l,out.coin.nValue<INT64_MAX) (s : Lower) :
    ScanEnds nTargetValue nConfMine nConfTheirs l s
      (scanCoins nTargetValue nConfMine nConfTheirs l s) := by
  have hstop := target_le_stop htarget hbound
  induction l generalizing s with
  | nil =>
    refine Or.inr
      ⟨s,[],rfl,List.Sublist.slnil,(List.append_nil _).symm,(Int.add_zero _).symm,?_,?_⟩
    · exact fun c hc => Or.inl hc
    · exact Or.inr fun hnone => ⟨hnone,rfl⟩
  | cons out l ih =>
    rw [List.forall_mem_cons] at hlt
    have hrest := ih hlt.2
    rw [scanCoins]
    by_cases heligible : eligible nConfMine nConfTheirs out=false
    · rw [if_pos heligible]
      exact (hrest s).skip heligible
    · have htrue : eligible nConfMine nConfTheirs out=true := by simpa using heligible
      rw [if_neg heligible]
      dsimp only
      split_ifs with hexact hsmall hdone hlowest
      · exact Or.inl ⟨(out.coin.nValue,out.coin),by
          rw [entries_cons l htrue]
          exact List.mem_cons_self,rfl,hexact⟩
      · exact scanEnds_full htrue (hstop.trans_lt hdone)
      · exact (hrest _).take htrue
      · have hscan := hrest {s with coinLowestLarger := some (out.coin.nValue,out.coin)}
        exact hscan.larger htrue (not_lt.mp hsmall)
          (fun c hc => Or.inr (Option.some.inj hc).symm) (by simp) rfl rfl
      · have hsome : s.coinLowestLarger≠none := by
          intro hnone
          rw [Lower.lowest,hnone] at hlowest
          exact hlowest hlt.1
        exact (hrest s).larger htrue (not_lt.mp hsmall) (fun c hc => Or.inl hc) hsome rfl rfl

/-- A call answers exactly, and what it selects is right. -/
structure Exact (nTargetValue nConfMine nConfTheirs : Int) (vCoins : List COutput)
    (r : Bool × Selection) : Prop where
  complete : r.1=true ↔ nTargetValue≤eligibleValue nConfMine nConfTheirs vCoins
  value : r.1=true → r.2.nValueRet=(r.2.setCoinsRet.map Coin.nValue).sum
  nodup : r.1=true → r.2.setCoinsRet.Nodup
  eligible : r.1=true → ∀c∈r.2.setCoinsRet,
    ∃out∈vCoins,eligible nConfMine nConfTheirs out=true ∧ out.coin=c
  enough : r.1=true → nTargetValue ≤ r.2.nValueRet

theorem insert_all (cs : List (Int × Coin)) (s : Selection)
    (hnodup : (s.setCoinsRet++cs.map Prod.snd).Nodup) :
    cs.foldl Selection.insert s=
      ⟨s.setCoinsRet++cs.map Prod.snd,s.nValueRet+(cs.map Prod.fst).sum⟩ := by
  induction cs generalizing s with
  | nil => simp
  | cons c cs ih =>
    have hfresh : c.2∉s.setCoinsRet := by
      intro hmem
      rw [List.map_cons] at hnodup
      exact List.disjoint_of_nodup_append hnodup hmem List.mem_cons_self
    have hinsert : s.insert c=⟨s.setCoinsRet++[c.2],s.nValueRet+c.1⟩ := by
      rw [Selection.insert,if_neg hfresh]
    rw [List.foldl_cons,hinsert,ih _ (by simpa using hnodup)]
    simp [Int.add_assoc]

theorem mem_entries {l : List COutput} {c : Int × Coin}
    (h : c∈entries nConfMine nConfTheirs l) :
    ∃out∈l,eligible nConfMine nConfTheirs out=true ∧ c=(out.coin.nValue,out.coin) := by
  obtain ⟨out,hout,rfl⟩ := List.mem_map.mp h
  obtain ⟨hmem,heligible⟩ := List.mem_filter.mp hout
  exact ⟨out,hmem,heligible,rfl⟩

/-- The lists of coins that are selected from: no output twice, no negative value. -/
structure Listable (vCoins : List COutput) : Prop where
  nodup : (vCoins.map COutput.coin).Nodup
  nonneg : ∀out∈vCoins,0≤out.coin.nValue

theorem Listable.entries_nodup {l : List COutput} (h : Listable l) :
    ((entries nConfMine nConfTheirs l).map Prod.snd).Nodup := by
  rw [entries,List.map_map]
  exact h.nodup.sublist (List.filter_sublist.map _)

theorem Listable.perm {l k : List COutput} (h : Listable l) (hperm : k.Perm l) : Listable k :=
  ⟨(hperm.map _).nodup_iff.mpr h.nodup,fun out hout => h.nonneg out (hperm.mem_iff.mp hout)⟩

/-- Some of the eligible coins that reach the target are a right answer. -/
theorem exact_of_subperm {l : List COutput} (h : Listable l) {cs : List (Int × Coin)}
    (hsub : cs.Subperm (entries nConfMine nConfTheirs l))
    (henough : nTargetValue≤(cs.map Prod.fst).sum) :
    Exact nTargetValue nConfMine nConfTheirs l (true,cs.foldl Selection.insert .empty) := by
  have hnodup : (cs.map Prod.snd).Nodup := by
    obtain ⟨ks,hperm,hsublist⟩ := hsub
    rw [← (hperm.map _).nodup_iff]
    exact h.entries_nodup.sublist (hsublist.map _)
  have hall := insert_all cs .empty (by simpa [Selection.empty] using hnodup)
  have hsum : (cs.map Prod.fst).sum≤eligibleValue nConfMine nConfTheirs l := by
    obtain ⟨ks,hperm,hsublist⟩ := hsub
    rw [← sum_entries,← (hperm.map _).sum_eq]
    apply (hsublist.map _).sum_le_sum
    intro v hv
    obtain ⟨c,hc,rfl⟩ := List.mem_map.mp hv
    obtain ⟨out,hout,-,rfl⟩ := mem_entries hc
    exact h.nonneg out hout
  have hvalue : ∀c∈cs,c.1=c.2.nValue := by
    intro c hc
    obtain ⟨out,-,-,rfl⟩ := mem_entries (hsub.subset hc)
    rfl
  simp only [Selection.empty,List.nil_append,Int.zero_add] at hall
  refine ⟨⟨fun _ => henough.trans hsum,fun _ => rfl⟩,fun _ => ?_,fun _ => ?_,fun _ c hc => ?_,
    fun _ => ?_⟩
  · rw [Selection.empty,hall,List.map_map]
    exact congrArg List.sum (List.map_congr_left hvalue)
  · rw [Selection.empty,hall]
    exact hnodup
  · rw [Selection.empty,hall] at hc
    obtain ⟨e,he,rfl⟩ := List.mem_map.mp hc
    obtain ⟨out,hout,heligible,rfl⟩ := mem_entries (hsub.subset he)
    exact ⟨out,hout,heligible,rfl⟩
  · rw [Selection.empty,hall]
    exact henough

theorem exact_of_mem {l : List COutput} (h : Listable l) {c : Int × Coin}
    (hc : c∈entries nConfMine nConfTheirs l) (henough : nTargetValue ≤ c.1) :
    Exact nTargetValue nConfMine nConfTheirs l (true,Selection.empty.insert c) := by
  have hsub : [c].Subperm (entries nConfMine nConfTheirs l) :=
    List.singleton_subperm_iff.mpr hc
  exact exact_of_subperm h hsub (by simpa using henough)

theorem subsetOf_spec (sort : ValueSort) (rand : Randomness) {s : Lower}
    (htotal : s.nTotalLower=(s.vValue.map Prod.fst).sum) (henough : nTargetValue ≤ s.nTotalLower) :
    (subsetOf nTargetValue sort rand s).1.Perm s.vValue ∧
      Reaching (subsetOf nTargetValue sort rand s).1 nTargetValue
        (subsetOf nTargetValue sort rand s).2 := by
  have hperm := sort.perm s.vValue
  have hsum : s.nTotalLower=((sort.apply s.vValue).map Prod.fst).sum :=
    htotal.trans (hperm.map _).sum_eq.symm
  refine ⟨hperm,?_⟩
  unfold subsetOf
  dsimp only
  split_ifs with hagain
  · have hcent := approximateBestSubset_reaching rand.bitsCent hsum hagain.2
    have hle : nTargetValue≤nTargetValue+CENT := by
      unfold CENT
      omega
    exact ⟨hcent.length,hcent.nBest,hle.trans hcent.enough⟩
  · exact approximateBestSubset_reaching rand.bits hsum henough

theorem selectCoinsMinConf_exact (htarget : 0<nTargetValue)
    (hbound : nTargetValue+CENT<2^61) (sort : ValueSort)
    (rand : Randomness) {vCoins : List COutput} (h : Listable vCoins)
    (hlt : ∀out∈vCoins,out.coin.nValue<INT64_MAX) :
    Exact nTargetValue nConfMine nConfTheirs vCoins
      (selectCoinsMinConf nTargetValue nConfMine nConfTheirs sort rand vCoins) := by
  have hperm := rand.shuffle.perm vCoins
  have hentries : (entries nConfMine nConfTheirs (rand.shuffle.apply vCoins)).Perm
      (entries nConfMine nConfTheirs vCoins) := (hperm.filter _).map _
  unfold selectCoinsMinConf
  rcases scanCoins_spec htarget hbound (rand.shuffle.apply vCoins)
      (fun out hout => hlt out (hperm.mem_iff.mp hout)) ⟨[],0,none⟩ with
    ⟨c,hc,hscan,hexact⟩ | ⟨s,taken,hscan,hs⟩
  · rw [hscan]
    exact exact_of_mem h (hentries.mem_iff.mp hc) hexact.ge
  · have htaken : s.vValue=taken := hs.vValue
    have htotal : s.nTotalLower=(s.vValue.map Prod.fst).sum := by
      rw [htaken,hs.nTotalLower]
      exact Int.zero_add _
    have hsub : s.vValue.Subperm (entries nConfMine nConfTheirs vCoins) := by
      rw [htaken]
      exact hs.sublist.subperm.trans hentries.subperm
    have hlarger : ∀c,s.coinLowestLarger=some c →
        c∈entries nConfMine nConfTheirs vCoins ∧ nTargetValue ≤ c.1 := by
      intro c hc
      rcases hs.larger c hc with hno | ⟨hmem,hge⟩
      · cases hno
      · unfold CENT at hge
        exact ⟨hentries.mem_iff.mp hmem,by omega⟩
    rw [hscan]
    dsimp only
    split_ifs with heq hless
    · exact exact_of_subperm h hsub (by rw [← htotal]; exact heq.ge)
    · rcases hlowest : s.coinLowestLarger with - | c
      · have hno : ¬nTargetValue≤eligibleValue nConfMine nConfTheirs vCoins := by
          rcases hs.rest with hover | hall
          · omega
          · have hsum : eligibleValue nConfMine nConfTheirs vCoins=s.nTotalLower := by
              rw [htotal,htaken,(hall hlowest).2,(hentries.map _).sum_eq,sum_entries]
            omega
        refine ⟨⟨fun hfalse => absurd hfalse Bool.false_ne_true,fun hle => absurd hle hno⟩,
          fun hfalse => absurd hfalse Bool.false_ne_true,
          fun hfalse => absurd hfalse Bool.false_ne_true,
          fun hfalse => absurd hfalse Bool.false_ne_true,
          fun hfalse => absurd hfalse Bool.false_ne_true⟩
      · obtain ⟨hmem,hge⟩ := hlarger c hlowest
        exact exact_of_mem h hmem hge
    · have hle : nTargetValue ≤ s.nTotalLower := by omega
      obtain ⟨hsorted,hreach⟩ := subsetOf_spec sort rand htotal hle
      have hsubset : Exact nTargetValue nConfMine nConfTheirs vCoins
          (true,(flagged (subsetOf nTargetValue sort rand s).1
            (subsetOf nTargetValue sort rand s).2.vfBest).foldl Selection.insert .empty) := by
        apply exact_of_subperm h
        · exact (flagged_sublist _ _).subperm.trans (hsorted.subperm.trans hsub)
        · rw [sum_flagged,← hreach.nBest]
          exact hreach.enough
      rcases hlowest : s.coinLowestLarger with - | c
      · exact hsubset
      · obtain ⟨hmem,hge⟩ := hlarger c hlowest
        dsimp only
        split_ifs
        · exact exact_of_mem h hmem hge
        · exact hsubset

end Exactness

section Available

variable {w : CWallet}

theorem availableCoins_mem {fOnlyConfirmed fIncludeZeroValue fIncludeCoinBase : Bool}
    {coinControl : Option CCoinControl} {out : COutput}
    (h : out∈availableCoins w fOnlyConfirmed coinControl fIncludeZeroValue fIncludeCoinBase) :
    out.coin.tx∈w.mapWallet ∧
      availableOutput w coinControl fIncludeZeroValue out.coin.tx out.coin.i=true := by
  obtain ⟨tx,htx,hout⟩ := List.mem_flatMap.mp h
  obtain ⟨i,hi,rfl⟩ := List.mem_map.mp hout
  exact ⟨(List.mem_filter.mp htx).1,(List.mem_filter.mp hi).2⟩

theorem availableOutput_value {coinControl : Option CCoinControl} {tx : CWalletTx} {i : Nat}
    (h : availableOutput w coinControl false tx i=true) : 0<Coin.nValue ⟨tx,i⟩ := by
  unfold availableOutput at h
  rw [Coin.nValue]
  cases hout : tx.vout[i]? with
  | none =>
    rw [hout] at h
    cases h
  | some out =>
    rw [hout] at h
    simp only [Bool.and_eq_true,Bool.or_false,decide_eq_true_iff] at h
    exact h.1.2

theorem availableOutput_selected {coinControl : CCoinControl} {fIncludeZeroValue : Bool}
    {tx : CWalletTx} {i : Nat} (hselected : coinControl.hasSelected=true)
    (h : availableOutput w (some coinControl) fIncludeZeroValue tx i=true) :
    ⟨tx.hash,i⟩∈coinControl.setSelected := by
  unfold availableOutput at h
  cases hout : tx.vout[i]? with
  | none =>
    rw [hout] at h
    cases h
  | some out =>
    rw [hout] at h
    simp only [Bool.and_eq_true,Option.all_some,hselected,Bool.not_true,Bool.false_or] at h
    exact List.contains_iff_mem.mp h.2

theorem availableCoins_listable (w : CWallet) (coinControl : Option CCoinControl)
    (fOnlyConfirmed fIncludeCoinBase : Bool) :
    Listable (availableCoins w fOnlyConfirmed coinControl false fIncludeCoinBase) := by
  constructor
  · rw [availableCoins,List.map_flatMap,List.nodup_flatMap]
    constructor
    · intro tx _
      rw [List.map_map]
      apply List.Nodup.map_on
      · intro i _ j _ hij
        exact congrArg Coin.i hij
      · exact List.nodup_range.filter _
    · have hdistinct : w.mapWallet.Nodup := w.nodup.of_map _
      refine (hdistinct.filter _).imp fun {tx tx'} hne => ?_
      intro c hc hc'
      obtain ⟨out,hout,rfl⟩ := List.mem_map.mp hc
      obtain ⟨out',hout',hsame⟩ := List.mem_map.mp hc'
      obtain ⟨i,-,rfl⟩ := List.mem_map.mp hout
      obtain ⟨j,-,rfl⟩ := List.mem_map.mp hout'
      exact hne (congrArg Coin.tx hsame).symm
  · intro out hout
    exact (availableOutput_value (availableCoins_mem hout).2).le

theorem listable_filter {l : List COutput} (h : Listable l) (p : COutput → Bool) :
    Listable (l.filter p) :=
  ⟨h.nodup.sublist (List.filter_sublist.map _),
    fun out hout => h.nonneg out (List.mem_filter.mp hout).1⟩

theorem eligibleValue_nonneg {l : List COutput} (h : Listable l) (nConfMine nConfTheirs : Int) :
    0≤eligibleValue nConfMine nConfTheirs l := by
  apply List.sum_nonneg
  intro v hv
  obtain ⟨out,hout,rfl⟩ := List.mem_map.mp hv
  exact h.nonneg out (List.mem_filter.mp hout).1

/-- A weaker rule makes more coins eligible. -/
theorem eligibleValue_mono {l : List COutput} (h : Listable l) {m t m' t' : Int} (hm : m' ≤ m)
    (ht : t'≤t) : eligibleValue m t l≤eligibleValue m' t' l := by
  have hsub : (l.filter (eligible m t)).Sublist (l.filter (eligible m' t')) := by
    apply List.monotone_filter_right
    intro out hout
    simp only [eligible,Bool.and_eq_true,decide_eq_true_iff] at hout ⊢
    refine ⟨hout.1,le_trans ?_ hout.2⟩
    split_ifs
    · exact hm
    · exact ht
  apply (hsub.map _).sum_le_sum
  intro v hv
  obtain ⟨out,hout,rfl⟩ := List.mem_map.mp hv
  exact h.nonneg out (List.mem_filter.mp hout).1

theorem attempts_iff {nTargetValue : Int} (htarget : 0<nTargetValue)
    (hbound : nTargetValue+CENT<2^61) (sort : ValueSort)
    (rand : Nat → Randomness) {vCoins : List COutput} (h : Listable vCoins)
    (hlt : ∀out∈vCoins,out.coin.nValue<INT64_MAX) :
    (attempts w sort rand nTargetValue vCoins).1=true ↔
      nTargetValue≤eligibleValue (if w.bSpendZeroConfChange=true then 0 else 1) 1 vCoins := by
  have hexact : ∀m t k,(selectCoinsMinConf nTargetValue m t sort (rand k) vCoins).1=true ↔
      nTargetValue≤eligibleValue m t vCoins := fun m t k =>
    (selectCoinsMinConf_exact htarget hbound sort (rand k) h hlt).complete
  have hsix := eligibleValue_mono h (le_refl (1 : Int)) (by decide : (1 : Int)≤6)
  have hzero := eligibleValue_mono h (by decide : (0 : Int)≤1) (le_refl (1 : Int))
  unfold attempts
  dsimp only
  split_ifs with hfirst hchange hsecond hchange' hchange''
  · rw [hexact] at hfirst ⊢
    exact ⟨fun _ => by omega,fun _ => hfirst⟩
  · rw [hexact] at hfirst ⊢
    exact ⟨fun _ => by omega,fun _ => hfirst⟩
  · rw [hexact] at hsecond ⊢
    exact ⟨fun _ => by omega,fun _ => hsecond⟩
  · exact hexact 1 1 1
  · exact hexact 0 1 2
  · exact hexact 1 1 1

theorem presetInputs_mem {interest : COutPoint → Int} {l : List COutPoint}
    {presets : List (Int × Coin)} (h : presetInputs w interest l=some presets) {tx : CWalletTx}
    (htx : tx∈w.mapWallet) {i : Nat} (hi : ⟨tx.hash,i⟩∈l) : ⟨tx,i⟩∈presets.map Prod.snd := by
  induction l generalizing presets with
  | nil => cases hi
  | cons o l ih =>
    rw [presetInputs] at h
    cases hfind : w.mapWallet.find? fun t => t.hash == o.hash with
    | none =>
      rw [hfind] at h
      cases h
    | some t =>
      rw [hfind] at h
      dsimp only at h
      split_ifs at h with hout
      obtain ⟨rest,hrest,rfl⟩ := Option.map_eq_some_iff.mp h
      rcases List.mem_cons.mp hi with rfl | hi
      · rw [OrderedMap.find_key CWalletTx.hash w.nodup htx] at hfind
        obtain rfl := Option.some.inj hfind
        exact List.mem_cons_self
      · exact List.mem_cons_of_mem _ (ih hrest hi)

end Available

section Presets

variable {w : CWallet} {nTargetValue : Int} {control : CCoinControl}

/-- The preset inputs with the values that `SelectCoins` adds up. -/
def presetsOf (w : CWallet) (control : CCoinControl) : Option (List (Int × Coin)) :=
  presetInputs w (listCoins w (some control)).interest control.setSelected

/-- The value of the other coins of the wallet that the weakest rule admits. -/
def othersValue (w : CWallet) (presets : List (Int × Coin)) : Int :=
  eligibleValue (if w.bSpendZeroConfChange=true then 0 else 1) 1
    (((listCoins w none).vCoins w).filter fun out => !(presets.map Prod.snd).contains out.coin)

/-- Preset inputs and other coins reach the target. -/
def Reaches (w : CWallet) (control : CCoinControl) (nTargetValue : Int) : Prop :=
  ∃presets,presetsOf w control=some presets ∧
    nTargetValue≤(presets.map Prod.fst).sum+othersValue w presets

theorem vCoins_listable (w : CWallet) (coinControl : Option CCoinControl) :
    Listable ((listCoins w coinControl).vCoins w) := by
  unfold Listed.vCoins
  split_ifs
  · exact availableCoins_listable w coinControl true false
  · exact availableCoins_listable w coinControl true true

theorem vCoins_mem {coinControl : Option CCoinControl} {out : COutput}
    (h : out∈(listCoins w coinControl).vCoins w) : out.coin.tx∈w.mapWallet ∧
      availableOutput w coinControl false out.coin.tx out.coin.i=true := by
  unfold Listed.vCoins at h
  split_ifs at h
  · exact availableCoins_mem h
  · exact availableCoins_mem h

theorem othersValue_nonneg (w : CWallet) (presets : List (Int × Coin)) :
    0≤othersValue w presets :=
  eligibleValue_nonneg (listable_filter (vCoins_listable w none) _) _ _

/-- With a selection only the preset inputs count. -/
theorem selectCoins_selected (htarget : 0<nTargetValue) (hbound : nTargetValue+CENT<2^61)
    (hpreset : ∀presets,presetsOf w control=some presets → |(presets.map Prod.fst).sum|<2^61)
    (sort : ValueSort) (rand : Nat → Randomness) (ret : Selection) (fNeed : Bool)
    (hallow : control.fAllowOtherInputs=true) (hselected : control.setSelected≠[]) :
    (selectCoins w sort rand nTargetValue ret fNeed (some control)).retval=true ↔
      ∃presets,presetsOf w control=some presets ∧
        nTargetValue≤(presets.map Prod.fst).sum := by
  have hhas : control.hasSelected=true := by
    rw [CCoinControl.hasSelected,Bool.not_eq_true',List.isEmpty_eq_false_iff]
    exact hselected
  have hnone : ¬(hasSelected (some control)=true ∧
      (some control).any (fun c => !c.fAllowOtherInputs)=true) := by
    rintro ⟨-,hno⟩
    rw [Option.any_some,hallow] at hno
    cases hno
  unfold selectCoins presetsOf
  dsimp only
  rw [if_neg hnone]
  have hset : ((some control).map CCoinControl.setSelected).getD []=control.setSelected := rfl
  rw [hset]
  cases hpresets : presetInputs w (listCoins w (some control)).interest control.setSelected with
  | none =>
    constructor
    · exact fun hno => absurd hno Bool.false_ne_true
    · rintro ⟨presets,hno,-⟩
      cases hno
  | some presets =>
    have hothers : (((listCoins w (some control)).vCoins w).filter fun out =>
        !(presets.map Prod.snd).contains out.coin)=[] := by
      rw [List.filter_eq_nil_iff]
      intro out hout
      obtain ⟨htx,havailable⟩ := vCoins_mem hout
      have hmem := presetInputs_mem hpresets htx (availableOutput_selected hhas havailable)
      simpa using hmem
    have hempty : Listable [] := ⟨List.nodup_nil,fun out hout => absurd hout List.not_mem_nil⟩
    have hattempts := attempts_iff (w := w) htarget hbound sort rand hempty
      (fun out hout => absurd hout List.not_mem_nil)
    have hfalse : (attempts w sort rand nTargetValue []).1=false := by
      rw [Bool.eq_false_iff]
      intro hyes
      have hle : nTargetValue≤0 := hattempts.mp hyes
      omega
    have hsum : toCAmount (presets.map Prod.fst).sum=(presets.map Prod.fst).sum := by
      have hle := abs_lt.mp (hpreset presets hpresets)
      rw [toCAmount,Int.bmod_def]
      split_ifs <;> omega
    dsimp only
    rw [if_pos (show hasSelected (some control)=true from hhas),hothers,hsum]
    constructor
    · intro h
      refine ⟨presets,rfl,?_⟩
      by_contra hless
      rw [if_neg hless,hfalse] at h
      cases h
    · rintro ⟨presets',hsame,hle⟩
      obtain rfl := Option.some.inj hsame
      rw [if_pos hle]

/-- Without one the eligible coins of the wallet count. -/
theorem selectCoins_unselected (htarget : 0<nTargetValue) (hbound : nTargetValue+CENT<2^61)
    (sort : ValueSort) (rand : Nat → Randomness) (ret : Selection) (fNeed : Bool)
    (hselected : control.setSelected=[])
    (hlt : ∀out∈(listCoins w none).vCoins w,out.coin.nValue<INT64_MAX) :
    (selectCoins w sort rand nTargetValue ret fNeed (some control)).retval=true ↔
      Reaches w control nTargetValue := by
  have hhas : control.hasSelected=false := by
    rw [CCoinControl.hasSelected,hselected]
    rfl
  have hno : ¬hasSelected (some control)=true := by
    rw [hasSelected,Option.map_some,hhas]
    exact Bool.false_ne_true
  have houtput : availableOutput w (some control) false=availableOutput w none false := by
    funext tx i
    unfold availableOutput
    cases tx.vout[i]? with
    | none => rfl
    | some out => simp only [Option.all_some,hhas,Option.all_none,Bool.not_false,Bool.true_or]
  have hlist : (listCoins w (some control)).vCoins w=(listCoins w none).vCoins w := by
    unfold Listed.vCoins listCoins availableCoins
    dsimp only
    rw [houtput]
  have hpresets : presetsOf w control=some [] := by
    rw [presetsOf,hselected]
    rfl
  have hset : ((some control).map CCoinControl.setSelected).getD []=control.setSelected := rfl
  have hothers : othersValue w []=eligibleValue (if w.bSpendZeroConfChange=true then 0 else 1) 1
      ((listCoins w none).vCoins w) := by
    unfold othersValue
    rw [List.filter_eq_self.mpr]
    intro out _
    rfl
  have hzero : ¬nTargetValue≤toCAmount (([] : List (Int × Coin)).map Prod.fst).sum := by
    rw [List.map_nil,List.sum_nil]
    exact not_le.mpr htarget
  have hreaches : Reaches w control nTargetValue ↔ nTargetValue≤othersValue w [] := by
    constructor
    · rintro ⟨presets,hsome,hle⟩
      rw [hpresets] at hsome
      obtain rfl := Option.some.inj hsome
      rwa [List.map_nil,List.sum_nil,Int.zero_add] at hle
    · intro hle
      refine ⟨[],hpresets,?_⟩
      rwa [List.map_nil,List.sum_nil,Int.zero_add]
  rw [hreaches,hothers,← attempts_iff htarget hbound sort rand (vCoins_listable w none) hlt]
  unfold selectCoins
  dsimp only
  rw [if_neg (fun h => hno h.1),hset,hselected,presetInputs]
  dsimp only
  rw [if_neg hzero,if_neg hno,hlist]

end Presets

section Selection

variable {nTargetValue : Int}

theorem value_lt_of_sum {l : List COutput} (h : Listable l)
    (hsum : (l.map fun out => out.coin.nValue).sum<2^61) :
    ∀out∈l,out.coin.nValue<INT64_MAX := by
  intro out hout
  have hle : out.coin.nValue≤(l.map fun out => out.coin.nValue).sum := by
    apply List.single_le_sum
    · intro v hv
      obtain ⟨o,ho,rfl⟩ := List.mem_map.mp hv
      exact h.nonneg o ho
    · exact List.mem_map_of_mem hout
  unfold INT64_MAX
  omega

/-- The search alone is exact; preset inputs and other coins are not added up. -/
theorem coin_selection_iff (w : CWallet) (control : CCoinControl)
    (hallow : control.fAllowOtherInputs=true) (htarget : 0<nTargetValue)
    (hbound : nTargetValue+CENT<2^61)
    (hpreset : ∀presets,presetsOf w control=some presets → |(presets.map Prod.fst).sum|<2^61)
    (hsum : (((listCoins w none).vCoins w).map fun out => out.coin.nValue).sum<2^61)
    (sort : ValueSort) (rand : Nat → Randomness) (ret : Selection) (fNeed : Bool) :
    ((∀(nConfMine nConfTheirs : Int) (random : Randomness) (vCoins : List COutput),
        Listable vCoins → (vCoins.map fun out => out.coin.nValue).sum<2^61 →
        Exact nTargetValue nConfMine nConfTheirs vCoins
          (selectCoinsMinConf nTargetValue nConfMine nConfTheirs sort random vCoins)) ∧
      ((selectCoins w sort rand nTargetValue ret fNeed (some control)).retval=true ↔
        Reaches w control nTargetValue)) ↔
    (control.setSelected=[] ∨ ∀presets,presetsOf w control=some presets →
      nTargetValue≤(presets.map Prod.fst).sum ∨
        (presets.map Prod.fst).sum+othersValue w presets<nTargetValue) := by
  have hexact : ∀(nConfMine nConfTheirs : Int) (random : Randomness) (vCoins : List COutput),
      Listable vCoins → (vCoins.map fun out => out.coin.nValue).sum<2^61 →
      Exact nTargetValue nConfMine nConfTheirs vCoins
        (selectCoinsMinConf nTargetValue nConfMine nConfTheirs sort random vCoins) :=
    fun _ _ random vCoins h hlist =>
      selectCoinsMinConf_exact htarget hbound sort random h (value_lt_of_sum h hlist)
  rw [and_iff_right hexact]
  by_cases hselected : control.setSelected=[]
  · have hlt := value_lt_of_sum (vCoins_listable w none) hsum
    have hiff := selectCoins_unselected htarget hbound sort rand ret fNeed hselected hlt
    exact ⟨fun _ => Or.inl hselected,fun _ => hiff⟩
  · rw [selectCoins_selected htarget hbound hpreset sort rand ret fNeed hallow hselected]
    constructor
    · intro hiff
      right
      intro presets hpresets
      by_cases hle : nTargetValue≤(presets.map Prod.fst).sum
      · exact Or.inl hle
      · right
        by_contra hreach
        obtain ⟨presets',hsame,hle'⟩ := hiff.mpr ⟨presets,hpresets,by omega⟩
        rw [hpresets] at hsame
        obtain rfl := Option.some.inj hsame
        exact hle hle'
    · rintro (hno | hcond)
      · exact absurd hno hselected
      · constructor
        · rintro ⟨presets,hpresets,hle⟩
          have hothers := othersValue_nonneg w presets
          exact ⟨presets,hpresets,by omega⟩
        · rintro ⟨presets,hpresets,hle⟩
          rcases hcond presets hpresets with hpreset | hless
          · exact ⟨presets,hpresets,hpreset⟩
          · omega

/-- Outputs of five and six coins. -/
def twoOutputs : CWallet where
  mapWallet := [⟨1,[⟨500000000,.spendable⟩,⟨600000000,.spendable⟩],true,true,false,0,10,true⟩]
  nodup := by decide
  isSpent _ := false
  setLockedCoins _ := false
  interest _ := 0
  bSpendZeroConfChange := true
  fCoinbaseMustBeProtected := true

/-- The output of five coins is selected, others are allowed. -/
def selectFive : CCoinControl := ⟨true,[⟨1,0⟩],by decide⟩

def byValue : ValueSort where
  apply l := l.mergeSort fun a b => decide (b.1≤a.1)
  perm l := List.mergeSort_perm l _
  sorted l := by
    have htrans : ∀a b c : Int × Coin,decide (b.1≤a.1)=true → decide (c.1≤b.1)=true →
        decide (c.1≤a.1)=true := by
      simp only [decide_eq_true_iff]
      exact fun a b c hab hbc => le_trans hbc hab
    have htotal : ∀a b : Int × Coin,(decide (b.1≤a.1) || decide (a.1≤b.1))=true := by
      simp only [Bool.or_eq_true,decide_eq_true_iff]
      exact fun a b => le_total b.1 a.1
    exact (List.pairwise_mergeSort htrans htotal l).imp of_decide_eq_true

def unshuffled : Randomness where
  shuffle := ⟨fun l => l,fun _ => List.Perm.refl _⟩
  bits _ _ := true
  bitsCent _ _ := true

/-- Ten coins are refused where eleven are there. -/
theorem ten_coins_refused :
    ¬((selectCoins twoOutputs byValue (fun _ => unshuffled) 1000000000 .empty false
        (some selectFive)).retval=true ↔ Reaches twoOutputs selectFive 1000000000) := by
  intro hiff
  have hretval : (selectCoins twoOutputs byValue (fun _ => unshuffled) 1000000000 .empty false
      (some selectFive)).retval=false := by decide +kernel
  rw [hretval] at hiff
  have hreaches : Reaches twoOutputs selectFive 1000000000 := by
    refine ⟨[(500000000,⟨twoOutputs.mapWallet.head (by decide),0⟩)],by decide +kernel,?_⟩
    decide +kernel
  exact Bool.false_ne_true (hiff.mpr hreaches)

/-- Five coins are preset, and enough. -/
theorem five_coins_accepted :
    (selectCoins twoOutputs byValue (fun _ => unshuffled) 500000000 .empty false
      (some selectFive)).retval=true ↔ Reaches twoOutputs selectFive 500000000 := by
  have hpresets : presetsOf twoOutputs selectFive=
      some [(500000000,⟨twoOutputs.mapWallet.head (by decide),0⟩)] := by decide +kernel
  refine ((coin_selection_iff twoOutputs selectFive rfl (by decide) (by decide) ?_
    (by decide +kernel) byValue (fun _ => unshuffled) .empty false).mpr
      (Or.inr fun presets h => Or.inl ?_)).2
  · intro presets h
    rw [hpresets] at h
    obtain rfl := Option.some.inj h
    decide
  · rw [hpresets] at h
    obtain rfl := Option.some.inj h
    decide

end Selection

end Zdeex.Wallet.CoinSelection
