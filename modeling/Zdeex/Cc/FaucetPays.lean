import Zdeex.Cc.Faucet
import Zdeex.Framework.Crashing

namespace Zdeex.Cc.FaucetPays

open Zdeex.Framework
open Zdeex.Framework.Crashing
open Zdeex.Coins
open Zdeex.Block

section Definitions

variable (W : World)

/-- `IsFaucetvout` reads the output before anything else. -/
def isFaucetvout (tx : CTransaction) (v : Nat) : Crashing Int :=
  needing (v<tx.vout.length) (steady (pure (W.isFaucetvout tx v)))

/-- The sums are 64-bit ones. -/
def faucetInputs : List CTxIn → Int → Crashing (Option Int)
  | [],inputs => steady (pure (some inputs))
  | vin::rest,inputs =>
      if W.ismyvin EVAL_FAUCET vin.scriptSig then
        match W.getTransaction vin.prevout.hash with
        | none => fails "cant find vinTx"
        | some (vinTx,hashBlock) =>
            failIf (hashBlock=0) "cant faucet from mempool" do
              let assetoshis ← isFaucetvout W vinTx vin.prevout.n
              faucetInputs rest (toCAmount (inputs+assetoshis))
      else faucetInputs rest inputs

def faucetOutputs (tx : CTransaction) : List Nat → Int → Crashing Int
  | [],outputs => steady (pure outputs)
  | i::rest,outputs => do
      let assetoshis ← isFaucetvout W tx i
      faucetOutputs tx rest (toCAmount (outputs+assetoshis))

def faucetExactAmounts (tx : CTransaction) (next : Crashing Bool) : Crashing Bool :=
  whenSome false (faucetInputs W tx.vin 0) fun inputs => do
    let outputs ← faucetOutputs W tx (List.range tx.vout.length) 0
    refuseIf (toCAmount inputs≠toCAmount (outputs+FAUCETSIZE+FAUCET_TXFEE))
      "mismatched inputs != outputs + FAUCETSIZE + txfee" next

/-- The output after the change is read without a look at the number of outputs. -/
def validateFaucetget (site : Site) (tx : CTransaction) : Crashing Bool := do
  let change ← isFaucetvout W tx 0
  let i := if change≠0 then 1 else 0
  needing (i<tx.vout.length) (steady (W.validateFaucetget site tx))

def faucetValidate (site : Site) (tx : CTransaction) : Crashing Bool :=
  refuseIf (tx.vout=[]) "no vouts" <|
  refuseIf ((tx.vin.any fun _ => W.isCCInput (World.vin0 tx).scriptSig==false)=true)
    "illegal normal vini" <|
  faucetExactAmounts W tx (validateFaucetget W site tx)

/-- What an input takes from the faucet. -/
def spentValue (vin : CTxIn) : Int :=
  if W.ismyvin EVAL_FAUCET vin.scriptSig then
    match W.getTransaction vin.prevout.hash with
    | none => 0
    | some (vinTx,_) => W.isFaucetvout vinTx vin.prevout.n
  else 0

/-- What a transaction takes from the faucet, with the fee left out. -/
def taken (tx : CTransaction) : Int :=
  (tx.vin.map (spentValue W)).sum-W.faucetOutputs tx-FAUCET_TXFEE

/-- The first output that does not go to the faucet. -/
structure FirstPaid (tx : CTransaction) (i : Nat) : Prop where
  exist : i<tx.vout.length
  paid : W.isFaucetvout tx i=0
  first : ∀j < i,W.isFaucetvout tx j≠0

/-- What is asked of an accepted transaction. -/
structure PaysOnce (tx : CTransaction) : Prop where
  inputs : ∀vin∈tx.vin,W.isCCInput vin.scriptSig=true
  amounts : taken W tx=FAUCETSIZE
  output : ∃i,FirstPaid W tx i ∧ (W.voutAt tx i).nValue=FAUCETSIZE ∧
    ∀j<tx.vout.length,j≠i → W.isFaucetvout tx j=0 →
      isPayToCryptoCondition (W.voutAt tx j).scriptPubKey=false

/-- The outputs spent from the faucet are there, up to the first input that is refused. -/
def InputsReadable : List CTxIn → Prop
  | [] => True
  | vin::rest =>
      if W.ismyvin EVAL_FAUCET vin.scriptSig then
        match W.getTransaction vin.prevout.hash with
        | none => True
        | some (vinTx,hashBlock) =>
            hashBlock≠0 → vin.prevout.n<vinTx.vout.length ∧ InputsReadable rest
      else InputsReadable rest

/-- The inputs are found in blocks. -/
def InputsFound (vins : List CTxIn) : Prop :=
  ∀vin∈vins,W.ismyvin EVAL_FAUCET vin.scriptSig=true →
    ∃vinTx hashBlock,W.getTransaction vin.prevout.hash=some (vinTx,hashBlock) ∧ hashBlock≠0

/-- The outputs that the validation reads are there: those spent from the faucet, and the one
after the change when the amounts are right. -/
def Readable (tx : CTransaction) : Prop :=
  tx.vout≠[] → (tx.vin≠[] → W.isCCInput (World.vin0 tx).scriptSig=true) →
    InputsReadable W tx.vin ∧ (InputsFound W tx.vin → toCAmount (taken W tx-FAUCETSIZE)=0 →
      W.isFaucetvout tx 0≠0 → 1<tx.vout.length)

/-- What the validation leaves open: the inputs after the first one, an output after the change
that goes to the faucet too, and amounts beyond 64 bits. -/
structure Closed (tx : CTransaction) : Prop where
  inputs : ∀vin∈tx.vin.tail,W.isCCInput vin.scriptSig=true
  output : W.isFaucetvout tx 0≠0 → W.isFaucetvout tx 1≠0 →
    2<tx.vout.length ∧ (W.voutAt tx 2).nValue=FAUCETSIZE
  amounts : (taken W tx-FAUCETSIZE).natAbs<2^64

end Definitions

section Sums

variable {W : World}

theorem toCAmount_sub_eq_zero (x y : Int) : toCAmount x=toCAmount y ↔ toCAmount (x-y)=0 := by
  unfold toCAmount
  simp only [Int.bmod_def]
  split_ifs <;> omega

/-- A number of fewer than 64 bits is zero when it is zero modulo 2^64. -/
theorem eq_zero_iff_small {x : Int} (h : toCAmount x=0) : x=0 ↔ x.natAbs<2^64 := by
  unfold toCAmount at h
  simp only [Int.bmod_def] at h
  split_ifs at h <;> omega

theorem faucetInputs_finds (vins : List CTxIn) (inputs : Int) :
    (InputsFound W vins → ∀s,(W.faucetInputs vins inputs s).1=
        some (inputs+(vins.map (spentValue W)).sum)) ∧
      (¬InputsFound W vins → ∀s,(W.faucetInputs vins inputs s).1=none) := by
  induction vins generalizing inputs with
  | nil =>
    refine ⟨fun _ s => ?_,fun hno => absurd (fun vin hvin => absurd hvin List.not_mem_nil) hno⟩
    rw [World.faucetInputs,List.map_nil,List.sum_nil,add_zero]
    rfl
  | cons vin rest ih =>
    rw [World.faucetInputs,List.map_cons,List.sum_cons,← add_assoc]
    by_cases hmine : W.ismyvin EVAL_FAUCET vin.scriptSig=true
    · rw [if_pos hmine,spentValue,if_pos hmine]
      cases hget : W.getTransaction vin.prevout.hash with
      | none =>
        refine ⟨fun hfound => ?_,fun _ s => rfl⟩
        obtain ⟨vinTx,hashBlock,hsome,-⟩ := hfound vin List.mem_cons_self hmine
        rw [hget] at hsome
        cases hsome
      | some p =>
        obtain ⟨vinTx,hashBlock⟩ := p
        dsimp only
        by_cases hmempool : hashBlock=0
        · rw [Framework.failIf,Framework.refuseWhen,if_pos hmempool]
          refine ⟨fun hfound => ?_,fun _ s => rfl⟩
          obtain ⟨vinTx',hashBlock',hsome,hblock⟩ := hfound vin List.mem_cons_self hmine
          rw [hget] at hsome
          obtain ⟨-,rfl⟩ := Prod.mk.inj (Option.some.inj hsome)
          exact absurd hmempool hblock
        · rw [Framework.failIf,Framework.refuseWhen,if_neg hmempool]
          have hcons : InputsFound W (vin::rest) ↔ InputsFound W rest := by
            refine ⟨fun h v hv => h v (List.mem_cons_of_mem _ hv),fun h v hv => ?_⟩
            rcases List.mem_cons.mp hv with rfl | hrest
            · exact fun _ => ⟨vinTx,hashBlock,hget,hmempool⟩
            · exact h v hrest
          rw [hcons]
          exact ih (inputs+W.isFaucetvout vinTx vin.prevout.n)
    · have hcons : InputsFound W (vin::rest) ↔ InputsFound W rest := by
        refine ⟨fun h v hv => h v (List.mem_cons_of_mem _ hv),fun h v hv => ?_⟩
        rcases List.mem_cons.mp hv with rfl | hrest
        · exact fun hyes => absurd hyes hmine
        · exact h v hrest
      rw [if_neg hmine,hcons,spentValue,if_neg hmine,add_zero]
      exact ih inputs

/-- The inputs with 64-bit sums. -/
def wrapped (m : Judged (Option Int)) : Judged (Option Int) :=
  fun s => ((m s).1.map toCAmount,(m s).2)

theorem behaves_isFaucetvout (tx : CTransaction) (v : Nat) :
    Behaves (isFaucetvout W tx v) (pure (W.isFaucetvout tx v)) (v<tx.vout.length) :=
  (Behaves.needing (Behaves.steady _)).congr (and_iff_left trivial)

theorem behaves_faucetInputs (vins : List CTxIn) (inputs : Int) :
    Behaves (faucetInputs W vins (toCAmount inputs)) (wrapped (W.faucetInputs vins inputs))
      (InputsReadable W vins) := by
  induction vins generalizing inputs with
  | nil => exact Behaves.steady _
  | cons vin rest ih =>
    rw [faucetInputs,World.faucetInputs,InputsReadable]
    by_cases hmine : W.ismyvin EVAL_FAUCET vin.scriptSig=true
    · rw [if_pos hmine,if_pos hmine,if_pos hmine]
      cases hget : W.getTransaction vin.prevout.hash with
      | none => exact Behaves.steady _
      | some p =>
        obtain ⟨vinTx,hashBlock⟩ := p
        dsimp only
        have hwrap : wrapped (Framework.failIf (hashBlock=0) "cant faucet from mempool"
            (W.faucetInputs rest (inputs+W.isFaucetvout vinTx vin.prevout.n)))=
            Framework.failIf (hashBlock=0) "cant faucet from mempool"
              (wrapped (W.faucetInputs rest (inputs+W.isFaucetvout vinTx vin.prevout.n))) := by
          by_cases hmempool : hashBlock=0
          · simp only [Framework.failIf,Framework.refuseWhen,if_pos hmempool]
            rfl
          · simp only [Framework.failIf,Framework.refuseWhen,if_neg hmempool]
        rw [hwrap]
        refine Behaves.refuseWhen ?_
        refine (behaves_isFaucetvout vinTx vin.prevout.n).after ?_
        rw [toCAmount_add_left]
        exact ih _
    · rw [if_neg hmine,if_neg hmine,if_neg hmine]
      exact ih inputs

theorem behaves_faucetOutputs (tx : CTransaction) {is : List Nat}
    (h : ∀i∈is,i<tx.vout.length) (outputs : Int) :
    Behaves (faucetOutputs W tx is (toCAmount outputs))
      (pure (toCAmount (outputs+(is.map (W.isFaucetvout tx)).sum))) True := by
  induction is generalizing outputs with
  | nil =>
    rw [List.map_nil,List.sum_nil,add_zero]
    exact Behaves.steady _
  | cons i rest ih =>
    rw [List.forall_mem_cons] at h
    rw [faucetOutputs,List.map_cons,List.sum_cons,← add_assoc]
    refine ((behaves_isFaucetvout tx i).after ?_).congr
      (show i<tx.vout.length ∧ True ↔ True by simp [h.1])
    rw [toCAmount_add_left]
    exact ih h.2 _

end Sums

section Validation

variable {W : World} {site : Site} {tx : CTransaction}

theorem faucetOutputs_eq (tx : CTransaction) :
    Behaves (faucetOutputs W tx (List.range tx.vout.length) 0)
      (pure (toCAmount (W.faucetOutputs tx))) True := by
  have h := @behaves_faucetOutputs W tx (List.range tx.vout.length)
    (fun i hi => List.mem_range.mp hi) 0
  rwa [zero_add] at h

theorem behaves_validateFaucetget (hvout : tx.vout≠[]) :
    Behaves (validateFaucetget W site tx) (W.validateFaucetget site tx)
      (W.isFaucetvout tx 0≠0 → 1<tx.vout.length) := by
  have hpos : 0<tx.vout.length := List.length_pos_of_ne_nil hvout
  refine ((behaves_isFaucetvout tx 0).after (Behaves.needing (Behaves.steady _))).congr ?_
  constructor
  · rintro ⟨-,hi,-⟩ hchange
    rwa [if_pos hchange] at hi
  · intro h
    refine ⟨hpos,?_,trivial⟩
    split_ifs with hchange
    · exact h hchange
    · exact hpos

/-- The verdict where every read is in range. -/
def verdict (W : World) (site : Site) (tx : CTransaction) : Judged Bool :=
  Framework.refuseIf (tx.vout=[]) "no vouts" <|
  Framework.refuseIf ((tx.vin.any fun _ => W.isCCInput (World.vin0 tx).scriptSig==false)=true)
    "illegal normal vini" <|
  Framework.whenSome false (wrapped (W.faucetInputs tx.vin 0)) fun inputs =>
    Framework.refuseIf (toCAmount inputs≠
        toCAmount (toCAmount (W.faucetOutputs tx)+FAUCETSIZE+FAUCET_TXFEE))
      "mismatched inputs != outputs + FAUCETSIZE + txfee" (W.validateFaucetget site tx)

theorem any_vin0 : (tx.vin.any fun _ => W.isCCInput (World.vin0 tx).scriptSig==false)=true ↔
    tx.vin≠[] ∧ W.isCCInput (World.vin0 tx).scriptSig=false := by
  cases tx.vin <;> simp

/-- The 64-bit sums agree when what is taken does, modulo 2^64. -/
theorem amounts_agree : toCAmount (toCAmount (tx.vin.map (spentValue W)).sum)=
    toCAmount (toCAmount (W.faucetOutputs tx)+FAUCETSIZE+FAUCET_TXFEE) ↔
      toCAmount (taken W tx-FAUCETSIZE)=0 := by
  have hdiff : (tx.vin.map (spentValue W)).sum-(W.faucetOutputs tx+(FAUCETSIZE+FAUCET_TXFEE))=
      taken W tx-FAUCETSIZE := by
    unfold taken
    omega
  have htwice : toCAmount (toCAmount (tx.vin.map (spentValue W)).sum)=
      toCAmount (tx.vin.map (spentValue W)).sum := Int.bmod_bmod
  rw [htwice,add_assoc,toCAmount_add_left,toCAmount_sub_eq_zero,hdiff]

theorem behaves_faucetValidate (tx : CTransaction) :
    Behaves (faucetValidate W site tx) (verdict W site tx) (Readable W tx) := by
  unfold faucetValidate faucetExactAmounts verdict Readable
  by_cases hvout : tx.vout=[]
  · exact (Behaves.ite_pos hvout (Behaves.steady _)).congr
      ⟨fun _ hno => absurd hvout hno,fun _ => trivial⟩
  refine (Behaves.refuseWhen (Behaves.refuseWhen (Behaves.whenSome
    (v := (W.faucetInputs tx.vin 0 none).1.map toCAmount)
    (F := fun inputs => inputs=toCAmount (toCAmount (W.faucetOutputs tx)+FAUCETSIZE+FAUCET_TXFEE) →
      W.isFaucetvout tx 0≠0 → 1<tx.vout.length)
    (behaves_faucetInputs tx.vin 0) ?_ fun inputs hinputs => ?_))).congr ?_
  · intro s
    obtain ⟨hfound,hnot⟩ := faucetInputs_finds (W := W) tx.vin 0
    by_cases h : InputsFound W tx.vin
    · exact congrArg (Option.map toCAmount) ((hfound h s).trans (hfound h none).symm)
    · exact congrArg (Option.map toCAmount) ((hnot h s).trans (hnot h none).symm)
  · refine ((faucetOutputs_eq tx).after (Behaves.refuseWhen
      (behaves_validateFaucetget hvout))).congr ?_
    obtain ⟨a,-,rfl⟩ := Option.mem_map.mp hinputs
    have htwice : toCAmount (toCAmount a)=toCAmount a := Int.bmod_bmod
    rw [htwice,not_not,true_and]
  · rw [any_vin0]
    refine imp_congr Iff.rfl (imp_congr (by simp) (and_congr Iff.rfl ?_))
    obtain ⟨hfound,hnot⟩ := faucetInputs_finds (W := W) tx.vin 0
    by_cases h : InputsFound W tx.vin
    · rw [hfound h none,Option.map_some,zero_add]
      constructor
      · intro hall _ hagree
        apply hall _ rfl
        rw [← amounts_agree.mpr hagree]
        exact Int.bmod_bmod.symm
      · rintro himp inputs hinputs heq
        obtain rfl := Option.some.inj hinputs
        refine himp h (amounts_agree.mp ?_)
        rw [← heq]
        exact Int.bmod_bmod
    · rw [hnot h none]
      exact ⟨fun _ hyes => absurd hyes h,fun _ inputs hinputs => (nomatch hinputs)⟩

/-- What is known of an accepted transaction. -/
theorem verdict_true {s : Option String} (h : (verdict W site tx s).1=true) :
    tx.vout≠[] ∧ (tx.vin≠[] → W.isCCInput (World.vin0 tx).scriptSig=true) ∧
      toCAmount (taken W tx-FAUCETSIZE)=0 ∧
      (W.voutAt tx (if W.isFaucetvout tx 0≠0 then 1 else 0)).nValue=FAUCETSIZE ∧
      ∀out∈tx.vout.drop ((if W.isFaucetvout tx 0≠0 then 1 else 0)+1),
        isPayToCryptoCondition out.scriptPubKey=false := by
  unfold verdict at h
  rw [refuseIf_true,refuseIf_true,whenSome_true,any_vin0] at h
  obtain ⟨hvout,hvin,inputs,hinputs,h⟩ := h
  rw [refuseIf_true,not_not] at h
  obtain ⟨hamounts,h⟩ := h
  unfold World.validateFaucetget World.preventCC at h
  rw [refuseIf_true,refuseIf_true,refuseIf_true,refuseIf_true,refuseIf_true,not_not] at h
  obtain ⟨hvalue,-,-,-,hprevent,-⟩ := h
  refine ⟨hvout,by simpa using hvin,?_,hvalue,?_⟩
  · obtain ⟨hfound,hnot⟩ := faucetInputs_finds (W := W) tx.vin 0
    have hval : ((W.faucetInputs tx.vin 0 s).1.map toCAmount)=some inputs := hinputs
    by_cases hall : InputsFound W tx.vin
    · rw [hfound hall,Option.map_some,zero_add] at hval
      obtain rfl := Option.some.inj hval
      exact amounts_agree.mp hamounts
    · rw [hnot hall] at hval
      cases hval
  · simpa using hprevent

theorem mem_drop_voutAt {n j : Nat} (hn : n≤j) (hj : j<tx.vout.length) :
    W.voutAt tx j∈tx.vout.drop n := by
  rw [World.voutAt,List.getD_eq_getElem?_getD,List.getElem?_eq_getElem hj,Option.getD_some,
    List.mem_iff_getElem]
  refine ⟨j-n,by rw [List.length_drop]; omega,?_⟩
  rw [List.getElem_drop]
  congr 1
  omega

theorem isFaucetvout_of_not_cc {v : Nat}
    (h : isPayToCryptoCondition (W.voutAt tx v).scriptPubKey=false) : W.isFaucetvout tx v=0 := by
  unfold World.isFaucetvout
  dsimp only
  rw [h]
  rfl

/-- The outputs of an accepted transaction, when the one after the change does not go to the
faucet. -/
theorem output_of_single {i : Nat} (hi : i<tx.vout.length) (hpaid : W.isFaucetvout tx i=0)
    (hfirst : ∀j < i,W.isFaucetvout tx j≠0) (hvalue : (W.voutAt tx i).nValue=FAUCETSIZE)
    (hprevent : ∀out∈tx.vout.drop (i+1),isPayToCryptoCondition out.scriptPubKey=false) :
    ∃i,FirstPaid W tx i ∧ (W.voutAt tx i).nValue=FAUCETSIZE ∧
      ∀j<tx.vout.length,j≠i → W.isFaucetvout tx j=0 →
        isPayToCryptoCondition (W.voutAt tx j).scriptPubKey=false := by
  refine ⟨i,⟨hi,hpaid,hfirst⟩,hvalue,fun j hj hne hzero => ?_⟩
  rcases Nat.lt_or_ge j i with hlt | hge
  · exact absurd hzero (hfirst j hlt)
  · exact hprevent _ (mem_drop_voutAt (by omega) hj)

theorem firstPaid_unique {i j : Nat} (hi : FirstPaid W tx i) (hj : FirstPaid W tx j) : i=j := by
  rcases Nat.lt_trichotomy i j with hlt | heq | hgt
  · exact absurd hi.paid (hj.first i hlt)
  · exact heq
  · exact absurd hj.paid (hi.first j hgt)

theorem inputs_iff (h : tx.vin≠[] → W.isCCInput (World.vin0 tx).scriptSig=true) :
    (∀vin∈tx.vin,W.isCCInput vin.scriptSig=true) ↔
      ∀vin∈tx.vin.tail,W.isCCInput vin.scriptSig=true := by
  cases hvin : tx.vin with
  | nil => exact Iff.rfl
  | cons vin rest =>
    have hfirst := h (by rw [hvin]; exact List.cons_ne_nil _ _)
    rw [World.vin0,hvin] at hfirst
    rw [List.forall_mem_cons,List.tail_cons]
    exact and_iff_right hfirst

/-- An accepted transaction pays once exactly when what the validation leaves open is closed. -/
theorem paysOnce_iff {s : Option String} (hread : Readable W tx)
    (h : (verdict W site tx s).1=true) : PaysOnce W tx ↔ Closed W tx := by
  obtain ⟨hvout,hvin,hamounts,hvalue,hprevent⟩ := verdict_true h
  have hpos : 0<tx.vout.length := List.length_pos_of_ne_nil hvout
  have hchange : W.isFaucetvout tx 0≠0 → 1<tx.vout.length := by
    have hfound : InputsFound W tx.vin := by
      by_contra hno
      unfold verdict at h
      rw [refuseIf_true,refuseIf_true,whenSome_true] at h
      obtain ⟨-,-,inputs,hinputs,-⟩ := h
      have hval : ((W.faucetInputs tx.vin 0 s).1.map toCAmount)=some inputs := hinputs
      rw [(faucetInputs_finds tx.vin 0).2 hno] at hval
      cases hval
    exact (hread hvout hvin).2 hfound hamounts
  have hsums : taken W tx=FAUCETSIZE ↔ (taken W tx-FAUCETSIZE).natAbs<2^64 := by
    rw [← eq_zero_iff_small hamounts]
    omega
  constructor
  · rintro ⟨hinputs,htaken,i,hfirst,hpaid,-⟩
    refine ⟨(inputs_iff hvin).mp hinputs,fun h0 h1 => ?_,hsums.mp htaken⟩
    have htwo : 2 ≤ i := by
      rcases i with _ | _ | i
      · exact absurd hfirst.paid h0
      · exact absurd hfirst.paid h1
      · omega
    have hthird : FirstPaid W tx 2 := by
      rw [if_pos h0] at hprevent
      have hlen : 2<tx.vout.length := htwo.trans_lt hfirst.exist
      refine ⟨hlen,isFaucetvout_of_not_cc (hprevent _ (mem_drop_voutAt (le_refl 2) hlen)),?_⟩
      intro j hj
      rcases j with _ | _ | j
      · exact h0
      · exact h1
      · omega
    obtain rfl := firstPaid_unique hfirst hthird
    exact ⟨hthird.exist,hpaid⟩
  · rintro ⟨hinputs,houtput,hsmall⟩
    refine ⟨(inputs_iff hvin).mpr hinputs,hsums.mpr hsmall,?_⟩
    by_cases h0 : W.isFaucetvout tx 0=0
    · rw [if_neg (not_not.mpr h0)] at hvalue hprevent
      exact output_of_single hpos h0 (fun j hj => absurd hj (Nat.not_lt_zero j)) hvalue hprevent
    · rw [if_pos h0] at hvalue hprevent
      by_cases h1 : W.isFaucetvout tx 1=0
      · refine output_of_single (hchange h0) h1 (fun j hj => ?_) hvalue hprevent
        obtain rfl : j=0 := by omega
        exact h0
      · obtain ⟨hlen,hpaid⟩ := houtput h0 h1
        refine output_of_single hlen
          (isFaucetvout_of_not_cc (hprevent _ (mem_drop_voutAt (le_refl 2) hlen)))
          (fun j hj => ?_) hpaid fun out hout => hprevent out ?_
        · rcases j with _ | _ | j
          · exact h0
          · exact h1
          · omega
        · rw [← List.tail_drop] at hout
          exact List.mem_of_mem_tail hout

/-- Reads stay in range, and an accepted transaction pays once, exactly under these conditions. -/
theorem faucet_pays_iff (W : World) (site : Site) (tx : CTransaction) :
    (∀s,(faucetValidate W site tx s).isSome=true ↔ Readable W tx) ∧
      ∀s s',faucetValidate W site tx s=some (true,s') → (PaysOnce W tx ↔ Closed W tx) := by
  have hbehaves := @behaves_faucetValidate W site tx
  refine ⟨fun s => hbehaves.isSome_iff s,fun s s' haccept => ?_⟩
  have hread : Readable W tx := (hbehaves.isSome_iff s).mp (by rw [haccept]; rfl)
  rw [hbehaves.returns hread s] at haccept
  exact paysOnce_iff hread (congrArg Prod.fst (Option.some.inj haccept))

end Validation

section Transactions

/-- An output of the faucet. -/
def faucetScript : List UInt8 := [2,0xe4,0xe4,0xcc]

/-- An input that spends an output of the faucet. -/
def faucetVin (n : Nat) : CTxIn := ⟨⟨5,n⟩,[3,0xe4,0xe4,1]⟩

def fundingTx : CTransaction := plainTx 5 [] [⟨10010000,faucetScript⟩,⟨20010000,faucetScript⟩]

def faucetWorld : World :=
  World.ofKeys fun h => (indexOf [fundingTx] h).map fun p => (p.1,10)

def faucetSite : Site := Site.named "ZDX"

def normalScript : List UInt8 := 33::World.keyOf 7++[0xac]

/-- The second input is a normal one. -/
def normalInputTx : CTransaction :=
  plainTx 0x100 [faucetVin 0,⟨⟨6,0⟩,[]⟩] [⟨10000000,normalScript⟩]

/-- All is change. -/
def changeOnlyTx : CTransaction :=
  plainTx 0x100 [faucetVin 1] [⟨10000000,faucetScript⟩]

/-- What is paid goes to the faucet too, and there is no other output. -/
def selfPayTx : CTransaction :=
  plainTx 0x100 [faucetVin 0,faucetVin 1] [⟨10010000,faucetScript⟩,⟨10000000,faucetScript⟩]

/-- One payment with change. -/
def payTx : CTransaction :=
  plainTx 0x100 [faucetVin 1] [⟨10000000,faucetScript⟩,⟨10000000,normalScript⟩]

theorem faucet_lapses :
    ((∃s,faucetValidate faucetWorld faucetSite normalInputTx none=some (true,s)) ∧
      ¬PaysOnce faucetWorld normalInputTx) ∧
    ((∃s,faucetValidate faucetWorld faucetSite selfPayTx none=some (true,s)) ∧
      ¬PaysOnce faucetWorld selfPayTx) ∧
    faucetValidate faucetWorld faucetSite changeOnlyTx none=none := by
  refine ⟨⟨⟨none,by decide +kernel⟩,fun h => ?_⟩,⟨⟨none,by decide +kernel⟩,fun h => ?_⟩,
    by decide +kernel⟩
  · have hinputs := h.inputs
    revert hinputs
    decide +kernel
  · obtain ⟨i,hfirst,-⟩ := h.output
    have hexist : i<2 := hfirst.exist
    have hpaid := hfirst.paid
    rcases i with _ | _ | i
    · revert hpaid
      decide +kernel
    · revert hpaid
      decide +kernel
    · omega

theorem faucet_pays_payTx : PaysOnce faucetWorld payTx := by
  have haccept : faucetValidate faucetWorld faucetSite payTx none=some (true,none) := by
    decide +kernel
  refine ((faucet_pays_iff faucetWorld faucetSite payTx).2 none none haccept).mpr ⟨?_,?_,?_⟩
  · intro vin hvin
    cases hvin
  · decide +kernel
  · decide +kernel

end Transactions

end Zdeex.Cc.FaucetPays
