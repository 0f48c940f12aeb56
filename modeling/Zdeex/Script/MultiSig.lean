import Zdeex.Framework.MatchedInOrder
import Zdeex.Script.Interpreter

namespace Zdeex.Script

open Zdeex.Framework

section Results

variable (C : Context) {vch : Valtype} {k : Nat} {n : Int}

theorem number_ok_iff : number C vch k=.ok n ↔
    cScriptNum vch (C.flags.has SCRIPT_VERIFY_MINIMALDATA) k=.ok n := by
  rw [number]
  cases cScriptNum vch (C.flags.has SCRIPT_VERIFY_MINIMALDATA) k <;> simp

theorem natAbs_number_lt (hk : k≤8) (h : number C vch k=.ok n) : n.natAbs<2^(8*k-1) := by
  obtain ⟨hlen,-,rfl⟩ := cScriptNum_ok_iff.mp ((number_ok_iff C).mp h)
  rw [setVch_eq (hlen.trans hk)]
  exact natAbs_signedValue_lt hlen

/-- A number of four bytes is its own `getint`. -/
theorem getint_number (h : number C vch nDefaultMaxNumSize=.ok n) : getint n=n := by
  have hlt := natAbs_number_lt C (by decide) h
  simp only [nDefaultMaxNumSize] at hlt
  rw [getint,if_neg (by omega),if_neg (by omega)]

theorem number_serialize (hk : k≤8) (hlt : n.natAbs<2^(8*k-1)) :
    number C (serialize n) k=.ok n := by
  rw [number_ok_iff,cScriptNum_ok_iff]
  have hlen := (length_serialize_le_iff n k).mpr hlt
  refine ⟨hlen,fun _ => nonMinimal_serialize n,?_⟩
  rw [setVch_eq (hlen.trans hk),signedValue_serialize]

theorem answer_none {fOk : Bool} {stack stack' : List Valtype} :
    answer none fOk stack=.ok stack' ↔ stack'=vchBool fOk::stack := by
  rw [answer,Except.ok.injEq,eq_comm]

theorem answer_some {e : ScriptError} {fOk : Bool} {stack stack' : List Valtype} :
    answer (some e) fOk stack=.ok stack' ↔ fOk=true ∧ stack'=stack := by
  cases fOk <;> simp [answer,eq_comm]

end Results

section Loop

variable (C : Context)

/-- `CheckSig` takes the signature for one of the key. -/
def Verifies (vchSig vchPubKey : Valtype) : Prop :=
  C.checker.checkSig vchSig vchPubKey C.script C.consensusBranchId=true

instance (vchSig vchPubKey : Valtype) : Decidable (Verifies C vchSig vchPubKey) :=
  inferInstanceAs (Decidable (_=true))

/-- Neither of the two encodings is refused. -/
def Encoded (vchSig vchPubKey : Valtype) : Prop :=
  checkSignatureEncoding C vchSig=.ok () ∧ checkPubKeyEncoding C vchPubKey=.ok ()

/-- No encoding is refused among the pairs that a search in order meets: a signature is
tried with the next key until one verifies, while there are keys enough for the others. -/
def EncodedAlong : List Valtype → List Valtype → Prop
  | _,[] => True
  | [],_::_ => True
  | vchSig::sigs,vchPubKey::keys =>
    Encoded C vchSig vchPubKey ∧
      let left := if Verifies C vchSig vchPubKey then sigs else vchSig::sigs
      (keys.length<left.length ∨ EncodedAlong left keys)

variable {C} {vchSig vchPubKey : Valtype} {sigs keys : List Valtype} {b : Bool}

theorem checkOneSig_ok_iff : (checkOneSig C vchSig vchPubKey).result=.ok b ↔
    Encoded C vchSig vchPubKey ∧ (b=true ↔ Verifies C vchSig vchPubKey) := by
  rw [checkOneSig]
  simp only [Traced.result_bind,bind_ok,Traced.result_lift]
  constructor
  · rintro ⟨⟨⟩,hsig,⟨⟩,hkey,hask⟩
    refine ⟨⟨hsig,hkey⟩,?_⟩
    rw [← Except.ok.inj hask,Verifies]
  · rintro ⟨⟨hsig,hkey⟩,hb⟩
    refine ⟨(),hsig,(),hkey,congrArg Except.ok ?_⟩
    exact Bool.eq_iff_iff.mpr hb.symm

theorem checkOneSig_asks :
    (checkOneSig C vchSig vchPubKey).Asks 1 fun _ => True :=
  .bind_lift fun _ _ => .bind_lift fun _ _ => .ask trivial

/-- The loop asks about each key once at most. -/
theorem multiSigLoop_asks : (multiSigLoop C sigs keys).Asks keys.length fun _ => True := by
  induction keys generalizing sigs with
  | nil =>
    cases sigs with
    | nil => exact .pure trivial
    | cons vchSig sigs => exact .pure trivial
  | cons vchPubKey keys ih =>
    cases sigs with
    | nil => exact (Traced.Asks.pure trivial).mono (Nat.zero_le _) fun _ h => h
    | cons vchSig sigs =>
      rw [List.length_cons,Nat.add_comm]
      refine checkOneSig_asks.bind fun fOk _ => ?_
      by_cases hlt : keys.length<(if fOk then sigs else vchSig::sigs).length
      · rw [if_pos hlt]
        exact (Traced.Asks.pure trivial).mono (Nat.zero_le _) fun _ h => h
      · rw [if_neg hlt]
        exact ih

/-- The loop tries the keys in turn and never goes back, and still it finds a key for every
signature whenever there is a way to, in the same order. -/
theorem multiSigLoop_iff (h : (multiSigLoop C sigs keys).result=.ok b) :
    b=true ↔ MatchedInOrder (Verifies C) sigs keys := by
  induction keys generalizing sigs with
  | nil =>
    cases sigs with
    | nil => simp [← Except.ok.inj h,MatchedInOrder.nil]
    | cons vchSig sigs =>
      rw [← Except.ok.inj h]
      refine ⟨fun h => absurd h Bool.false_ne_true,fun hmatch => absurd hmatch.length_le (by simp)⟩
  | cons vchPubKey keys ih =>
    cases sigs with
    | nil => simp [← Except.ok.inj h,MatchedInOrder.nil]
    | cons vchSig sigs =>
      rw [multiSigLoop,Traced.result_bind,bind_ok] at h
      obtain ⟨fOk,hone,hrest⟩ := h
      have hfOk := (checkOneSig_ok_iff.mp hone).2
      have hnext : MatchedInOrder (Verifies C) (vchSig::sigs) (vchPubKey::keys) ↔
          MatchedInOrder (Verifies C) (if fOk then sigs else vchSig::sigs) keys := by
        cases fOk with
        | true => exact MatchedInOrder.cons_iff (hfOk.mp rfl)
        | false => exact MatchedInOrder.skip_iff fun hv => Bool.false_ne_true (hfOk.mpr hv)
      rw [hnext]
      by_cases hlt : keys.length<(if fOk then sigs else vchSig::sigs).length
      · rw [if_pos hlt] at hrest
        rw [← Except.ok.inj hrest]
        exact ⟨fun h => absurd h Bool.false_ne_true,
          fun hmatch => absurd hmatch.length_le (by omega)⟩
      · rw [if_neg hlt] at hrest
        exact ih hrest

/-- The loop meets exactly the pairs of the search. -/
theorem multiSigLoop_encoded : (∃b,(multiSigLoop C sigs keys).result=.ok b) ↔
    EncodedAlong C sigs keys := by
  induction keys generalizing sigs with
  | nil =>
    cases sigs with
    | nil => exact iff_of_true ⟨_,rfl⟩ trivial
    | cons vchSig sigs => exact iff_of_true ⟨_,rfl⟩ trivial
  | cons vchPubKey keys ih =>
    cases sigs with
    | nil => exact iff_of_true ⟨_,rfl⟩ trivial
    | cons vchSig sigs =>
      have hleft : ∀fOk : Bool,(fOk=true ↔ Verifies C vchSig vchPubKey) →
          (if fOk then sigs else vchSig::sigs)=
            if Verifies C vchSig vchPubKey then sigs else vchSig::sigs :=
        fun fOk hfOk => if_congr hfOk rfl rfl
      have hrest : ∀left : List Valtype,(∃b,(if keys.length<left.length then
            (return false : Eval Bool) else multiSigLoop C left keys).result=.ok b) ↔
          (keys.length<left.length ∨ EncodedAlong C left keys) := by
        intro left
        by_cases hlt : keys.length<left.length
        · rw [if_pos hlt]
          exact iff_of_true ⟨_,rfl⟩ (.inl hlt)
        · rw [if_neg hlt,ih]
          exact (or_iff_right hlt).symm
      rw [EncodedAlong]
      dsimp only
      rw [← hrest]
      simp only [multiSigLoop,Traced.result_bind,bind_ok]
      constructor
      · rintro ⟨b,fOk,hone,hloop⟩
        obtain ⟨hencoded,hfOk⟩ := checkOneSig_ok_iff.mp hone
        exact ⟨hencoded,b,hleft fOk hfOk ▸ hloop⟩
      · rintro ⟨hencoded,b,hloop⟩
        refine ⟨b,decide (Verifies C vchSig vchPubKey),?_,?_⟩
        · exact checkOneSig_ok_iff.mpr ⟨hencoded,decide_eq_true_iff⟩
        · rw [hleft _ decide_eq_true_iff]
          exact hloop

theorem multiSigLoop_ok_iff : (multiSigLoop C sigs keys).result=.ok b ↔
    EncodedAlong C sigs keys ∧ (b=true ↔ MatchedInOrder (Verifies C) sigs keys) := by
  constructor
  · exact fun h => ⟨multiSigLoop_encoded.mp ⟨b,h⟩,multiSigLoop_iff h⟩
  · rintro ⟨hencoded,hb⟩
    obtain ⟨b',hloop⟩ := multiSigLoop_encoded.mpr hencoded
    have hsame : b'=b := Bool.eq_iff_iff.mpr ((multiSigLoop_iff hloop).trans hb.symm)
    rw [hloop,hsame]

end Loop

section Opcode

variable (C : Context)

/-- How the stack is laid out for `OP_CHECKMULTISIG`. -/
structure MultiSigArgs.Arranged (args : MultiSigArgs) (s : State) : Prop where
  stack : ∃nKeys nSigs,s.stack=nKeys::(args.keys++nSigs::(args.sigs++args.dummy::args.below)) ∧
    number C nKeys nDefaultMaxNumSize=.ok args.keys.length ∧
    number C nSigs nDefaultMaxNumSize=.ok args.sigs.length
  sigs : args.sigs.length≤args.keys.length
  keys : args.keys.length≤20
  ops : s.nOpCount+args.keys.length≤201

variable {C} {s : State} {args : MultiSigArgs}

/-- The element behind the first `n` ones. -/
theorem head?_drop_eq_some {l : List Valtype} {n : Nat} {v : Valtype}
    (h : (l.drop n).head?=some v) :
    l=l.take n++v::(l.drop n).tail ∧ (l.take n).length=n := by
  have hdrop : l.drop n=v::(l.drop n).tail := by
    cases hl : l.drop n with
    | nil => simp [hl] at h
    | cons w t =>
      rw [hl] at h
      obtain rfl := Option.some.inj h
      rfl
  refine ⟨?_,?_⟩
  · rw [← hdrop,List.take_append_drop]
  · rw [List.length_take]
    have hlen := congrArg List.length hdrop
    rw [List.length_drop,List.length_cons] at hlen
    omega

theorem multiSigArgs_ok (h : multiSigArgs C s=.ok args) : args.Arranged C s := by
  simp only [multiSigArgs,bind_ok,expect_ok,reject_ok,pure_ok] at h
  obtain ⟨nKeys,htop,n,hn,-,hrange,-,hops,nSigs,hnSigs,k,hk,-,hsigs,dummy,hdummy,rfl⟩ := h
  rw [getint_number C hn] at hrange hops hnSigs hsigs hdummy ⊢
  rw [getint_number C hk] at hsigs hdummy ⊢
  have hstack : s.stack=nKeys::s.stack.tail := by
    have h0 := head?_drop_eq_some (l:=s.stack) (n:=0) htop
    simpa using h0.1
  obtain ⟨hkeys,hkeysLen⟩ := head?_drop_eq_some hnSigs
  obtain ⟨hbelow,hsigsLen⟩ := head?_drop_eq_some hdummy
  refine ⟨⟨nKeys,nSigs,?_,?_,?_⟩,?_,?_,?_⟩
  · rw [hstack,List.tail_cons,← hbelow,← hkeys]
  · rw [hkeysLen,hn,Int.toNat_of_nonneg (by omega)]
  · rw [hsigsLen,hk,Int.toNat_of_nonneg (by omega)]
  · rw [hkeysLen,hsigsLen]
    omega
  · rw [hkeysLen]
    omega
  · rw [hkeysLen]
    omega

theorem multiSigArgs_arranged (h : args.Arranged C s) : multiSigArgs C s=.ok args := by
  obtain ⟨⟨nKeys,nSigs,hstack,hn,hk⟩,hsigs,hkeys,hops⟩ := h
  have hnInt := getint_number C hn
  have hkInt := getint_number C hk
  simp only [multiSigArgs,bind_ok,expect_ok,reject_ok,pure_ok]
  refine ⟨nKeys,by rw [hstack]; rfl,_,hn,(),by omega,(),by rw [hnInt]; simpa using hops,nSigs,?_,
    _,hk,(),by omega,args.dummy,?_,?_⟩
  all_goals simp [hstack,hnInt,hkInt]

variable (C s) in
/-- What the opcode is for: whether the signatures have keys of their own, in the same order. -/
structure MultiSigArgs.Judged (args : MultiSigArgs) (verify : Option ScriptError) (s' : State) :
    Prop extends args.Arranged C s where
  dummy : C.flags.has SCRIPT_VERIFY_NULLDUMMY=true → args.dummy=[]
  outcome : ∃fSuccess stack,(fSuccess=true ↔ MatchedInOrder (Verifies C) args.sigs args.keys) ∧
    answer verify fSuccess args.below=.ok stack ∧
    s'={s with stack, nOpCount := s.nOpCount+args.keys.length}

theorem checkMultiSig_judged {verify : Option ScriptError} {s' : State}
    (h : (checkMultiSig C verify s).result=.ok s') :
    ∃args : MultiSigArgs,args.Judged C s verify s' ∧ EncodedAlong C args.sigs args.keys := by
  simp only [checkMultiSig,Traced.result_bind,Traced.result_lift,Traced.result_pure,bind_ok,
    reject_ok] at h
  obtain ⟨args,hargs,fSuccess,hloop,-,hdummy,stack,hanswer,hs'⟩ := h
  obtain ⟨hencoded,hmatch⟩ := multiSigLoop_ok_iff.mp hloop
  refine ⟨args,⟨multiSigArgs_ok hargs,fun hflag => ?_,fSuccess,stack,hmatch,hanswer,
    (Except.ok.inj hs').symm⟩,hencoded⟩
  simpa [hflag] using hdummy

theorem judged_checkMultiSig {verify : Option ScriptError} {s' : State} {args : MultiSigArgs}
    (hencoded : EncodedAlong C args.sigs args.keys) (h : args.Judged C s verify s') :
    (checkMultiSig C verify s).result=.ok s' := by
  obtain ⟨fSuccess,stack,hmatch,hanswer,rfl⟩ := h.outcome
  have hloop := multiSigLoop_ok_iff.mpr ⟨hencoded,hmatch⟩
  simp only [checkMultiSig,Traced.result_bind,Traced.result_lift,Traced.result_pure,bind_ok,
    reject_ok]
  refine ⟨args,multiSigArgs_arranged h.toArranged,fSuccess,hloop,(),?_,stack,hanswer,rfl⟩
  intro hreject
  simp only [Bool.and_eq_true,decide_eq_true_eq] at hreject
  exact hreject.2 (h.dummy hreject.1)

/-- `OP_CHECKMULTISIG` succeeds exactly with what it is for, unless an encoding that it
meets is refused. -/
theorem checkMultiSig_iff (verify : Option ScriptError) (s' : State) :
    (checkMultiSig C verify s).result=.ok s' ↔
      ∃args : MultiSigArgs,args.Judged C s verify s' ∧ EncodedAlong C args.sigs args.keys := by
  constructor
  · exact checkMultiSig_judged
  · rintro ⟨args,h,hencoded⟩
    exact judged_checkMultiSig hencoded h

/-- Two signatures, which the checker takes for any key but the second of three. -/
example :
    (checkMultiSig {Context.refusing [0xae] 0 with
        checker := ⟨fun _ vchPubKey _ _ => vchPubKey != [6],fun _ => false,fun _ _ _ _ => 0⟩} none
      ⟨[[3],[7],[6],[5],[2],[],[],[]],[],[],1⟩).result=.ok ⟨[[1]],[],[],4⟩ := by decide

end Opcode

end Zdeex.Script
