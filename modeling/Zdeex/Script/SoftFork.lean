import Zdeex.Framework.Laxer
import Zdeex.Script.Limits

namespace Zdeex.Script

open Zdeex.Framework

/-- The same arguments with other flags. -/
def Context.under (C : Context) (flags : Flags) : Context := {C with flags}

/-- `lax` has some of the flags of `strict`. The lock time opcode takes the place of a NOP: who
still refuses the unknown NOPs must know it when `strict` does. -/
structure Weaker (lax strict : Flags) : Prop where
  subset : lax &&& strict=lax
  nops : lax.has SCRIPT_VERIFY_DISCOURAGE_UPGRADABLE_NOPS=true →
    strict.has SCRIPT_VERIFY_CHECKLOCKTIMEVERIFY=true →
    lax.has SCRIPT_VERIFY_CHECKLOCKTIMEVERIFY=true

instance (lax strict : Flags) : Decidable (Weaker lax strict) :=
  decidable_of_iff (lax &&& strict=lax ∧ (lax.has SCRIPT_VERIFY_DISCOURAGE_UPGRADABLE_NOPS=true →
    strict.has SCRIPT_VERIFY_CHECKLOCKTIMEVERIFY=true →
    lax.has SCRIPT_VERIFY_CHECKLOCKTIMEVERIFY=true)) ⟨fun h => ⟨h.1,h.2⟩,fun h => ⟨h.1,h.2⟩⟩

section Opcodes

variable {lax strict : Flags} (h : Weaker lax strict) (C : Context)

include h

theorem Weaker.has (flag : Flags) (hlax : lax.has flag=true) : strict.has flag=true := by
  simp only [Flags.has,decide_eq_true_eq] at hlax ⊢
  intro hnone
  apply hlax
  rw [← h.subset,BitVec.and_assoc,hnone]
  exact BitVec.and_zero

/-- A test that only one flag turns on. -/
theorem Weaker.and_has {flag : Flags} {b : Bool} (hlax : (lax.has flag && b)=true) :
    (strict.has flag && b)=true := by
  rw [Bool.and_eq_true] at hlax ⊢
  exact ⟨h.has flag hlax.1,hlax.2⟩

theorem number_laxer (vch : Valtype) (k : Nat) :
    Laxer (number (C.under strict) vch k) (number (C.under lax) vch k) := by
  intro n hn
  obtain ⟨hlen,hminimal,hvalue⟩ := cScriptNum_ok_iff.mp ((number_ok_iff _).mp hn)
  exact (number_ok_iff _).mpr (cScriptNum_ok_iff.mpr
    ⟨hlen,fun hflag => hminimal (h.has _ hflag),hvalue⟩)

theorem checkSignatureEncoding_laxer (vchSig : Valtype) :
    Laxer (checkSignatureEncoding (C.under strict) vchSig)
      (checkSignatureEncoding (C.under lax) vchSig) := by
  unfold checkSignatureEncoding
  split
  · exact .refl _
  have hlow : Laxer (checkLowDER (C.under strict) vchSig) (checkLowDER (C.under lax) vchSig) := by
    unfold checkLowDER
    by_cases hflag : lax.has SCRIPT_VERIFY_LOW_S=true
    · have hstrict : (C.under strict).flags.has SCRIPT_VERIFY_LOW_S=true := h.has _ hflag
      have hlax : (C.under lax).flags.has SCRIPT_VERIFY_LOW_S=true := hflag
      rw [if_pos hstrict,if_pos hlax]
      exact .refl _
    · exact fun u _ => if_neg hflag
  exact .bind (.refl _) fun _ => .bind hlow fun _ => .reject (fun hlax => h.and_has hlax) _ _

theorem checkPubKeyEncoding_laxer (vchPubKey : Valtype) :
    Laxer (checkPubKeyEncoding (C.under strict) vchPubKey)
      (checkPubKeyEncoding (C.under lax) vchPubKey) :=
  .reject (fun hlax => h.and_has hlax) _ _

theorem checkLockTimeVerify_laxer (stack : List Valtype) :
    Laxer (checkLockTimeVerify (C.under strict) stack)
      (checkLockTimeVerify (C.under lax) stack) := by
  unfold checkLockTimeVerify
  by_cases hlax : (C.under lax).flags.has SCRIPT_VERIFY_CHECKLOCKTIMEVERIFY=true
  · have hstrict : (C.under strict).flags.has SCRIPT_VERIFY_CHECKLOCKTIMEVERIFY=true := h.has _ hlax
    rw [hlax,hstrict]
    exact .bind (.refl _) fun _ => .bind (number_laxer h C _ _) fun _ => .refl _
  · rw [Bool.not_eq_true] at hlax
    rw [hlax]
    by_cases hstrict : (C.under strict).flags.has SCRIPT_VERIFY_CHECKLOCKTIMEVERIFY=true
    · -- What `strict` checks is a NOP here, and not a discouraged one.
      have hnops : lax.has SCRIPT_VERIFY_DISCOURAGE_UPGRADABLE_NOPS=false := by
        rw [← Bool.not_eq_true]
        intro hdiscourage
        have := h.nops hdiscourage hstrict
        exact Bool.false_ne_true (hlax.symm.trans this)
      rw [hstrict]
      intro stack' hok
      simp only [bind_ok,expect_ok,reject_ok,pure_ok,Bool.not_true,if_neg Bool.false_ne_true] at hok
      obtain ⟨_,_,_,_,_,_,_,_,rfl⟩ := hok
      have hlax : (C.under lax).flags=lax := rfl
      exact bind_ok.mpr ⟨(),reject_ok.mpr (by rw [hlax,hnops]; decide),rfl⟩
    · rw [Bool.not_eq_true] at hstrict
      rw [hstrict]
      exact .bind (.reject (h.has _) _ _) fun _ => .refl _

theorem pickOrRoll_laxer (roll : Bool) (stack : List Valtype) :
    Laxer (pickOrRoll (C.under strict) roll stack) (pickOrRoll (C.under lax) roll stack) := by
  cases stack with
  | nil => exact .refl _
  | cons top below =>
    exact .bind (.refl _) fun _ => .bind (number_laxer h C _ _) fun _ => .refl _

theorem onStack_laxer (op : PlainOp) (stack : List Valtype) :
    Laxer (onStack (C.under strict) op stack) (onStack (C.under lax) op stack) := by
  cases op
  case OP_CHECKLOCKTIMEVERIFY => exact checkLockTimeVerify_laxer h C stack
  case upgradableNop =>
    exact .bind (.reject (h.has _) _ _) fun _ => .refl _
  case OP_PICK => exact pickOrRoll_laxer h C false stack
  case OP_ROLL => exact pickOrRoll_laxer h C true stack
  case unary op =>
    rcases stack with _ | ⟨top,below⟩
    · exact .refl _
    · exact .bind (number_laxer h C _ _) fun _ => .refl _
  case binary op =>
    rcases stack with _ | ⟨vch2,_ | ⟨vch1,below⟩⟩
    · exact .refl _
    · exact .refl _
    · exact .bind (number_laxer h C _ _) fun _ => .bind (number_laxer h C _ _) fun _ => .refl _
  case OP_WITHIN =>
    rcases stack with _ | ⟨vch3,_ | ⟨vch2,_ | ⟨vch1,below⟩⟩⟩
    · exact .refl _
    · exact .refl _
    · exact .refl _
    · exact .bind (number_laxer h C _ _) fun _ => .bind (number_laxer h C _ _) fun _ =>
        .bind (number_laxer h C _ _) fun _ => .refl _
  case OP_EQUAL => rcases stack with _ | ⟨vch2,_ | ⟨vch1,below⟩⟩ <;> exact .refl _
  case OP_EQUALVERIFY => rcases stack with _ | ⟨vch2,_ | ⟨vch1,below⟩⟩ <;> exact .refl _
  case hash op => rcases stack with _ | ⟨top,below⟩ <;> exact .refl _
  all_goals exact .refl _

theorem checkOneSig_laxer (vchSig vchPubKey : Valtype) :
    Laxer (checkOneSig (C.under strict) vchSig vchPubKey).result
      (checkOneSig (C.under lax) vchSig vchPubKey).result := by
  simp only [checkOneSig,Traced.result_bind,Traced.result_lift]
  exact .bind (checkSignatureEncoding_laxer h C vchSig) fun _ =>
    .bind (checkPubKeyEncoding_laxer h C vchPubKey) fun _ => .refl _

theorem checkSig_laxer (verify : Option ScriptError) (stack : List Valtype) :
    Laxer (checkSig (C.under strict) verify stack).result
      (checkSig (C.under lax) verify stack).result := by
  rcases stack with _ | ⟨vchPubKey,_ | ⟨vchSig,below⟩⟩
  · exact .refl _
  · exact .refl _
  · simp only [checkSig,Traced.result_bind,Traced.result_lift]
    exact .bind (checkOneSig_laxer h C vchSig vchPubKey) fun _ => .refl _

theorem multiSigLoop_laxer (sigs keys : List Valtype) :
    Laxer (multiSigLoop (C.under strict) sigs keys).result
      (multiSigLoop (C.under lax) sigs keys).result := by
  induction keys generalizing sigs with
  | nil => cases sigs <;> exact .refl _
  | cons vchPubKey keys ih =>
    cases sigs with
    | nil => exact .refl _
    | cons vchSig sigs =>
      simp only [multiSigLoop,Traced.result_bind]
      refine .bind (checkOneSig_laxer h C vchSig vchPubKey) fun fOk => ?_
      by_cases hlt : keys.length<(if fOk then sigs else vchSig::sigs).length
      · rw [if_pos hlt,if_pos hlt]
        exact .refl _
      · rw [if_neg hlt,if_neg hlt]
        exact ih _

theorem multiSigArgs_laxer (s : State) :
    Laxer (multiSigArgs (C.under strict) s) (multiSigArgs (C.under lax) s) :=
  .bind (.refl _) fun _ => .bind (number_laxer h C _ _) fun _ => .bind (.refl _) fun _ =>
    .bind (.refl _) fun _ => .bind (.refl _) fun _ => .bind (number_laxer h C _ _) fun _ => .refl _

theorem checkMultiSig_laxer (verify : Option ScriptError) (s : State) :
    Laxer (checkMultiSig (C.under strict) verify s).result
      (checkMultiSig (C.under lax) verify s).result := by
  simp only [checkMultiSig,Traced.result_bind,Traced.result_lift,Traced.result_pure]
  exact .bind (multiSigArgs_laxer h C s) fun args =>
    .bind (multiSigLoop_laxer h C args.sigs args.keys) fun _ =>
    .bind (.reject (fun hlax => h.and_has hlax) _ _) fun _ => .refl _

theorem execute_laxer (op : Op) (s : State) :
    Laxer (execute (C.under strict) op s).result (execute (C.under lax) op s).result := by
  cases op
  case plain op =>
    simp only [execute,Traced.result_bind,Traced.result_lift]
    exact .bind (onStack_laxer h C op s.stack) fun _ => .refl _
  case OP_CHECKSIG =>
    simp only [execute,Traced.result_bind]
    exact .bind (checkSig_laxer h C _ s.stack) fun _ => .refl _
  case OP_CHECKSIGVERIFY =>
    simp only [execute,Traced.result_bind]
    exact .bind (checkSig_laxer h C _ s.stack) fun _ => .refl _
  case OP_CHECKMULTISIG => exact checkMultiSig_laxer h C _ s
  case OP_CHECKMULTISIGVERIFY => exact checkMultiSig_laxer h C _ s
  all_goals exact .refl _

theorem dispatch_laxer (i : Instr) (s : State) :
    Laxer (dispatch (C.under strict) i s).result (dispatch (C.under lax) i s).result := by
  unfold dispatch
  split
  · simp only [Traced.result_bind,Traced.result_lift]
    exact .bind (.reject (fun hlax => h.and_has hlax) _ _) fun _ => .refl _
  · split
    · simp only [Traced.result_bind,Traced.result_lift]
      exact .bind (.refl _) fun op => execute_laxer h C op s
    · exact .refl _

theorem evalLoop_laxer (is : List (Option Instr)) (s : State) :
    Laxer (evalLoop (C.under strict) is s).result (evalLoop (C.under lax) is s).result := by
  induction is generalizing s with
  | nil => exact .refl _
  | cons i is ih =>
    cases i with
    | none => exact .refl _
    | some i =>
      simp only [evalLoop,step,Traced.result_bind,Traced.result_lift]
      refine .bind ?_ fun next => ih next
      exact .bind (.refl _) fun counted => .bind (dispatch_laxer h C i counted) fun _ => .refl _

theorem evaluate_laxer (script : List UInt8) (stack : List Valtype) :
    Laxer (evaluate (C.under strict) script stack).result
      (evaluate (C.under lax) script stack).result := by
  intro stack' hok
  rw [evaluate_ok_iff] at hok ⊢
  have hscript : Laxer (evalScript (Context.under {C with script} strict) stack).result
      (evalScript (Context.under {C with script} lax) stack).result := by
    simp only [evalScript,Traced.result_bind,Traced.result_lift]
    exact .bind (.refl _) fun _ => .bind (evalLoop_laxer h {C with script} _ _) fun _ => .refl _
  exact hscript stack' hok

end Opcodes

section Verification

variable {lax strict : Flags} (h : Weaker lax strict) (C : Context)
  (scriptSig scriptPubKey : List UInt8)

include h

theorem scriptSigStack_laxer :
    Laxer (scriptSigStack (C.under strict) scriptSig scriptPubKey).result
      (scriptSigStack (C.under lax) scriptSig scriptPubKey).result := by
  have hsame (flags : Flags) : scriptSigStack (C.under flags) scriptSig scriptPubKey=
      if C.isCryptoConditionsEnabled && isPayToCryptoCondition scriptPubKey then
        Traced.of ((evalCryptoConditionSig scriptSig []).mapError .script)
      else evaluate (C.under flags) scriptSig [] := rfl
  rw [hsame,hsame]
  split
  · exact .refl _
  · exact evaluate_laxer h C scriptSig []

theorem evalRedeem_laxer (stackCopy : List Valtype) :
    Laxer (evalRedeem (C.under strict) scriptSig stackCopy).result
      (evalRedeem (C.under lax) scriptSig stackCopy).result := by
  simp only [evalRedeem,Traced.result_bind,Traced.result_lift]
  refine .bind (.refl _) fun _ => ?_
  cases stackCopy with
  | nil => exact .refl _
  | cons pubKeySerialized stack =>
    simp only [Traced.result_bind]
    exact .bind (evaluate_laxer h C pubKeySerialized stack) fun _ => .refl _

/-- The flags are there to make rules stricter: what passes under some flags passes under fewer,
which is what lets one of them be made a rule of the chain by a soft fork. Without
`SCRIPT_VERIFY_P2SH` there must be no `SCRIPT_VERIFY_CLEANSTACK` either. -/
theorem verifyScript_weaker (hclean : lax.has SCRIPT_VERIFY_CLEANSTACK=true →
      lax.has SCRIPT_VERIFY_P2SH=true)
    (hok : (verifyScript (C.under strict) scriptSig scriptPubKey).result=.ok ()) :
    (verifyScript (C.under lax) scriptSig scriptPubKey).result=.ok () := by
  obtain ⟨hpush,stackCopy,stack,final,hcopy,hstack,htop,hfinal,hlast⟩ := verifyScript_ok_iff.mp hok
  have hcopy' := scriptSigStack_laxer h C scriptSig scriptPubKey stackCopy hcopy
  have hstack' := evaluate_laxer h C scriptPubKey stackCopy stack hstack
  refine verifyScript_ok_iff.mpr ⟨fun hflag => hpush (h.has _ hflag),stackCopy,stack,?_⟩
  by_cases hp2sh : lax.has SCRIPT_VERIFY_P2SH=true
  · have hlax : (C.under lax).flags.has SCRIPT_VERIFY_P2SH=true := hp2sh
    have hstrict : (C.under strict).flags.has SCRIPT_VERIFY_P2SH=true := h.has _ hp2sh
    refine ⟨final,hcopy',hstack',htop,?_,fun hflag => ⟨hp2sh,(hlast (h.has _ hflag)).2⟩⟩
    rw [finalStack,hstrict] at hfinal
    rw [finalStack,hlax]
    split at hfinal
    · rename_i hpay
      rw [if_pos hpay]
      exact evalRedeem_laxer h C scriptSig stackCopy final hfinal
    · rename_i hpay
      rw [if_neg hpay]
      exact hfinal
  · have hlax : (C.under lax).flags.has SCRIPT_VERIFY_P2SH=false := Bool.not_eq_true _▸hp2sh
    refine ⟨stack,hcopy',hstack',htop,?_,fun hflag => absurd (hclean hflag) hp2sh⟩
    rw [finalStack,hlax]
    rfl

end Verification

/-- OP_1 spends OP_1 OP_EQUAL under flags for relay, and so under those of the chain. -/
theorem verifyScript_weaker_relay :
    (verifyScript ((Context.refusing [] 0).under
      (SCRIPT_VERIFY_P2SH ||| SCRIPT_VERIFY_CHECKLOCKTIMEVERIFY)) [0x51] [0x51,0x87]).result=
        .ok () := by
  have hweaker : Weaker (SCRIPT_VERIFY_P2SH ||| SCRIPT_VERIFY_CHECKLOCKTIMEVERIFY)
      (SCRIPT_VERIFY_P2SH ||| SCRIPT_VERIFY_CHECKLOCKTIMEVERIFY ||| SCRIPT_VERIFY_MINIMALDATA |||
        SCRIPT_VERIFY_DISCOURAGE_UPGRADABLE_NOPS ||| SCRIPT_VERIFY_CLEANSTACK) := by decide
  exact verifyScript_weaker hweaker _ _ _ (by decide) rfl

end Zdeex.Script
