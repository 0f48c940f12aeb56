import Zdeex.Script.Limits

namespace Zdeex.Script

open Zdeex.Framework

def OP_CHECKSIG : Nat := 0xac
def OP_CHECKSIGVERIFY : Nat := 0xad
def OP_CHECKMULTISIG : Nat := 0xae
def OP_CHECKMULTISIGVERIFY : Nat := 0xaf
def OP_INVALIDOPCODE : Nat := 0xff

def decodeOP_N (opcode : Nat) : Nat := if opcode=OP_0 then 0 else opcode-(OP_1-1)

/-- What one opcode adds to the count. -/
def sigOps (fAccurate : Bool) (lastOpcode opcode : Nat) : Nat :=
  if opcode=OP_CHECKSIG ∨ opcode=OP_CHECKSIGVERIFY then 1
  else if opcode=OP_CHECKMULTISIG ∨ opcode=OP_CHECKMULTISIGVERIFY then
    if fAccurate ∧ OP_1≤lastOpcode ∧ lastOpcode≤OP_16 then decodeOP_N lastOpcode else 20
  else 0

def countSigOps (fAccurate : Bool) : List (Option Instr) → Nat → Nat
  | some i::is,lastOpcode => sigOps fAccurate lastOpcode i.opcode+countSigOps fAccurate is i.opcode
  | none::_,_ => 0
  | [],_ => 0

/-- `GetSigOpCount(fAccurate)`. -/
def getSigOpCount (fAccurate : Bool) (script : List UInt8) : Nat :=
  countSigOps fAccurate (readOps script) OP_INVALIDOPCODE

/-- The operand of the last instruction of a script of pushes. -/
def lastPush : List (Option Instr) → Valtype → Option Valtype
  | [],data => some data
  | none::_,_ => none
  | some i::is,_ => if OP_16 < i.opcode then none else lastPush is i.vchPushValue

/-- `GetSigOpCount(scriptSig)`: of a script hash, what is counted is the script spent with. -/
def getSigOpCountSpent (scriptPubKey scriptSig : List UInt8) : Nat :=
  if !isPayToScriptHash scriptPubKey then getSigOpCount true scriptPubKey
  else
    match lastPush (readOps scriptSig) [] with
    | none => 0
    | some data => getSigOpCount true data

section Step

variable {C : Context} {i : Instr} {s s' : State} {lastOpcode : Nat}

/-- A small number that was read last is on top of the stack. -/
def NumberOnTop (lastOpcode : Nat) (s : State) : Prop :=
  s.fExec=true → OP_1≤lastOpcode → lastOpcode≤OP_16 →
    s.stack.head?=some (serialize ((lastOpcode : Int)-(OP_1-1)))

theorem sigOps_le (fAccurate : Bool) (lastOpcode opcode : Nat) :
    sigOps fAccurate lastOpcode opcode ≤ sigOps false lastOpcode opcode := by
  unfold sigOps
  split
  · exact le_refl 1
  split
  · have hnot : ¬((false : Bool)=true ∧ OP_1≤lastOpcode ∧ lastOpcode≤OP_16) := by simp
    rw [if_neg hnot]
    split
    · rename_i hsmall
      have hle : lastOpcode≤96 := hsmall.2.2
      have h1 : OP_1=81 := rfl
      rw [decodeOP_N]
      split <;> omega
    · exact le_refl 20
  · exact le_refl 0

theorem countSigOps_le (fAccurate : Bool) (is : List (Option Instr)) (lastOpcode : Nat) :
    countSigOps fAccurate is lastOpcode ≤ countSigOps false is lastOpcode := by
  induction is generalizing lastOpcode with
  | nil => exact le_refl 0
  | cons i is ih =>
    cases i with
    | none => exact le_refl 0
    | some i => exact Nat.add_le_add (sigOps_le _ _ _) (ih _)

theorem ofCode_sig {opcode : Nat} {op : Op} (h : Op.ofCode opcode=some op) :
    (op=.OP_CHECKSIG → opcode=OP_CHECKSIG) ∧ (op=.OP_CHECKSIGVERIFY → opcode=OP_CHECKSIGVERIFY) ∧
    (op=.OP_CHECKMULTISIG → opcode=OP_CHECKMULTISIG) ∧
    (op=.OP_CHECKMULTISIGVERIFY → opcode=OP_CHECKMULTISIGVERIFY) := by
  rw [Op.ofCode] at h
  split at h
  · obtain rfl := Option.some.inj h
    simp
  · obtain ⟨before,after,htable,-⟩ := List.lookup_eq_some_iff.mp h
    have hmem : (opcode,op)∈opTable := by simp [htable]
    have hall : ∀p∈opTable,(p.2=.OP_CHECKSIG → p.1=OP_CHECKSIG) ∧
        (p.2=.OP_CHECKSIGVERIFY → p.1=OP_CHECKSIGVERIFY) ∧
        (p.2=.OP_CHECKMULTISIG → p.1=OP_CHECKMULTISIG) ∧
        (p.2=.OP_CHECKMULTISIGVERIFY → p.1=OP_CHECKMULTISIGVERIFY) := by decide
    exact hall _ hmem

theorem checkSig_asks {verify : Option ScriptError} {stack : List Valtype} :
    (checkSig C verify stack).Asks 1 fun _ => True := by
  rcases stack with _ | ⟨vchPubKey,_ | ⟨vchSig,below⟩⟩
  · exact (Traced.Asks.of fun _ h => by cases h).mono (Nat.zero_le 1) fun _ h => h
  · exact (Traced.Asks.of fun _ h => by cases h).mono (Nat.zero_le 1) fun _ h => h
  · exact checkOneSig_asks.bind fun _ _ => .lift fun _ _ => trivial

theorem checkMultiSig_asks {verify : Option ScriptError} {n : Nat}
    (hn : ∀args : MultiSigArgs,args.Arranged C s → args.keys.length≤n) :
    (checkMultiSig C verify s).Asks n fun _ => True := by
  refine .bind_lift fun args hargs => ?_
  have hloop : (multiSigLoop C args.sigs args.keys).Asks args.keys.length fun _ => True :=
    multiSigLoop_asks
  refine (hloop.mono (hn args (multiSigArgs_ok hargs)) fun _ h => h).bind (k:=0) fun _ _ => ?_
  exact .bind_lift fun _ _ => .bind_lift fun _ _ => .pure trivial

/-- The keys a small number announces are as many as the number says. -/
theorem keys_of_numberOnTop {args : MultiSigArgs} (htop : NumberOnTop lastOpcode s)
    (hexec : s.fExec=true) (h1 : OP_1≤lastOpcode) (h16 : lastOpcode≤OP_16)
    (hargs : args.Arranged C s) : args.keys.length=decodeOP_N lastOpcode := by
  obtain ⟨nKeys,nSigs,hstack,hnKeys,-⟩ := hargs.stack
  have hhead := htop hexec h1 h16
  rw [hstack,List.head?_cons,Option.some.injEq] at hhead
  have hlt : ((lastOpcode : Int)-(OP_1-1)).natAbs<2^(8*nDefaultMaxNumSize-1) := by
    simp only [OP_1,OP_16,nDefaultMaxNumSize] at *
    omega
  rw [hhead,number_serialize C (by decide) hlt,Except.ok.injEq] at hnKeys
  have h0 : ¬lastOpcode=OP_0 := by
    simp only [OP_1,OP_0] at *
    omega
  rw [decodeOP_N,if_neg h0]
  simp only [OP_1] at *
  omega

theorem checkMultiSig_asks_sigOps {verify : Option ScriptError} {opcode : Nat}
    (htop : NumberOnTop lastOpcode s) (hexec : s.fExec=true)
    (hop : opcode=OP_CHECKMULTISIG ∨ opcode=OP_CHECKMULTISIGVERIFY) :
    (checkMultiSig C verify s).Asks (sigOps true lastOpcode opcode) fun _ => True := by
  refine checkMultiSig_asks fun args hargs => ?_
  have hnot : ¬(opcode=OP_CHECKSIG ∨ opcode=OP_CHECKSIGVERIFY) := by
    rcases hop with rfl | rfl <;> decide
  rw [sigOps,if_neg hnot,if_pos hop]
  split
  · rename_i hsmall
    rw [keys_of_numberOnTop htop hexec hsmall.2.1 hsmall.2.2 hargs]
  · exact hargs.keys

theorem execute_asks {op : Op} {opcode : Nat} (hop : Op.ofCode opcode=some op)
    (htop : NumberOnTop lastOpcode s)
    (hexec : s.fExec=true ∨ (OP_IF≤opcode ∧ opcode≤OP_ENDIF)) :
    (execute C op s).Asks (sigOps true lastOpcode opcode) fun _ => True := by
  have hcode := ofCode_sig hop
  have hnone {m : Eval State} (h : m.asked=[]) :
      m.Asks (sigOps true lastOpcode opcode) fun _ => True :=
    ⟨by rw [h]; exact Nat.zero_le _,fun _ _ => trivial⟩
  have hrun (h : opcode=OP_CHECKMULTISIG ∨ opcode=OP_CHECKMULTISIGVERIFY) : s.fExec=true := by
    refine hexec.resolve_right ?_
    rcases h with rfl | rfl <;> decide
  have hone (h : opcode=OP_CHECKSIG ∨ opcode=OP_CHECKSIGVERIFY) :
      sigOps true lastOpcode opcode=1 := by rw [sigOps,if_pos h]
  cases op
  case plain op =>
    exact (Traced.Asks.bind_lift fun _ _ => .pure trivial).mono (Nat.zero_le _) fun _ h => h
  case OP_IF => exact hnone rfl
  case OP_NOTIF => exact hnone rfl
  case OP_ELSE =>
    refine hnone ?_
    simp only [execute]
    split <;> rfl
  case OP_ENDIF =>
    refine hnone ?_
    simp only [execute]
    split <;> rfl
  case OP_TOALTSTACK =>
    refine hnone ?_
    simp only [execute]
    split <;> rfl
  case OP_FROMALTSTACK =>
    refine hnone ?_
    simp only [execute]
    split <;> rfl
  case OP_CHECKSIG =>
    rw [hone (.inl (hcode.1 rfl))]
    exact checkSig_asks.bind (k:=0) fun _ _ => .pure trivial
  case OP_CHECKSIGVERIFY =>
    rw [hone (.inr (hcode.2.1 rfl))]
    exact checkSig_asks.bind (k:=0) fun _ _ => .pure trivial
  case OP_CHECKMULTISIG =>
    have h : opcode=OP_CHECKMULTISIG := hcode.2.2.1 rfl
    exact checkMultiSig_asks_sigOps htop (hrun (.inl h)) (.inl h)
  case OP_CHECKMULTISIGVERIFY =>
    have h : opcode=OP_CHECKMULTISIGVERIFY := hcode.2.2.2 rfl
    exact checkMultiSig_asks_sigOps htop (hrun (.inr h)) (.inr h)

theorem dispatch_asks (htop : NumberOnTop lastOpcode s) :
    (dispatch C i s).Asks (sigOps true lastOpcode i.opcode) (NumberOnTop i.opcode) := by
  unfold dispatch
  split
  · rename_i hpush
    refine (Traced.Asks.bind_lift fun _ _ => .pure ?_).mono (Nat.zero_le _) fun _ h => h
    intro _ h1
    exact absurd (h1.trans hpush.2) (by decide)
  split
  · rename_i hexec
    refine .bind_lift fun op hop => ?_
    have hcode := expect_ok.mp hop
    refine ⟨(execute_asks hcode htop hexec).1,fun next hnext hrun h1 h16 => ?_⟩
    rw [ofCode_small hcode h16] at hnext
    simp only [execute,onStack,Traced.result_bind,Traced.result_lift,Traced.result_pure,bind_ok,
      Except.ok.injEq,exists_eq_left'] at hnext
    rw [← hnext]
    rfl
  · rename_i hexec
    refine (Traced.Asks.pure fun hrun => ?_).mono (Nat.zero_le _) fun _ h => h
    exact absurd (Or.inl hrun) hexec

/-- An instruction asks for no more signatures than it is counted for. -/
theorem step_asks (htop : NumberOnTop lastOpcode s) :
    (step C i s).Asks (sigOps true lastOpcode i.opcode) (NumberOnTop i.opcode) := by
  refine .bind_lift fun counted hcount => ?_
  obtain ⟨-,-,-,rfl⟩ := countOp_ok_iff.mp hcount
  have hcounted : NumberOnTop lastOpcode
      {s with nOpCount := if OP_16 < i.opcode then s.nOpCount+1 else s.nOpCount} := htop
  exact (dispatch_asks hcounted).bind (k:=0) fun next hnext => .bind_lift fun _ _ => .pure hnext

end Step

section Pushes

variable {C : Context} {i : Instr} {s s' : State}

/-- What an instruction up to `OP_16` puts on the stack. -/
def Instr.pushed (i : Instr) : Valtype :=
  if i.opcode≤OP_PUSHDATA4 then i.vchPushValue else serialize ((i.opcode : Int)-(OP_1-1))

theorem step_pushes (hle : i.opcode≤OP_16) (hexec : s.fExec=true)
    (h : (step C i s).result=.ok s') :
    s'={s with stack := i.pushed::s.stack} ∧
      (OP_PUSHDATA4 < i.opcode → (Op.ofCode i.opcode).isSome) := by
  obtain ⟨counted,hcount,hdispatch,-⟩ := step_ok_iff.mp h
  obtain ⟨-,-,-,hcounted⟩ := countOp_ok_iff.mp hcount
  rw [if_neg (by omega)] at hcounted
  obtain rfl : counted=s := hcounted
  unfold dispatch at hdispatch
  by_cases hpush : i.opcode≤OP_PUSHDATA4
  · rw [if_pos ⟨hexec,hpush⟩] at hdispatch
    simp only [Traced.result_bind,Traced.result_lift,Traced.result_pure,bind_ok,reject_ok,
      Except.ok.injEq] at hdispatch
    obtain ⟨-,-,rfl⟩ := hdispatch
    rw [Instr.pushed,if_pos hpush]
    exact ⟨rfl,fun hlt => absurd hpush (by omega)⟩
  · rw [if_neg (fun hboth => hpush hboth.2),if_pos (.inl hexec)] at hdispatch
    simp only [Traced.result_bind,Traced.result_lift,bind_ok,expect_ok] at hdispatch
    obtain ⟨op,hop,hexecute⟩ := hdispatch
    rw [hop,Instr.pushed,if_neg hpush]
    rw [ofCode_small hop hle] at hexecute
    simp only [execute,onStack,Traced.result_bind,Traced.result_lift,Traced.result_pure,bind_ok,
      Except.ok.injEq,exists_eq_left'] at hexecute
    exact ⟨hexecute.symm,fun _ => rfl⟩

/-- The encoding of a small number is no script with signatures. -/
theorem getSigOpCount_small {opcode : Nat} (hsome : (Op.ofCode opcode).isSome) (hle : opcode≤OP_16)
    (hlt : OP_PUSHDATA4<opcode) : getSigOpCount true (serialize ((opcode : Int)-(OP_1-1)))=0 := by
  have hall : ∀n≤OP_16,OP_PUSHDATA4<n → (Op.ofCode n).isSome →
      getSigOpCount true (serialize ((n : Int)-(OP_1-1)))=0 := by decide +kernel
  exact hall opcode hle hlt hsome

end Pushes

section Runs

variable {C : Context} {scriptSig scriptPubKey : List UInt8}

theorem evalLoop_asks (is : List (Option Instr)) {s : State} {lastOpcode : Nat}
    (htop : NumberOnTop lastOpcode s) :
    (evalLoop C is s).Asks (countSigOps true is lastOpcode) fun _ => True := by
  induction is generalizing s lastOpcode with
  | nil => exact .pure trivial
  | cons i is ih =>
    cases i with
    | none => exact .of fun _ _ => trivial
    | some i => exact (step_asks htop).bind fun next hnext => ih hnext

theorem evalScript_asks (stack : List Valtype) :
    (evalScript C stack).Asks (getSigOpCount true C.script) fun _ => True := by
  have htop : NumberOnTop OP_INVALIDOPCODE (State.start stack) :=
    fun _ _ h16 => absurd h16 (by decide)
  refine .bind_lift fun _ _ => (evalLoop_asks _ htop).bind (k:=0) fun _ _ => ?_
  exact .bind_lift fun _ _ => .pure trivial

theorem evaluate_asks (script : List UInt8) (stack : List Valtype) :
    (evaluate C script stack).asked.length≤getSigOpCount true script :=
  (evalScript_asks (C:={C with script}) stack).1

theorem scriptSigStack_asks :
    (scriptSigStack C scriptSig scriptPubKey).asked.length≤getSigOpCount false scriptSig := by
  unfold scriptSigStack
  split
  · exact Nat.zero_le _
  · exact (evaluate_asks scriptSig []).trans (countSigOps_le true _ _)

/-- Pushes leave on top what the count for a script hash looks at, or a number, which is no
script with signatures. -/
theorem evalLoop_lastPush (is : List (Option Instr)) {s s' : State} {data redeem : Valtype}
    (hexec : s.vfExec=[])
    (htop : ∀top,s.stack.head?=some top → getSigOpCount true top≤getSigOpCount true data)
    (hpush : lastPush is data=some redeem) (h : (evalLoop C is s).result=.ok s') :
    ∀top,s'.stack.head?=some top → getSigOpCount true top≤getSigOpCount true redeem := by
  induction is generalizing s data with
  | nil =>
    rw [← Except.ok.inj h,← Option.some.inj hpush]
    exact htop
  | cons i is ih =>
    cases i with
    | none => cases h
    | some i =>
      rw [lastPush] at hpush
      split at hpush
      · cases hpush
      rename_i hle
      rw [evalLoop,Traced.result_bind,bind_ok] at h
      obtain ⟨next,hstep,hrest⟩ := h
      obtain ⟨rfl,hsome⟩ := step_pushes (by omega) (by simp [State.fExec,hexec]) hstep
      refine ih (s:={s with stack := i.pushed::s.stack}) hexec (fun top hhead => ?_) hpush hrest
      obtain rfl := Option.some.inj hhead
      rw [Instr.pushed]
      split
      · exact le_refl _
      · rw [getSigOpCount_small (hsome (by omega)) (by omega) (by omega)]
        exact Nat.zero_le _

theorem lastPush_of_isPushOnly (is : List (Option Instr)) (data : Valtype)
    (h : (is.all fun
      | none => false
      | some i => i.opcode≤OP_16)=true) : ∃redeem,lastPush is data=some redeem := by
  induction is generalizing data with
  | nil => exact ⟨data,rfl⟩
  | cons i is ih =>
    rw [List.all_cons,Bool.and_eq_true] at h
    cases i with
    | none => cases h.1
    | some i =>
      have hle : i.opcode≤OP_16 := of_decide_eq_true h.1
      rw [lastPush,if_neg (by omega)]
      exact ih _ h.2

/-- A script hash is no crypto-condition. -/
theorem not_isPayToCryptoCondition (h : isPayToScriptHash scriptPubKey=true) :
    isPayToCryptoCondition scriptPubKey=false := by
  cases scriptPubKey with
  | nil => cases h
  | cons b pc =>
    simp only [isPayToScriptHash,Bool.and_eq_true,decide_eq_true_eq] at h
    obtain rfl : b=0xa9 := h.1.1.2
    have hop : getOp (0xa9::pc)=some (0xa9,[],pc) := rfl
    rw [isPayToCryptoCondition,readOps_some hop]
    split
    · rename_i heq
      obtain ⟨hi,-⟩ := List.cons.inj heq
      obtain rfl := Option.some.inj hi
      rfl
    · rfl

theorem evalRedeem_asks {stackCopy : List Valtype} (h : isPayToScriptHash scriptPubKey=true)
    (hstack : (scriptSigStack C scriptSig scriptPubKey).result=.ok stackCopy) :
    (evalRedeem C scriptSig stackCopy).Asks (getSigOpCountSpent scriptPubKey scriptSig)
      fun _ => True := by
  refine .bind_lift fun _ hpush => ?_
  cases stackCopy with
  | nil => exact (Traced.Asks.of fun _ _ => trivial).mono (Nat.zero_le _) fun _ h => h
  | cons top stack =>
    have hpushOnly : isPushOnly scriptSig=true := by simpa using reject_ok.mp hpush
    obtain ⟨redeem,hredeem⟩ := lastPush_of_isPushOnly _ [] hpushOnly
    rw [scriptSigStack,not_isPayToCryptoCondition h,Bool.and_false,if_neg Bool.false_ne_true,
      evaluate_ok_iff] at hstack
    obtain ⟨-,s,hloop,-,hs⟩ := evalScript_ok_iff.mp hstack
    have hle : getSigOpCount true top≤getSigOpCount true redeem :=
      evalLoop_lastPush _ rfl (fun _ hhead => by cases hhead) hredeem hloop top (by rw [hs]; rfl)
    have hcount : getSigOpCountSpent scriptPubKey scriptSig=getSigOpCount true redeem := by
      rw [getSigOpCountSpent,h,hredeem]
      rfl
    rw [hcount]
    have hasks : (evaluate C top stack).Asks (getSigOpCount true redeem) fun _ => True :=
      ⟨(evaluate_asks top stack).trans hle,fun _ _ => trivial⟩
    exact hasks.bind (k:=0) fun _ _ => .bind_lift fun _ _ => .pure trivial

/-- The check of a signature is the costly part of verifying scripts, and blocks are limited by
a count of the opcodes that is made without running them. `VerifyScript` never asks for more
signatures than the counts of its scripts allow, whether it succeeds or not. -/
theorem verifyScript_asks (C : Context) (scriptSig scriptPubKey : List UInt8) :
    (verifyScript C scriptSig scriptPubKey).asked.length≤
      getSigOpCount false scriptSig+getSigOpCount false scriptPubKey+
        (if C.flags.has SCRIPT_VERIFY_P2SH && isPayToScriptHash scriptPubKey then
          getSigOpCountSpent scriptPubKey scriptSig else 0) := by
  have hsig : (scriptSigStack C scriptSig scriptPubKey).Asks (getSigOpCount false scriptSig)
      fun stack => (scriptSigStack C scriptSig scriptPubKey).result=.ok stack :=
    ⟨scriptSigStack_asks,fun _ h => h⟩
  have hkey (stack : List Valtype) :
      (evaluate C scriptPubKey stack).Asks (getSigOpCount false scriptPubKey) fun _ => True :=
    ⟨(evaluate_asks scriptPubKey stack).trans (countSigOps_le true _ _),fun _ _ => trivial⟩
  have htotal : (verifyScript C scriptSig scriptPubKey).Asks
      (getSigOpCount false scriptSig+(getSigOpCount false scriptPubKey+
        ((if C.flags.has SCRIPT_VERIFY_P2SH && isPayToScriptHash scriptPubKey then
          getSigOpCountSpent scriptPubKey scriptSig else 0)+0))) fun _ => True := by
    refine .bind_lift fun _ _ => hsig.bind fun stackCopy hstack => ?_
    refine (hkey stackCopy).bind fun stack _ => .bind_lift fun _ _ => ?_
    refine Traced.Asks.bind (G:=fun _ => True) ?_ fun stack _ => ?_
    · unfold finalStack
      split
      · rename_i hcond
        exact evalRedeem_asks (Bool.and_eq_true_iff.mp hcond).2 hstack
      · exact .pure trivial
    · split
      · exact .bind_lift fun _ _ => .lift fun _ _ => trivial
      · exact .pure trivial
  exact htotal.1.trans (by omega)

end Runs

end Zdeex.Script
