import Mathlib.Algebra.Order.BigOperators.Group.List
import Zdeex.Script.Standard

namespace Zdeex.Script

open Zdeex.Framework

section Steps

variable {C : Context} {stack stack' : List Valtype} {k : Nat} {s' : State} {i : Instr}
  {is : List (Option Instr)}

/-- A state with nothing but a stack. -/
def State.holding (stack : List Valtype) (k : Nat) : State := ⟨stack,[],[],k⟩

theorem evalLoop_cons_iff {s : State} : (evalLoop C (some i::is) s).result=.ok s' ↔
    ∃s₁,(step C i s).result=.ok s₁ ∧ (evalLoop C is s₁).result=.ok s' := by
  rw [evalLoop_some,Traced.result_bind,bind_ok]

/-- Every push is minimal, where that is asked for. -/
def PushesMinimal (C : Context) (is : List Instr) : Prop :=
  C.flags.has SCRIPT_VERIFY_MINIMALDATA=true → ∀i∈is,i.Minimal

theorem step_push_iff (hi : i.opcode≤OP_PUSHDATA4)
    (hlen : i.vchPushValue.length≤MAX_SCRIPT_ELEMENT_SIZE) :
    (step C i (.holding stack k)).result=.ok s' ↔
      (C.flags.has SCRIPT_VERIFY_MINIMALDATA=true → i.Minimal) ∧ stack.length<1000 ∧
        s'=.holding (i.vchPushValue::stack) k := by
  have hcodes : OP_PUSHDATA4=78 ∧ OP_16=96 := ⟨rfl,rfl⟩
  have hdisabled : i.opcode∉disabledOpcodes := by
    intro hmem
    have hall : ∀c∈disabledOpcodes,OP_PUSHDATA4<c := by decide
    have hlt := hall _ hmem
    omega
  have hcount : countOp i (.holding stack k)=.ok (.holding stack k) := by
    rw [countOp_ok_iff,if_neg (by omega)]
    exact ⟨hlen,fun hlt => by omega,hdisabled,rfl⟩
  rw [step_ok_iff]
  simp only [hcount,Except.ok.injEq,exists_eq_left',dispatch]
  rw [if_pos ⟨rfl,hi⟩]
  simp only [Traced.result_bind,Traced.result_lift,Traced.result_pure,bind_ok,reject_ok,
    Except.ok.injEq,Bool.and_eq_true,Bool.not_eq_true',not_and,Bool.not_eq_false]
  constructor
  · rintro ⟨⟨-,hminimal,rfl⟩,hheight⟩
    simp only [State.holding,List.length_cons,List.length_nil] at hheight
    exact ⟨fun hflag _ => hminimal hflag,by omega,rfl⟩
  · rintro ⟨hminimal,hheight,rfl⟩
    refine ⟨⟨(),fun hflag => hminimal hflag hi,rfl⟩,?_⟩
    simp only [State.holding,List.length_cons,List.length_nil]
    omega

/-- Any other opcode, as long as not too many were counted. -/
theorem step_op_iff {opcode : Nat} {op : Op} (hop : Op.ofCode opcode=some op)
    (hcode : OP_16<opcode) (hdisabled : opcode∉disabledOpcodes) (hk : k<201) :
    (step C (bare opcode) (.holding stack k)).result=.ok s' ↔
      (execute C op (.holding stack (k+1))).result=.ok s' ∧
        s'.stack.length+s'.altstack.length≤1000 := by
  have hcodes : OP_PUSHDATA4=78 ∧ OP_16=96 := ⟨rfl,rfl⟩
  have hcount : countOp (bare opcode) (.holding stack k)=.ok (.holding stack (k+1)) := by
    have hcode' : OP_16<(bare opcode).opcode := hcode
    rw [countOp_ok_iff,if_pos hcode']
    exact ⟨Nat.zero_le _,fun _ => hk,hdisabled,rfl⟩
  have hnot : ¬((State.holding stack (k+1)).fExec ∧ (bare opcode).opcode≤OP_PUSHDATA4) := by
    rintro ⟨-,hle⟩
    have hopcode : (bare opcode).opcode=opcode := rfl
    omega
  rw [step_ok_iff]
  simp only [hcount,Except.ok.injEq,exists_eq_left',dispatch]
  have hexec : (State.holding stack (k+1)).fExec=true := rfl
  rw [if_neg hnot,if_pos (Or.inl hexec)]
  have hfound : Op.ofCode (bare opcode).opcode=some op := hop
  simp only [hfound,expect,Traced.lift_ok_bind]

theorem step_plain_iff {opcode : Nat} {op : PlainOp} (hop : Op.ofCode opcode=some (.plain op))
    (hcode : OP_16<opcode) (hdisabled : opcode∉disabledOpcodes) (hk : k<201) :
    (step C (bare opcode) (.holding stack k)).result=.ok s' ↔
      ∃stack',onStack C op stack=.ok stack' ∧ stack'.length≤1000 ∧ s'=.holding stack' (k+1) := by
  rw [step_op_iff hop hcode hdisabled hk]
  simp only [execute,Traced.result_bind,Traced.result_lift,Traced.result_pure,bind_ok,
    Except.ok.injEq]
  constructor
  · rintro ⟨⟨stack',hstack,rfl⟩,hheight⟩
    exact ⟨stack',hstack,hheight,rfl⟩
  · rintro ⟨stack',hstack,hheight,rfl⟩
    exact ⟨⟨stack',hstack,rfl⟩,hheight⟩

theorem step_checkSig_iff (hk : k<201) :
    (step C (bare OP_CHECKSIG) (.holding stack k)).result=.ok s' ↔
      ∃vchPubKey vchSig below b,stack=vchPubKey::vchSig::below ∧
        (checkOneSig C vchSig vchPubKey).result=.ok b ∧ below.length<1000 ∧
        s'=.holding (vchBool b::below) (k+1) := by
  have hop : Op.ofCode OP_CHECKSIG=some .OP_CHECKSIG := rfl
  rw [step_op_iff hop (by decide) (by decide) hk]
  simp only [execute,Traced.result_bind,Traced.result_pure,bind_ok,Except.ok.injEq]
  rcases stack with _ | ⟨vchPubKey,_ | ⟨vchSig,below⟩⟩
  · simp [State.holding,checkSig]
  · simp [State.holding,checkSig]
  · simp only [State.holding,checkSig,Traced.result_bind,Traced.result_lift,bind_ok,answer_none]
    constructor
    · rintro ⟨⟨stack',⟨b,hb,rfl⟩,rfl⟩,hheight⟩
      simp only [List.length_cons,List.length_nil] at hheight
      exact ⟨vchPubKey,vchSig,below,b,rfl,hb,by omega,rfl⟩
    · rintro ⟨key,sig,below',b,hstack,hb,hheight,rfl⟩
      simp only [List.cons.injEq] at hstack
      obtain ⟨rfl,rfl,rfl⟩ := hstack
      refine ⟨⟨_,⟨b,hb,rfl⟩,rfl⟩,?_⟩
      simp only [List.length_cons,List.length_nil]
      omega

/-- OP_1 to OP_16. -/
theorem step_small_iff (hi : i.isSmallInteger=true) (hpos : 1≤decodeOP_N i.opcode)
    (hbare : i.Bare) :
    (step C i (.holding stack k)).result=.ok s' ↔ stack.length<1000 ∧
      s'=.holding (serialize (decodeOP_N i.opcode : Int)::stack) k := by
  have hcodes : OP_0=0 ∧ OP_1=81 ∧ OP_16=96 ∧ OP_PUSHDATA4=78 := ⟨rfl,rfl,rfl,rfl⟩
  have hne : i.opcode≠OP_0 := by
    intro hzero
    rw [decodeOP_N,if_pos hzero] at hpos
    omega
  have hrange : OP_1 ≤ i.opcode ∧ i.opcode≤OP_16 := by
    simpa [Instr.isSmallInteger,hne] using hi
  have hvalue : ((i.opcode : Int)-(OP_1-1))=(decodeOP_N i.opcode : Int) := by
    rw [decodeOP_N,if_neg hne]
    omega
  have hdisabled : i.opcode∉disabledOpcodes := by
    intro hmem
    have hall : ∀c∈disabledOpcodes,OP_16<c := by decide
    have hlt := hall _ hmem
    omega
  have hempty : i.vchPushValue=[] := hbare (by omega)
  have hcount : countOp i (.holding stack k)=.ok (.holding stack k) := by
    rw [countOp_ok_iff,if_neg (by omega),hempty]
    exact ⟨Nat.zero_le _,fun hlt => by omega,hdisabled,rfl⟩
  have hnot : ¬((State.holding stack k).fExec ∧ i.opcode≤OP_PUSHDATA4) := by
    rintro ⟨-,hle⟩
    omega
  have hop : Op.ofCode i.opcode=some (.plain (.number (decodeOP_N i.opcode))) := by
    rw [Op.ofCode,if_pos (Or.inr hrange),hvalue]
  rw [step_ok_iff]
  simp only [hcount,Except.ok.injEq,exists_eq_left',dispatch]
  have hexec : (State.holding stack k).fExec=true := rfl
  rw [if_neg hnot,if_pos (Or.inl hexec)]
  simp only [hop,expect,Traced.lift_ok_bind,execute,onStack,Traced.result_pure,Except.ok.injEq]
  constructor
  · rintro ⟨rfl,hheight⟩
    simp only [State.holding,List.length_cons,List.length_nil] at hheight
    exact ⟨by omega,rfl⟩
  · rintro ⟨hheight,rfl⟩
    refine ⟨rfl,?_⟩
    simp only [State.holding,List.length_cons,List.length_nil]
    omega

end Steps

section Opcodes

variable {C : Context} {stack stack' : List Valtype}

theorem onStack_dup_iff : onStack C (.shuffle .OP_DUP) stack=.ok stack' ↔
    ∃x below,stack=x::below ∧ stack'=x::x::below := by
  cases stack <;> simp [onStack,shuffle,expect,eq_comm]

theorem onStack_hash_iff {op : HashOp} : onStack C (.hash op) stack=.ok stack' ↔
    ∃x below,stack=x::below ∧ stack'=hash C op x::below := by
  cases stack <;> simp [onStack,eq_comm]

theorem onStack_equalVerify_iff : onStack C .OP_EQUALVERIFY stack=.ok stack' ↔
    ∃x below,stack=x::x::below ∧ stack'=below := by
  rcases stack with _ | ⟨x,_ | ⟨y,below⟩⟩
  · simp [onStack]
  · simp [onStack]
  · simp only [onStack,answer_some,decide_eq_true_eq]
    constructor
    · rintro ⟨rfl,rfl⟩
      exact ⟨y,_,rfl,rfl⟩
    · rintro ⟨z,below',hstack,rfl⟩
      simp only [List.cons.injEq] at hstack
      obtain ⟨rfl,rfl,rfl⟩ := hstack
      exact ⟨rfl,rfl⟩

theorem onStack_equal_iff : onStack C .OP_EQUAL stack=.ok stack' ↔
    ∃x y below,stack=y::x::below ∧ stack'=vchBool (x=y)::below := by
  rcases stack with _ | ⟨y,_ | ⟨x,below⟩⟩
  · simp [onStack]
  · simp [onStack]
  · simp [onStack,answer_none]

variable {k : Nat} {s' : State} (hk : k<201)

include hk

theorem step_dup_iff : (step C (bare OP_DUP) (.holding stack k)).result=.ok s' ↔
    ∃x below,stack=x::below ∧ below.length+2≤1000 ∧ s'=.holding (x::x::below) (k+1) := by
  have hop : Op.ofCode OP_DUP=some (.plain (.shuffle .OP_DUP)) := rfl
  simp only [step_plain_iff hop (by decide) (by decide) hk,onStack_dup_iff]
  constructor
  · rintro ⟨_,⟨x,below,rfl,rfl⟩,hheight,rfl⟩
    exact ⟨x,below,rfl,hheight,rfl⟩
  · rintro ⟨x,below,rfl,hheight,rfl⟩
    exact ⟨_,⟨x,below,rfl,rfl⟩,hheight,rfl⟩

theorem step_hash160_iff : (step C (bare OP_HASH160) (.holding stack k)).result=.ok s' ↔
    ∃x below,stack=x::below ∧ below.length+1≤1000 ∧
      s'=.holding (hash C .OP_HASH160 x::below) (k+1) := by
  have hop : Op.ofCode OP_HASH160=some (.plain (.hash .OP_HASH160)) := rfl
  simp only [step_plain_iff hop (by decide) (by decide) hk,onStack_hash_iff]
  constructor
  · rintro ⟨_,⟨x,below,rfl,rfl⟩,hheight,rfl⟩
    exact ⟨x,below,rfl,hheight,rfl⟩
  · rintro ⟨x,below,rfl,hheight,rfl⟩
    exact ⟨_,⟨x,below,rfl,rfl⟩,hheight,rfl⟩

theorem step_equalVerify_iff :
    (step C (bare OP_EQUALVERIFY) (.holding stack k)).result=.ok s' ↔
      ∃x below,stack=x::x::below ∧ below.length≤1000 ∧ s'=.holding below (k+1) := by
  have hop : Op.ofCode OP_EQUALVERIFY=some (.plain .OP_EQUALVERIFY) := rfl
  simp only [step_plain_iff hop (by decide) (by decide) hk,onStack_equalVerify_iff]
  constructor
  · rintro ⟨_,⟨x,below,rfl,rfl⟩,hheight,rfl⟩
    exact ⟨x,_,rfl,hheight,rfl⟩
  · rintro ⟨x,below,rfl,hheight,rfl⟩
    exact ⟨_,⟨x,below,rfl,rfl⟩,hheight,rfl⟩

theorem step_equal_iff : (step C (bare OP_EQUAL) (.holding stack k)).result=.ok s' ↔
    ∃x y below,stack=y::x::below ∧ below.length+1≤1000 ∧
      s'=.holding (vchBool (x=y)::below) (k+1) := by
  have hop : Op.ofCode OP_EQUAL=some (.plain .OP_EQUAL) := rfl
  simp only [step_plain_iff hop (by decide) (by decide) hk,onStack_equal_iff]
  constructor
  · rintro ⟨_,⟨x,y,below,rfl,rfl⟩,hheight,rfl⟩
    exact ⟨x,y,below,rfl,hheight,rfl⟩
  · rintro ⟨x,y,below,rfl,hheight,rfl⟩
    exact ⟨_,⟨x,y,below,rfl,rfl⟩,hheight,rfl⟩

omit hk

theorem topTrue_vchBool {b : Bool} : TopTrue (vchBool b::stack) ↔ b=true := by
  cases b with
  | true => exact ⟨fun _ => rfl,fun _ => ⟨_,_,rfl,rfl⟩⟩
  | false =>
    constructor
    · rintro ⟨top,below,hstack,htop⟩
      obtain ⟨rfl,-⟩ := List.cons.inj hstack
      cases htop
    · intro h
      cases h

theorem minimal_bare {opcode : Nat} (h : OP_PUSHDATA4<opcode) : (bare opcode).Minimal :=
  fun hle => absurd hle (by simpa [bare] using h)

end Opcodes

section Runs

variable {C : Context} {stack : List Valtype} {s' : State}

theorem evalLoop_nil_iff {s : State} : (evalLoop C [] s).result=.ok s' ↔ s=s' := by
  rw [evalLoop,Traced.result_pure,Except.ok.injEq]

/-- A signature by a key, with the one below it on the stack. -/
def Signs (C : Context) (vchSig vchPubKey : Valtype) : Prop :=
  (checkOneSig C vchSig vchPubKey).result=.ok true

/-- What spends an output of a standard type: from which stack, and what it leaves. -/
inductive Spends (C : Context) :
    TxNOutType → List Valtype → List Valtype → List Valtype → Prop
  | pubKey {key sig : Valtype} {below : List Valtype} :
      Signs C sig key → below.length+2≤1000 →
      Spends C .TX_PUBKEY [key] (sig::below) (vchTrue::below)
  | pubKeyHash {key sig : Valtype} {below : List Valtype} :
      Signs C sig key → below.length+4≤1000 →
      Spends C .TX_PUBKEYHASH [hash C .OP_HASH160 key] (key::sig::below) (vchTrue::below)
  | scriptHash {redeem : Valtype} {below : List Valtype} : below.length+2≤1000 →
      Spends C .TX_SCRIPTHASH [hash C .OP_HASH160 redeem] (redeem::below) (vchTrue::below)
  | multisig {keys sigs : List Valtype} {dummy : Valtype} {below : List Valtype} :
      MatchedInOrder (Verifies C) sigs keys.reverse → EncodedAlong C sigs keys.reverse →
      (C.flags.has SCRIPT_VERIFY_NULLDUMMY=true → dummy=[]) →
      below.length+1+sigs.length+keys.length+2≤1000 →
      Spends C .TX_MULTISIG
        ([UInt8.ofNat sigs.length]::(keys++[[UInt8.ofNat keys.length]]))
        (sigs++dummy::below) (vchTrue::below)

theorem isPubKey_push {i : Instr} (h : i.isPubKey=true) (hbare : i.Bare) :
    i.opcode≤OP_PUSHDATA4 ∧ i.vchPushValue.length≤MAX_SCRIPT_ELEMENT_SIZE := by
  simp only [Instr.isPubKey,Bool.and_eq_true,decide_eq_true_eq] at h
  have hmax : MAX_SCRIPT_ELEMENT_SIZE=520 := rfl
  refine ⟨?_,by omega⟩
  by_contra hlt
  rw [hbare (by omega)] at h
  simp at h

theorem hash_push {i : Instr} (h : i.vchPushValue.length=20) (hbare : i.Bare) :
    i.opcode≤OP_PUSHDATA4 ∧ i.vchPushValue.length≤MAX_SCRIPT_ELEMENT_SIZE := by
  have hmax : MAX_SCRIPT_ELEMENT_SIZE=520 := rfl
  refine ⟨?_,by omega⟩
  by_contra hlt
  rw [hbare (by omega)] at h
  cases h

/-- Evaluation that always ends with an answer succeeds where the answer is true. -/
theorem answered_iff {is : List (Option Instr)} {stack' : List Valtype} {k : Nat} {P : Prop}
    {Q : Bool → List Valtype → Prop}
    (h : ∀s',(evalLoop C is (State.holding stack 0)).result=.ok s' ↔
      P ∧ ∃b below,Q b below ∧ s'=.holding (vchBool b::below) k) :
    (∃s,(evalLoop C is (State.holding stack 0)).result=.ok s ∧ s.vfExec=[] ∧ s.stack=stack') ∧
        TopTrue stack' ↔
      P ∧ ∃below,Q true below ∧ stack'=vchTrue::below := by
  constructor
  · rintro ⟨⟨s,hrun,-,rfl⟩,htop⟩
    obtain ⟨hP,b,below,hQ,rfl⟩ := (h s).mp hrun
    obtain rfl := topTrue_vchBool.mp htop
    exact ⟨hP,below,hQ,rfl⟩
  · rintro ⟨hP,below,hQ,rfl⟩
    exact ⟨⟨.holding (vchTrue::below) k,(h _).mpr ⟨hP,true,below,hQ,rfl⟩,rfl,rfl⟩,
      topTrue_vchBool.mpr rfl⟩

theorem run_pubKey {key : Instr} (hkey : key.isPubKey=true) (hbare : key.Bare) :
    (evalLoop C [some key,some (bare OP_CHECKSIG)] (.holding stack 0)).result=.ok s' ↔
      (C.flags.has SCRIPT_VERIFY_MINIMALDATA=true → key.Minimal) ∧
        ∃b below,(∃sig,stack=sig::below ∧
          (checkOneSig C sig key.vchPushValue).result=.ok b ∧ below.length+2≤1000) ∧
          s'=.holding (vchBool b::below) 1 := by
  obtain ⟨hle,hlen⟩ := isPubKey_push hkey hbare
  simp only [evalLoop_cons_iff,step_push_iff hle hlen]
  constructor
  · rintro ⟨s₁,⟨hminimal,hheight,rfl⟩,s₂,hsig,hnil⟩
    obtain ⟨vchPubKey,sig,below,b,hstack,hone,-,rfl⟩ := (step_checkSig_iff (by omega)).mp hsig
    obtain rfl := evalLoop_nil_iff.mp hnil
    obtain ⟨rfl,rfl⟩ := List.cons.inj hstack
    rw [List.length_cons] at hheight
    exact ⟨hminimal,b,below,⟨sig,rfl,hone,by omega⟩,rfl⟩
  · rintro ⟨hminimal,b,below,⟨sig,rfl,hone,hheight⟩,rfl⟩
    refine ⟨_,⟨hminimal,by rw [List.length_cons]; omega,rfl⟩,_,?_,evalLoop_nil_iff.mpr rfl⟩
    exact (step_checkSig_iff (by omega)).mpr ⟨_,_,_,b,rfl,hone,by omega,rfl⟩

theorem run_pubKeyHash {keyHash : Instr} (hkey : keyHash.vchPushValue.length=20)
    (hbare : keyHash.Bare) :
    (evalLoop C [some (bare OP_DUP),some (bare OP_HASH160),some keyHash,
        some (bare OP_EQUALVERIFY),some (bare OP_CHECKSIG)] (.holding stack 0)).result=.ok s' ↔
      (C.flags.has SCRIPT_VERIFY_MINIMALDATA=true → keyHash.Minimal) ∧
        ∃b below,(∃key sig,stack=key::sig::below ∧ keyHash.vchPushValue=hash C .OP_HASH160 key ∧
          (checkOneSig C sig key).result=.ok b ∧ below.length+4≤1000) ∧
          s'=.holding (vchBool b::below) 4 := by
  obtain ⟨hle,hlen⟩ := hash_push hkey hbare
  simp only [evalLoop_cons_iff]
  constructor
  · rintro ⟨s₁,hdup,s₂,hhash,s₃,hpush,s₄,hequal,s₅,hsig,hnil⟩
    obtain ⟨key,below₁,rfl,-,rfl⟩ := (step_dup_iff (by omega)).mp hdup
    obtain ⟨x,below₂,hstack₂,-,rfl⟩ := (step_hash160_iff (by omega)).mp hhash
    obtain ⟨rfl,rfl⟩ := List.cons.inj hstack₂
    obtain ⟨hminimal,hheight,rfl⟩ := (step_push_iff hle hlen).mp hpush
    obtain ⟨y,below₃,hstack₃,-,rfl⟩ := (step_equalVerify_iff (by omega)).mp hequal
    simp only [List.cons.injEq] at hstack₃
    obtain ⟨hsame,rfl,rfl⟩ := hstack₃
    obtain ⟨vchPubKey,sig,below,b,hstack,hone,-,rfl⟩ := (step_checkSig_iff (by omega)).mp hsig
    obtain rfl := evalLoop_nil_iff.mp hnil
    obtain ⟨rfl,rfl⟩ := List.cons.inj hstack
    simp only [List.length_cons] at hheight
    exact ⟨hminimal,b,below,⟨key,sig,rfl,hsame,hone,by omega⟩,rfl⟩
  · rintro ⟨hminimal,b,below,⟨key,sig,rfl,hsame,hone,hheight⟩,rfl⟩
    refine ⟨_,(step_dup_iff (by omega)).mpr ⟨key,sig::below,rfl,?_,rfl⟩,
      _,(step_hash160_iff (by omega)).mpr ⟨key,key::sig::below,rfl,?_,rfl⟩,
      _,(step_push_iff hle hlen).mpr ⟨hminimal,?_,rfl⟩,
      _,(step_equalVerify_iff (by omega)).mpr ⟨_,key::sig::below,by rw [hsame],?_,rfl⟩,
      _,(step_checkSig_iff (by omega)).mpr ⟨_,_,_,b,rfl,hone,by omega,rfl⟩,
      evalLoop_nil_iff.mpr rfl⟩
    all_goals
      simp only [List.length_cons]
      omega

theorem run_scriptHash {scriptHash : Instr} (hkey : scriptHash.vchPushValue.length=20)
    (hbare : scriptHash.Bare) :
    (evalLoop C [some (bare OP_HASH160),some scriptHash,some (bare OP_EQUAL)]
        (.holding stack 0)).result=.ok s' ↔
      (C.flags.has SCRIPT_VERIFY_MINIMALDATA=true → scriptHash.Minimal) ∧
        ∃b below,(∃redeem,stack=redeem::below ∧
          b=decide (hash C .OP_HASH160 redeem=scriptHash.vchPushValue) ∧ below.length+2≤1000) ∧
          s'=.holding (vchBool b::below) 2 := by
  obtain ⟨hle,hlen⟩ := hash_push hkey hbare
  simp only [evalLoop_cons_iff]
  constructor
  · rintro ⟨s₁,hhash,s₂,hpush,s₃,hequal,hnil⟩
    obtain ⟨redeem,below₁,rfl,-,rfl⟩ := (step_hash160_iff (by omega)).mp hhash
    obtain ⟨hminimal,hheight,rfl⟩ := (step_push_iff hle hlen).mp hpush
    obtain ⟨x,y,below,hstack,-,rfl⟩ := (step_equal_iff (by omega)).mp hequal
    obtain rfl := evalLoop_nil_iff.mp hnil
    simp only [List.cons.injEq] at hstack
    obtain ⟨rfl,rfl,rfl⟩ := hstack
    simp only [List.length_cons] at hheight
    exact ⟨hminimal,_,_,⟨redeem,rfl,rfl,by omega⟩,rfl⟩
  · rintro ⟨hminimal,b,below,⟨redeem,rfl,rfl,hheight⟩,rfl⟩
    refine ⟨_,(step_hash160_iff (by omega)).mpr ⟨redeem,below,rfl,by omega,rfl⟩,
      _,(step_push_iff hle hlen).mpr ⟨hminimal,?_,rfl⟩,
      _,(step_equal_iff (by omega)).mpr ⟨_,_,below,rfl,by omega,rfl⟩,evalLoop_nil_iff.mpr rfl⟩
    simp only [List.length_cons]
    omega

theorem run_keys {keys : List Instr} (hkeys : ∀key∈keys,key.isPubKey=true ∧ key.Bare)
    {is : List (Option Instr)} {k : Nat} (hheight : stack.length≤1000) :
    (evalLoop C (keys.map some++is) (.holding stack k)).result=.ok s' ↔
      PushesMinimal C keys ∧ stack.length+keys.length≤1000 ∧
        (evalLoop C is (.holding ((keys.map Instr.vchPushValue).reverse++stack) k)).result=
          .ok s' := by
  induction keys generalizing stack with
  | nil => simp [PushesMinimal,hheight]
  | cons key keys ih =>
    obtain ⟨hkey,hrest⟩ := List.forall_mem_cons.mp hkeys
    obtain ⟨hle,hlen⟩ := isPubKey_push hkey.1 hkey.2
    have hstack : ((key::keys).map Instr.vchPushValue).reverse++stack=
        (keys.map Instr.vchPushValue).reverse++(key.vchPushValue::stack) := by simp
    rw [List.map_cons,List.cons_append,evalLoop_cons_iff,hstack]
    simp only [step_push_iff hle hlen]
    constructor
    · rintro ⟨_,⟨hminimal,hlt,rfl⟩,hrun⟩
      obtain ⟨hall,hsum,hrun⟩ := (ih hrest (by rw [List.length_cons]; omega)).mp hrun
      rw [List.length_cons] at hsum ⊢
      exact ⟨fun hflag => List.forall_mem_cons.mpr ⟨hminimal hflag,hall hflag⟩,by omega,hrun⟩
    · rintro ⟨hall,hsum,hrun⟩
      rw [List.length_cons] at hsum
      refine ⟨_,⟨fun hflag => hall hflag key List.mem_cons_self,by omega,rfl⟩,?_⟩
      refine (ih hrest (by rw [List.length_cons]; omega)).mpr ⟨fun hflag i hi => ?_,?_,hrun⟩
      · exact hall hflag i (List.mem_cons_of_mem _ hi)
      · rw [List.length_cons]
        omega

theorem number_small {n : Nat} (hn : n≤16) :
    number C (serialize (n : Int)) nDefaultMaxNumSize=.ok (n : Int) := by
  refine number_serialize C (by decide) ?_
  have hpow : 2^(8*nDefaultMaxNumSize-1)=2147483648 := rfl
  rw [hpow,Int.natAbs_natCast]
  omega

theorem arranged_iff {args : MultiSigArgs} {keys : List Valtype} {m k : Nat}
    (hm : m≤keys.length) (hkeys : keys.length≤16) (hk : k+keys.length≤201) :
    args.Arranged C
        (.holding (serialize (keys.length : Int)::(keys++serialize (m : Int)::stack)) k) ↔
      args.keys=keys ∧ args.sigs.length=m ∧ stack=args.sigs++args.dummy::args.below := by
  constructor
  · rintro ⟨⟨nKeys,nSigs,hstack,hn,hs⟩,-,-,-⟩
    obtain ⟨rfl,hbehind⟩ := List.cons.inj hstack
    rw [number_small hkeys,Except.ok.injEq,Int.natCast_inj] at hn
    obtain ⟨hsame,hsecond⟩ := List.append_inj hbehind hn
    obtain ⟨rfl,hbelow⟩ := List.cons.inj hsecond
    rw [number_small (hm.trans hkeys),Except.ok.injEq,Int.natCast_inj] at hs
    exact ⟨hsame.symm,hs.symm,hbelow⟩
  · rintro ⟨rfl,rfl,rfl⟩
    exact ⟨⟨_,_,rfl,number_small hkeys,number_small (hm.trans hkeys)⟩,hm,hkeys.trans (by decide),hk⟩

theorem checkMultiSig_args_iff {s : State} : (checkMultiSig C none s).result=.ok s' ↔
    ∃(args : MultiSigArgs) (b : Bool),args.Arranged C s ∧
      (multiSigLoop C args.sigs args.keys).result=.ok b ∧
      (C.flags.has SCRIPT_VERIFY_NULLDUMMY=true → args.dummy=[]) ∧
      s'={s with stack := vchBool b::args.below,nOpCount := s.nOpCount+args.keys.length} := by
  simp only [checkMultiSig,Traced.result_bind,Traced.result_lift,Traced.result_pure,bind_ok,
    reject_ok,answer_none,Except.ok.injEq,Bool.and_eq_true,decide_eq_true_eq,not_and,not_not,
    exists_eq_left]
  constructor
  · rintro ⟨args,hargs,b,hloop,-,hdummy,rfl⟩
    exact ⟨args,b,multiSigArgs_ok hargs,hloop,hdummy,rfl⟩
  · rintro ⟨args,b,hargs,hloop,hdummy,rfl⟩
    exact ⟨args,multiSigArgs_arranged hargs,b,hloop,(),hdummy,rfl⟩

theorem run_multisig {m n : Instr} {keys : List Instr}
    (hkeys : ∀key∈keys,key.isPubKey=true ∧ key.Bare) (hmSmall : m.isSmallInteger=true)
    (hnSmall : n.isSmallInteger=true) (hmBare : m.Bare) (hnBare : n.Bare)
    (hm : 1≤decodeOP_N m.opcode) (hmn : decodeOP_N m.opcode≤keys.length)
    (hn : decodeOP_N n.opcode=keys.length) :
    (evalLoop C (some m::(keys.map some++[some n,some (bare OP_CHECKMULTISIG)]))
        (.holding stack 0)).result=.ok s' ↔
      PushesMinimal C keys ∧
        ∃b below,(∃sigs dummy,stack=sigs++dummy::below ∧ sigs.length=decodeOP_N m.opcode ∧
          (multiSigLoop C sigs (keys.map Instr.vchPushValue).reverse).result=.ok b ∧
          (C.flags.has SCRIPT_VERIFY_NULLDUMMY=true → dummy=[]) ∧
          stack.length+keys.length+2≤1000) ∧
          s'=.holding (vchBool b::below) (1+keys.length) := by
  have h16 : keys.length≤16 := hn▸decodeOP_N_le hnSmall
  have hlen : (keys.map Instr.vchPushValue).reverse.length=keys.length := by simp
  have hop : Op.ofCode OP_CHECKMULTISIG=some .OP_CHECKMULTISIG := rfl
  have hargs (args : MultiSigArgs) : args.Arranged C (.holding (serialize (keys.length : Int)::
      ((keys.map Instr.vchPushValue).reverse++serialize (decodeOP_N m.opcode : Int)::stack)) 1) ↔
      args.keys=(keys.map Instr.vchPushValue).reverse ∧ args.sigs.length=decodeOP_N m.opcode ∧
        stack=args.sigs++args.dummy::args.below := by
    rw [← hlen]
    exact arranged_iff (by omega) (by omega) (by omega)
  rw [evalLoop_cons_iff]
  simp only [step_small_iff hmSmall hm hmBare]
  constructor
  · rintro ⟨_,⟨hlt,rfl⟩,hrun⟩
    obtain ⟨hminimal,hsum,hrun⟩ := (run_keys hkeys (by rw [List.length_cons]; omega)).mp hrun
    obtain ⟨s₂,hstep,hrun⟩ := evalLoop_cons_iff.mp hrun
    obtain ⟨hheight,rfl⟩ := (step_small_iff hnSmall (by omega) hnBare).mp hstep
    obtain ⟨s₃,hstep,hnil⟩ := evalLoop_cons_iff.mp hrun
    obtain ⟨hcheck,hheight'⟩ := (step_op_iff hop (by decide) (by decide) (by omega)).mp hstep
    obtain rfl := evalLoop_nil_iff.mp hnil
    rw [hn] at hcheck
    obtain ⟨args,b,harranged,hloop,hdummy,rfl⟩ := checkMultiSig_args_iff.mp hcheck
    obtain ⟨hk,hsigs,hstack⟩ := (hargs args).mp harranged
    rw [hk] at hloop
    simp only [List.length_append,List.length_cons,hlen] at hheight
    refine ⟨hminimal,b,args.below,⟨args.sigs,args.dummy,hstack,hsigs,hloop,hdummy,by omega⟩,?_⟩
    rw [hk,hlen]
    rfl
  · rintro ⟨hminimal,b,below,⟨sigs,dummy,hstack,hsigs,hloop,hdummy,hheight⟩,rfl⟩
    let args : MultiSigArgs := ⟨(keys.map Instr.vchPushValue).reverse,sigs,dummy,below⟩
    have hcheck : (checkMultiSig C none (.holding (serialize (keys.length : Int)::
        ((keys.map Instr.vchPushValue).reverse++serialize (decodeOP_N m.opcode : Int)::stack))
        1)).result=.ok (.holding (vchBool b::below) (1+keys.length)) := by
      refine checkMultiSig_args_iff.mpr
        ⟨args,b,(hargs args).mpr ⟨rfl,hsigs,hstack⟩,hloop,hdummy,?_⟩
      simp only [args,hlen]
      rfl
    have hbelow : below.length+1≤1000 := by
      rw [hstack] at hheight
      simp only [List.length_append,List.length_cons] at hheight
      omega
    have hlast := (step_op_iff hop (by decide) (by decide) (by omega)).mpr ⟨hcheck,hbelow⟩
    rw [← hn] at hlast
    have hsecond : (evalLoop C [some n,some (bare OP_CHECKMULTISIG)]
        (.holding ((keys.map Instr.vchPushValue).reverse++serialize (decodeOP_N m.opcode : Int)::
          stack) 0)).result=.ok (.holding (vchBool b::below) (1+decodeOP_N n.opcode)) := by
      refine evalLoop_cons_iff.mpr ⟨_,(step_small_iff hnSmall (by omega) hnBare).mpr ⟨?_,rfl⟩,
        evalLoop_cons_iff.mpr ⟨_,hlast,evalLoop_nil_iff.mpr rfl⟩⟩
      simp only [List.length_append,List.length_cons,hlen]
      omega
    rw [hn] at hsecond
    refine ⟨_,⟨by omega,rfl⟩,(run_keys hkeys ?_).mpr ⟨hminimal,?_,hsecond⟩⟩
    · rw [List.length_cons]
      omega
    · rw [List.length_cons]
      omega

end Runs

section Solved

variable {R : SolverRules} {C : Context} {t : TxNOutType} {vSolutions : List Valtype}
  {js : List Instr} {stack stack' : List Valtype}

theorem length_le_of_readOps {script : List UInt8} (h : readOps script=js.map some) :
    script.length≤(js.map fun i => i.vchPushValue.length+5).sum := by
  induction js generalizing script with
  | nil =>
    cases script with
    | nil => exact Nat.le_refl 0
    | cons b pc =>
      cases hop : getOp (b::pc) with
      | none => simp [readOps_none (List.cons_ne_nil b pc) hop] at h
      | some found => simp [readOps_some hop] at h
  | cons i js ih =>
    obtain ⟨rest,hop,hrest⟩ := readOps_eq_cons h
    have hle := ih hrest
    rw [List.map_cons,List.sum_cons]
    cases script with
    | nil => simp [getOp] at hop
    | cons b pc =>
      obtain ⟨-,hpc⟩ := getOp_eq_some.mp hop
      split at hpc
      · obtain ⟨len,rfl,hlen⟩ := hpc
        have hfour : len.length≤4 := by
          rw [Announces] at hlen
          split at hlen
          · simp [hlen.1]
          · rw [hlen.1]
            split
            · omega
            · split <;> omega
        simp only [List.length_cons,List.length_append]
        omega
      · rw [hpc.2,List.length_cons]
        omega

theorem isSmallInteger_empty {i : Instr} (h : i.isSmallInteger=true) (hpos : 1≤decodeOP_N i.opcode)
    (hbare : i.Bare) : i.vchPushValue=[] := by
  have hcodes : OP_0=0 ∧ OP_1=81 ∧ OP_16=96 ∧ OP_PUSHDATA4=78 := ⟨rfl,rfl,rfl,rfl⟩
  have hne : i.opcode≠OP_0 := by
    intro hzero
    rw [decodeOP_N,if_pos hzero] at hpos
    omega
  have hrange : OP_1 ≤ i.opcode ∧ i.opcode≤OP_16 := by
    simpa [Instr.isSmallInteger,hne] using h
  exact hbare (by omega)

/-- No standard script but one for data is near the limit of the size. -/
theorem Solved.short (hs : Solved t vSolutions js) (hbare : ∀i∈js,i.Bare)
    (ht : t≠.TX_NULL_DATA) :
    (js.map fun i => i.vchPushValue.length+5).sum≤MAX_SCRIPT_SIZE := by
  have hmax : MAX_SCRIPT_SIZE=10000 := rfl
  have hkeySize {i : Instr} (h : i.isPubKey=true) : i.vchPushValue.length≤65 := by
    simp only [Instr.isPubKey,Bool.and_eq_true,decide_eq_true_eq] at h
    exact h.2
  cases hs with
  | pubKey hkey =>
    have hsize := hkeySize hkey
    simp [bare]
    omega
  | pubKeyHash hkey =>
    simp [bare,hkey]
    omega
  | scriptHash hkey =>
    simp [bare,hkey]
    omega
  | @multisig m n keys hkeys hm hn h1 hmn hlen =>
    have hmEmpty := isSmallInteger_empty hm h1 (hbare m List.mem_cons_self)
    have hnEmpty := isSmallInteger_empty hn (by omega) (hbare n (by simp))
    have h16 : keys.length≤16 := hlen▸decodeOP_N_le hn
    have hsum : (keys.map fun i => i.vchPushValue.length+5).sum≤keys.length*70 := by
      have hle := List.sum_le_card_nsmul (keys.map fun i => i.vchPushValue.length+5) 70
      rw [List.length_map,nsmul_eq_mul,Nat.cast_id] at hle
      refine hle fun x hx => ?_
      obtain ⟨key,hkey,rfl⟩ := List.mem_map.mp hx
      have hsize := hkeySize (hkeys key hkey)
      omega
    simp only [List.map_cons,List.map_append,List.map_nil,List.sum_cons,List.sum_append,
      List.sum_nil,hmEmpty,hnEmpty,bare,List.length_nil]
    omega
  | nullData => exact absurd rfl ht

theorem minimal_small {i : Instr} (h : i.isSmallInteger=true) (hpos : 1≤decodeOP_N i.opcode) :
    i.Minimal := by
  have hcodes : OP_0=0 ∧ OP_1=81 ∧ OP_16=96 ∧ OP_PUSHDATA4=78 := ⟨rfl,rfl,rfl,rfl⟩
  intro hle
  have hzero : i.opcode=OP_0 := by
    by_contra hne
    have hrange : OP_1 ≤ i.opcode ∧ i.opcode≤OP_16 := by
      simpa [Instr.isSmallInteger,hne] using h
    omega
  rw [decodeOP_N,if_pos hzero] at hpos
  omega

/-- What the instructions of each type do. -/
theorem Solved.run (hs : Solved t vSolutions js) (hbare : ∀i∈js,i.Bare) (ht : t≠.TX_NULL_DATA) :
    (∃s,(evalLoop C (js.map some) (State.holding stack 0)).result=.ok s ∧ s.vfExec=[] ∧
        s.stack=stack') ∧ TopTrue stack' ↔
      PushesMinimal C js ∧ Spends C t vSolutions stack stack' := by
  cases hs with
  | @pubKey key hkey =>
    rw [show [key,bare OP_CHECKSIG].map some=[some key,some (bare OP_CHECKSIG)] from rfl,
      answered_iff fun s' => run_pubKey hkey (hbare key List.mem_cons_self)]
    have hminimal : PushesMinimal C [key,bare OP_CHECKSIG] ↔
        (C.flags.has SCRIPT_VERIFY_MINIMALDATA=true → key.Minimal) := by
      simp [PushesMinimal,minimal_bare (show OP_PUSHDATA4<OP_CHECKSIG by decide)]
    rw [hminimal]
    refine and_congr_right fun _ => ?_
    constructor
    · rintro ⟨below,⟨sig,rfl,hone,hheight⟩,rfl⟩
      exact .pubKey hone hheight
    · intro hspends
      cases hspends with
      | pubKey hone hheight => exact ⟨_,⟨_,rfl,hone,hheight⟩,rfl⟩
  | @pubKeyHash keyHash hkey =>
    rw [List.map_cons,List.map_cons,List.map_cons,List.map_cons,List.map_cons,List.map_nil,
      answered_iff fun s' => run_pubKeyHash hkey (hbare keyHash (by simp))]
    have hminimal : PushesMinimal C
        [bare OP_DUP,bare OP_HASH160,keyHash,bare OP_EQUALVERIFY,bare OP_CHECKSIG] ↔
        (C.flags.has SCRIPT_VERIFY_MINIMALDATA=true → keyHash.Minimal) := by
      simp [PushesMinimal,minimal_bare (show OP_PUSHDATA4<OP_CHECKSIG by decide),
        minimal_bare (show OP_PUSHDATA4<OP_DUP by decide),
        minimal_bare (show OP_PUSHDATA4<OP_HASH160 by decide),
        minimal_bare (show OP_PUSHDATA4<OP_EQUALVERIFY by decide)]
    rw [hminimal]
    refine and_congr_right fun _ => ?_
    constructor
    · rintro ⟨below,⟨key,sig,rfl,hsame,hone,hheight⟩,rfl⟩
      rw [hsame]
      exact .pubKeyHash hone hheight
    · intro hspends
      generalize hkeyHash : keyHash.vchPushValue=h at hspends
      cases hspends with
      | pubKeyHash hone hheight => exact ⟨_,⟨_,_,rfl,rfl,hone,hheight⟩,rfl⟩
  | @scriptHash scriptHash hkey =>
    rw [List.map_cons,List.map_cons,List.map_cons,List.map_nil,
      answered_iff fun s' => run_scriptHash hkey (hbare scriptHash (by simp))]
    have hminimal : PushesMinimal C [bare OP_HASH160,scriptHash,bare OP_EQUAL] ↔
        (C.flags.has SCRIPT_VERIFY_MINIMALDATA=true → scriptHash.Minimal) := by
      simp [PushesMinimal,minimal_bare (show OP_PUSHDATA4<OP_EQUAL by decide),
        minimal_bare (show OP_PUSHDATA4<OP_HASH160 by decide)]
    rw [hminimal]
    refine and_congr_right fun _ => ?_
    constructor
    · rintro ⟨below,⟨redeem,rfl,hsame,hheight⟩,rfl⟩
      rw [← of_decide_eq_true hsame.symm]
      exact .scriptHash hheight
    · intro hspends
      generalize hredeem : scriptHash.vchPushValue=h at hspends
      cases hspends with
      | scriptHash hheight => exact ⟨_,⟨_,rfl,(decide_eq_true rfl).symm,hheight⟩,rfl⟩
  | @multisig m n keys hkeys hm hn h1 hmn hlen =>
    have hkeysBare : ∀key∈keys,key.isPubKey=true ∧ key.Bare := fun key hkey =>
      ⟨hkeys key hkey,hbare key (by simp [hkey])⟩
    have hmBare := hbare m List.mem_cons_self
    have hnBare := hbare n (by simp)
    have hlist : (m::(keys++[n,bare OP_CHECKMULTISIG])).map some=
        some m::(keys.map some++[some n,some (bare OP_CHECKMULTISIG)]) := by simp
    rw [hlist,answered_iff fun s' => run_multisig hkeysBare hm hn hmBare hnBare h1 hmn hlen]
    have hminimal : PushesMinimal C (m::(keys++[n,bare OP_CHECKMULTISIG])) ↔
        PushesMinimal C keys := by
      simp only [PushesMinimal,List.forall_mem_cons,List.forall_mem_append]
      have hc := minimal_bare (show OP_PUSHDATA4<OP_CHECKMULTISIG by decide)
      have hm' := minimal_small hm h1
      have hn' := minimal_small hn (by omega)
      exact ⟨fun h hflag => (h hflag).2.1,
        fun h hflag => ⟨hm',h hflag,hn',hc,fun i hi => absurd hi List.not_mem_nil⟩⟩
    rw [hminimal]
    refine and_congr_right fun _ => ?_
    constructor
    · rintro ⟨below,⟨sigs,dummy,rfl,hsigs,hloop,hdummy,hheight⟩,rfl⟩
      simp only [List.length_append,List.length_cons] at hheight
      obtain ⟨hencoded,hmatch⟩ := multiSigLoop_ok_iff.mp hloop
      have hspends := @Spends.multisig C (keys.map Instr.vchPushValue) sigs dummy below
        (hmatch.mp rfl) hencoded hdummy (by rw [List.length_map]; omega)
      rwa [hsigs,List.length_map] at hspends
    · intro hspends
      generalize hsols : [UInt8.ofNat (decodeOP_N m.opcode)]::(keys.map Instr.vchPushValue++
        [[UInt8.ofNat keys.length]])=sols at hspends
      cases hspends with
      | @multisig keys' sigs dummy below hmatch hencoded hdummy hheight =>
        obtain ⟨hfirst,hrest⟩ := List.cons.inj hsols
        obtain ⟨rfl,-⟩ := List.append_inj' hrest rfl
        have hloop := multiSigLoop_ok_iff.mpr ⟨hencoded,iff_of_true rfl hmatch⟩
        have hle := hmatch.length_le
        have h16 : keys.length≤16 := hlen▸decodeOP_N_le hn
        rw [List.length_reverse,List.length_map] at hle
        have hbyte := congrArg UInt8.toNat (List.cons.inj hfirst).1
        rw [UInt8.toNat_ofNat_of_lt' (by change _<256; omega),
          UInt8.toNat_ofNat_of_lt' (by change _<256; omega)] at hbyte
        rw [List.length_map] at hheight
        refine ⟨below,⟨sigs,dummy,rfl,hbyte.symm,hloop,hdummy,?_⟩,rfl⟩
        simp only [List.length_append,List.length_cons]
        omega
  | nullData => exact absurd rfl ht

/-- OP_RETURN ends every evaluation. -/
theorem run_opReturn {is : List (Option Instr)} {s' : State} :
    (evalLoop C (some (bare OP_RETURN)::is) (State.holding stack 0)).result≠.ok s' := by
  intro hrun
  obtain ⟨s₁,hstep,-⟩ := evalLoop_cons_iff.mp hrun
  have hop : Op.ofCode OP_RETURN=some (.plain .OP_RETURN) := rfl
  obtain ⟨stack',hstack,-⟩ := (step_plain_iff hop (by decide) (by decide) (by omega)).mp hstep
  simp [onStack] at hstack

theorem spends_nullData : ¬Spends C .TX_NULL_DATA vSolutions stack stack' := by
  intro h
  cases h

theorem evalScript_solved (h : solver R C.script=some (t,vSolutions))
    (hcc : t≠.TX_CRYPTOCONDITION) :
    (evalScript C stack).result=.ok stack' ∧ TopTrue stack' ↔
      (C.flags.has SCRIPT_VERIFY_MINIMALDATA=true → ∀i,some i∈readOps C.script → i.Minimal) ∧
        Spends C t vSolutions stack stack' := by
  obtain ⟨js,hjs,hs⟩ := solver_solved h hcc
  have hpushes : (C.flags.has SCRIPT_VERIFY_MINIMALDATA=true →
      ∀i,some i∈readOps C.script → i.Minimal) ↔ PushesMinimal C js := by
    simp [hjs,PushesMinimal]
  rw [hpushes,evalScript_ok_iff]
  by_cases ht : t=.TX_NULL_DATA
  · obtain rfl := ht
    refine ⟨fun hrun => ?_,fun hspends => absurd hspends.2 spends_nullData⟩
    obtain ⟨⟨-,s,hrun,-⟩,-⟩ := hrun
    cases hs with
    | nullData =>
      rw [hjs] at hrun
      exact absurd hrun run_opReturn
  · have hbare := bare_of_readOps hjs
    have hsize := (length_le_of_readOps hjs).trans (hs.short hbare ht)
    rw [← hs.run hbare ht,and_assoc,← hjs]
    exact and_iff_right hsize

end Solved

section Verification

variable {R : SolverRules} {C : Context} {t : TxNOutType} {vSolutions : List Valtype}

/-- Exactly what a spend of an output of a standard type must do. -/
theorem verifyScript_solved {scriptSig scriptPubKey : List UInt8}
    (h : solver R scriptPubKey=some (t,vSolutions)) (hcc : t≠.TX_CRYPTOCONDITION) :
    (verifyScript C scriptSig scriptPubKey).result=.ok () ↔
      (C.flags.has SCRIPT_VERIFY_SIGPUSHONLY=true → isPushOnly scriptSig=true) ∧
      (C.flags.has SCRIPT_VERIFY_MINIMALDATA=true → ∀i,some i∈readOps scriptPubKey → i.Minimal) ∧
      ∃stackCopy stack final,(scriptSigStack C scriptSig scriptPubKey).result=.ok stackCopy ∧
        Spends {C with script := scriptPubKey} t vSolutions stackCopy stack ∧
        (finalStack C scriptSig scriptPubKey stackCopy stack).result=.ok final ∧
        (C.flags.has SCRIPT_VERIFY_CLEANSTACK=true →
          C.flags.has SCRIPT_VERIFY_P2SH=true ∧ final.length=1) := by
  have hsolved (stackCopy stack : List Valtype) :=
    @evalScript_solved R {C with script := scriptPubKey} t vSolutions stackCopy stack h hcc
  rw [verifyScript_ok_iff]
  refine and_congr_right fun _ => ?_
  constructor
  · rintro ⟨stackCopy,stack,final,hcopy,hstack,htop,hfinal,hclean⟩
    obtain ⟨hminimal,hspends⟩ := (hsolved stackCopy stack).mp ⟨evaluate_ok_iff.mp hstack,htop⟩
    exact ⟨hminimal,stackCopy,stack,final,hcopy,hspends,hfinal,hclean⟩
  · rintro ⟨hminimal,stackCopy,stack,final,hcopy,hspends,hfinal,hclean⟩
    obtain ⟨heval,htop⟩ := (hsolved stackCopy stack).mpr ⟨hminimal,hspends⟩
    exact ⟨stackCopy,stack,final,hcopy,evaluate_ok_iff.mpr heval,htop,hfinal,hclean⟩

/-- The script OP_1 is given to an output that pays to its hash. -/
theorem verifyScript_solved_scriptHash :
    (verifyScript (Context.refusing [] SCRIPT_VERIFY_P2SH) [0x01,0x51]
      (0xa9::0x14::(List.replicate 20 0++[0x87]))).result=.ok () := by
  have hsolver : solver ⟨true,true,80,fun _ => none⟩ (0xa9::0x14::(List.replicate 20 0++[0x87]))=
      some (.TX_SCRIPTHASH,[List.replicate 20 0]) := by decide
  have hflags : (Context.refusing [] SCRIPT_VERIFY_P2SH).flags=SCRIPT_VERIFY_P2SH := rfl
  refine (verifyScript_solved hsolver (by decide)).mpr ⟨?_,?_,
    [[0x51]],[vchTrue],[[1]],by rfl,Spends.scriptHash (by decide),by rfl,?_⟩
  all_goals
    rw [hflags]
    intro h
    exact absurd h (by decide)

end Verification

end Zdeex.Script
