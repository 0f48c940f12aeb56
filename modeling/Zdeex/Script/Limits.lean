import Mathlib.Data.List.GetD
import Zdeex.Script.MultiSig

namespace Zdeex.Script

open Zdeex.Framework

/-- The limits that hold between any two instructions of a script. -/
structure State.Within (M : Nat) (s : State) : Prop where
  height : s.stack.length+s.altstack.length≤1000
  elements : ∀v∈s.stack++s.altstack,v.length≤M
  ops : s.nOpCount≤201
  depth : s.vfExec.length ≤ s.nOpCount

section Elements

variable {M : Nat}

theorem length_vchBool_le (b : Bool) (hM : 520≤M) : (vchBool b).length≤M := by
  have hle : (vchBool b).length≤1 := by cases b <;> simp [vchBool,vchTrue,vchFalse]
  omega

/-- The size of an element takes no more bytes than the element, or one. -/
theorem length_serialize_size_le {n : Nat} (hn : n≤M) (hM : 520≤M) :
    (serialize (n : Int)).length≤M := by
  rw [length_serialize_le_iff,Int.natAbs_natCast]
  have hpow : M<2^M := Nat.lt_two_pow_self
  have hmono : 2^M≤2^(8*M-1) := Nat.pow_le_pow_right (by decide) (by omega)
  omega

theorem length_serialize_of_lt {n : Int} (hn : n.natAbs<2^39) (hM : 520≤M) :
    (serialize n).length≤M :=
  Nat.le_trans ((length_serialize_le_iff n 5).mpr hn) (by omega)

theorem length_hash_le (C : Context) (op : HashOp) (vch : Valtype) (hM : 520≤M) :
    (hash C op vch).length≤M := by
  have h20 (d : Digest 20) : d.bytes.length≤M := by rw [d.sized]; omega
  have h32 (d : Digest 32) : d.bytes.length≤M := by rw [d.sized]; omega
  cases op
  case OP_RIPEMD160 => exact h20 _
  case OP_SHA1 => exact h20 _
  case OP_SHA256 => exact h32 _
  case OP_HASH160 => exact h20 _
  case OP_HASH256 => exact h32 _

theorem natAbs_ofBool_lt (b : Bool) : (ofBool b).natAbs<2^39 := by
  cases b <;> decide

/-- No operation on two numbers of four bytes leaves the range of `int64_t`, or that of five
bytes: the assertions of `CScriptNum` do not fail. -/
theorem natAbs_binary_lt (op : BinaryOp) {bn1 bn2 : Int} (h1 : bn1.natAbs<2^31)
    (h2 : bn2.natAbs<2^31) : (binary op bn1 bn2).natAbs<2^39 := by
  cases op
  case OP_ADD =>
    change (bn1+bn2).natAbs<_
    omega
  case OP_SUB =>
    change (bn1-bn2).natAbs<_
    omega
  case OP_MIN =>
    change (if bn1<bn2 then bn1 else bn2).natAbs<_
    split <;> omega
  case OP_MAX =>
    change (if bn2<bn1 then bn1 else bn2).natAbs<_
    split <;> omega
  all_goals exact natAbs_ofBool_lt _

theorem natAbs_unary_lt (op : UnaryOp) {bn : Int} (h : bn.natAbs<2^31) :
    (unary op bn).natAbs<2^39 := by
  cases op
  case OP_1ADD =>
    change (bn+1).natAbs<_
    omega
  case OP_1SUB =>
    change (bn-1).natAbs<_
    omega
  case OP_NEGATE =>
    change (-bn).natAbs<_
    omega
  case OP_ABS =>
    change (if bn<0 then -bn else bn).natAbs<_
    split <;> omega
  all_goals exact natAbs_ofBool_lt _

/-- No element is longer than `M` bytes. -/
def Sized (M : Nat) (stack : List Valtype) : Prop := ∀v∈stack,v.length≤M

theorem Sized.cons {v : Valtype} {stack : List Valtype} (hv : v.length≤M) (h : Sized M stack) :
    Sized M (v::stack) := List.forall_mem_cons.mpr ⟨hv,h⟩

theorem Sized.head {v : Valtype} {stack : List Valtype} (h : Sized M (v::stack)) : v.length≤M :=
  h v List.mem_cons_self

theorem Sized.tail {stack : List Valtype} (h : Sized M stack) : Sized M stack.tail :=
  fun v hv => h v (List.mem_of_mem_tail hv)

/-- A shuffle moves elements and makes none. -/
theorem mem_of_shuffle {op : Shuffle} {stack stack' : List Valtype}
    (h : shuffle op stack=some stack') :
    ∀v∈stack',v∈stack := by
  intro v hv
  unfold shuffle at h
  split at h
  all_goals simp only [Option.some.injEq,reduceCtorEq] at h
  all_goals subst h
  all_goals simp only [List.mem_cons] at hv ⊢
  all_goals tauto

theorem answer_sized {verify : Option ScriptError} {fOk : Bool} {stack stack' : List Valtype}
    (hM : 520≤M) (hs : Sized M stack) (h : answer verify fOk stack=.ok stack') :
    Sized M stack' := by
  cases verify with
  | none =>
    rw [answer_none.mp h]
    exact hs.cons (length_vchBool_le fOk hM)
  | some e =>
    rw [(answer_some.mp h).2]
    exact hs

theorem number_four {C : Context} {vch : Valtype} {bn : Int}
    (h : number C vch nDefaultMaxNumSize=.ok bn) : bn.natAbs<2^31 :=
  natAbs_number_lt C (by decide) h

theorem pickOrRoll_sized {C : Context} {roll : Bool} {stack stack' : List Valtype}
    (hs : Sized M stack) (h : pickOrRoll C roll stack=.ok stack') : Sized M stack' := by
  cases stack with
  | nil => cases h
  | cons top below =>
    simp only [pickOrRoll,bind_ok,reject_ok,pure_ok] at h
    obtain ⟨-,-,n,-,-,hrange,rfl⟩ := h
    have hbelow : Sized M below := hs.tail
    refine Sized.cons ?_ ?_
    · rw [List.getD_eq_getElem _ _ (by omega)]
      exact hbelow _ (List.getElem_mem _)
    · split
      · exact fun v hv => hbelow v (List.mem_of_mem_eraseIdx hv)
      · exact hbelow

theorem checkCryptoCondition_sized {C : Context} {verify : Option ScriptError}
    {stack stack' : List Valtype} (hM : 520≤M) (hs : Sized M stack)
    (h : checkCryptoCondition C verify stack=.ok stack') : Sized M stack' := by
  unfold checkCryptoCondition at h
  by_cases henabled : !C.isCryptoConditionsEnabled
  · rw [if_pos henabled] at h
    cases h
  rw [if_neg henabled] at h
  rcases stack with _ | ⟨condition,_ | ⟨fulfillment,below⟩⟩
  · cases h
  · cases h
  · simp only [bind_ok] at h
    obtain ⟨_,_,hanswer⟩ := h
    have hbelow : Sized M below := hs.tail.tail
    exact answer_sized hM hbelow hanswer

/-- An opcode makes no element longer than the longest one or 520 bytes. -/
theorem onStack_sized {C : Context} {op : PlainOp} {stack stack' : List Valtype} (hM : 520≤M)
    (hnumber : ∀n,op=.number n → n.natAbs<2^39) (hheight : stack.length≤1000) (hs : Sized M stack)
    (h : onStack C op stack=.ok stack') : Sized M stack' := by
  have hbool (b : Bool) : (vchBool b).length≤M := length_vchBool_le b hM
  cases op
  case number n =>
    rw [← Except.ok.inj h]
    exact hs.cons (length_serialize_of_lt (hnumber n rfl) hM)
  case OP_NOP =>
    rw [← Except.ok.inj h]
    exact hs
  case OP_CHECKLOCKTIMEVERIFY =>
    rw [onStack,checkLockTimeVerify] at h
    split at h
    all_goals simp only [bind_ok,reject_ok,expect_ok,pure_ok] at h
    · obtain ⟨-,-,rfl⟩ := h
      exact hs
    · obtain ⟨-,-,-,-,-,-,-,-,rfl⟩ := h
      exact hs
  case upgradableNop =>
    simp only [onStack,bind_ok,reject_ok,pure_ok] at h
    obtain ⟨-,-,rfl⟩ := h
    exact hs
  case OP_VERIFY =>
    simp only [onStack,bind_ok,reject_ok,expect_ok,pure_ok] at h
    obtain ⟨-,-,-,-,rfl⟩ := h
    exact hs.tail
  case OP_RETURN => cases h
  case shuffle op =>
    have hshuffle := expect_ok.mp h
    exact fun v hv => hs v (mem_of_shuffle hshuffle v hv)
  case OP_IFDUP =>
    simp only [onStack,bind_ok,expect_ok,pure_ok] at h
    obtain ⟨top,htop,rfl⟩ := h
    split
    · exact hs.cons (hs top (List.mem_of_mem_head? htop))
    · exact hs
  case OP_DEPTH =>
    rw [← Except.ok.inj h]
    exact hs.cons (length_serialize_of_lt (by omega) hM)
  case OP_PICK => exact pickOrRoll_sized hs h
  case OP_ROLL => exact pickOrRoll_sized hs h
  case OP_SIZE =>
    simp only [onStack,bind_ok,expect_ok,pure_ok] at h
    obtain ⟨top,htop,rfl⟩ := h
    exact hs.cons (length_serialize_size_le (hs top (List.mem_of_mem_head? htop)) hM)
  case OP_EQUAL =>
    rcases stack with _ | ⟨vch2,_ | ⟨vch1,below⟩⟩
    · cases h
    · cases h
    · have hbelow : Sized M below := hs.tail.tail
      rw [onStack] at h
      exact answer_sized hM hbelow h
  case OP_EQUALVERIFY =>
    rcases stack with _ | ⟨vch2,_ | ⟨vch1,below⟩⟩
    · cases h
    · cases h
    · have hbelow : Sized M below := hs.tail.tail
      rw [onStack] at h
      exact answer_sized hM hbelow h
  case unary op =>
    rcases stack with _ | ⟨top,below⟩
    · cases h
    · simp only [onStack,bind_ok,pure_ok] at h
      obtain ⟨bn,hbn,rfl⟩ := h
      exact Sized.cons (length_serialize_of_lt (natAbs_unary_lt op (number_four hbn)) hM) hs.tail
  case binary op =>
    rcases stack with _ | ⟨vch2,_ | ⟨vch1,below⟩⟩
    · cases h
    · cases h
    · simp only [onStack,bind_ok] at h
      obtain ⟨bn1,hbn1,bn2,hbn2,h⟩ := h
      split at h
      · have hbelow : Sized M below := hs.tail.tail
        exact answer_sized hM hbelow h
      · rw [← pure_ok.mp h]
        have hlt := natAbs_binary_lt op (number_four hbn1) (number_four hbn2)
        exact Sized.cons (length_serialize_of_lt hlt hM) hs.tail.tail
  case OP_WITHIN =>
    rcases stack with _ | ⟨vch3,_ | ⟨vch2,_ | ⟨vch1,below⟩⟩⟩
    · cases h
    · cases h
    · cases h
    · simp only [onStack,bind_ok] at h
      obtain ⟨_,_,_,_,_,_,hanswer⟩ := h
      have hbelow : Sized M below := hs.tail.tail.tail
      exact answer_sized hM hbelow hanswer
  case hash op =>
    rcases stack with _ | ⟨top,below⟩
    · cases h
    · rw [← Except.ok.inj h]
      exact Sized.cons (length_hash_le C op top hM) hs.tail
  case OP_CHECKCRYPTOCONDITION => exact checkCryptoCondition_sized hM hs h
  case OP_CHECKCRYPTOCONDITIONVERIFY => exact checkCryptoCondition_sized hM hs h

theorem checkSig_sized {C : Context} {verify : Option ScriptError} {stack stack' : List Valtype}
    (hM : 520≤M) (hs : Sized M stack) (h : (checkSig C verify stack).result=.ok stack') :
    Sized M stack' := by
  rcases stack with _ | ⟨vchPubKey,_ | ⟨vchSig,below⟩⟩
  · cases h
  · cases h
  · simp only [checkSig,Traced.result_bind,Traced.result_lift,bind_ok] at h
    obtain ⟨_,_,hanswer⟩ := h
    have hbelow : Sized M below := hs.tail.tail
    exact answer_sized hM hbelow hanswer

end Elements

section Opcodes

theorem opTable_plain {opcode : Nat} {op : Op} (h : opTable.lookup opcode=some op) :
    OP_16<opcode ∧ ∀n,op≠.plain (.number n) := by
  obtain ⟨before,after,htable,-⟩ := List.lookup_eq_some_iff.mp h
  have hmem : (opcode,op)∈opTable := by simp [htable]
  have hall : ∀p∈opTable,OP_16<p.1 ∧ ∀n,p.2≠.plain (.number n) := by
    simp [opTable,OP_16]
  exact hall _ hmem

/-- The opcodes up to `OP_16` that are not pushes put a small number on the stack. -/
theorem ofCode_small {opcode : Nat} {op : Op} (h : Op.ofCode opcode=some op) (hle : opcode≤OP_16) :
    op=.plain (.number ((opcode : Int)-(OP_1-1))) := by
  rw [Op.ofCode] at h
  split at h
  · exact (Option.some.inj h).symm
  · exact absurd (opTable_plain h).1 (by omega)

theorem ofCode_number {opcode : Nat} {n : Int} (h : Op.ofCode opcode=some (.plain (.number n))) :
    n.natAbs≤16 := by
  rw [Op.ofCode] at h
  split at h
  · have hn : ((opcode : Int)-(OP_1-1))=n := by simpa using h
    simp only [OP_1,OP_16,OP_1NEGATE] at *
    omega
  · exact absurd rfl ((opTable_plain h).2 n)

end Opcodes

section Steps

variable {M : Nat} {C : Context} {i : Instr} {s s' : State}

theorem countOp_ok_iff : countOp i s=.ok s' ↔ i.vchPushValue.length≤MAX_SCRIPT_ELEMENT_SIZE ∧
    (OP_16 < i.opcode → s.nOpCount<201) ∧ i.opcode∉disabledOpcodes ∧
    s'={s with nOpCount := if OP_16 < i.opcode then s.nOpCount+1 else s.nOpCount} := by
  simp only [countOp,bind_ok,reject_ok,pure_ok]
  constructor
  · rintro ⟨-,hsize,-,hcount,-,henabled,rfl⟩
    refine ⟨by omega,fun hlt => ?_,henabled,rfl⟩
    rw [if_pos hlt] at hcount
    omega
  · rintro ⟨hsize,hcount,henabled,rfl⟩
    refine ⟨(),by omega,(),?_,(),henabled,rfl⟩
    rintro ⟨hlt,hover⟩
    rw [if_pos hlt] at hover
    exact absurd (hcount hlt) (by omega)

/-- What a step leaves of the limits before the height of the stacks is checked. -/
structure Kept (M : Nat) (s s' : State) : Prop where
  stack : Sized M s'.stack
  altstack : Sized M s'.altstack
  ops : s.nOpCount ≤ s'.nOpCount ∧ s'.nOpCount≤201
  depth : s'.vfExec.length ≤ s.vfExec.length+1

theorem onlyStack_kept {stack : List Valtype} (hs : s.Within M) (hstack : Sized M stack) :
    Kept M s {s with stack} :=
  ⟨hstack,fun v hv => hs.elements v (List.mem_append_right _ hv),⟨le_refl _,hs.ops⟩,
    Nat.le_succ _⟩

theorem Kept.refl (hs : s.Within M) : Kept M s s :=
  onlyStack_kept hs fun v hv => hs.elements v (List.mem_append_left _ hv)

theorem openBranch_kept {notIf : Bool} (hs : s.Within M) (h : openBranch notIf s=.ok s') :
    Kept M s s' := by
  have hstack : Sized M s.stack := fun v hv => hs.elements v (List.mem_append_left _ hv)
  have halt : Sized M s.altstack := fun v hv => hs.elements v (List.mem_append_right _ hv)
  unfold openBranch at h
  split at h
  · cases hst : s.stack with
    | nil => simp [hst] at h
    | cons vch stack =>
      rw [hst] at h hstack
      rw [← Except.ok.inj h]
      exact ⟨hstack.tail,halt,⟨le_refl _,hs.ops⟩,by simp⟩
  · rw [← Except.ok.inj h]
    exact ⟨hstack,halt,⟨le_refl _,hs.ops⟩,by simp⟩

theorem checkMultiSig_kept {verify : Option ScriptError} (hM : 520≤M) (hs : s.Within M)
    (h : (checkMultiSig C verify s).result=.ok s') : Kept M s s' := by
  obtain ⟨args,hargs,-⟩ := checkMultiSig_judged h
  obtain ⟨fSuccess,stack,-,hanswer,rfl⟩ := hargs.outcome
  obtain ⟨nKeys,nSigs,hlayout,-,-⟩ := hargs.stack
  have hbelow : Sized M args.below := fun v hv => hs.elements v (by simp [hlayout,hv])
  exact ⟨answer_sized hM hbelow hanswer,fun v hv => hs.elements v (List.mem_append_right _ hv),
    ⟨Nat.le_add_right _ _,hargs.ops⟩,Nat.le_succ _⟩

theorem execute_kept {op : Op} (hM : 520≤M) (hnumber : ∀n,op=.plain (.number n) → n.natAbs≤16)
    (hs : s.Within M) (h : (execute C op s).result=.ok s') : Kept M s s' := by
  have hstack : Sized M s.stack := fun v hv => hs.elements v (List.mem_append_left _ hv)
  have halt : Sized M s.altstack := fun v hv => hs.elements v (List.mem_append_right _ hv)
  have hheight := hs.height
  cases op
  case plain op =>
    simp only [execute,Traced.result_bind,Traced.result_lift,Traced.result_pure,bind_ok] at h
    obtain ⟨stack,hon,hs'⟩ := h
    rw [← Except.ok.inj hs']
    refine onlyStack_kept hs (onStack_sized hM (fun n hn => ?_) (by omega) hstack hon)
    have hsmall := hnumber n (congrArg Op.plain hn)
    omega
  case OP_IF => exact openBranch_kept hs h
  case OP_NOTIF => exact openBranch_kept hs h
  case OP_ELSE =>
    simp only [execute] at h
    split at h
    · cases h
    · rename_i back vfExec hexec
      rw [← Except.ok.inj h]
      exact ⟨hstack,halt,⟨le_refl _,hs.ops⟩,by simp [hexec]⟩
  case OP_ENDIF =>
    simp only [execute] at h
    split at h
    · cases h
    · rename_i back vfExec hexec
      rw [← Except.ok.inj h]
      exact ⟨hstack,halt,⟨le_refl _,hs.ops⟩,by rw [hexec]; simp; omega⟩
  case OP_TOALTSTACK =>
    simp only [execute] at h
    split at h
    · cases h
    · rename_i vch stack hst
      rw [hst] at hstack
      rw [← Except.ok.inj h]
      exact ⟨hstack.tail,halt.cons hstack.head,⟨le_refl _,hs.ops⟩,Nat.le_succ _⟩
  case OP_FROMALTSTACK =>
    simp only [execute] at h
    split at h
    · cases h
    · rename_i vch altstack hst
      rw [hst] at halt
      rw [← Except.ok.inj h]
      exact ⟨hstack.cons halt.head,halt.tail,⟨le_refl _,hs.ops⟩,Nat.le_succ _⟩
  case OP_CHECKSIG =>
    simp only [execute,Traced.result_bind,Traced.result_pure,bind_ok] at h
    obtain ⟨stack,hsig,hs'⟩ := h
    rw [← Except.ok.inj hs']
    exact onlyStack_kept hs (checkSig_sized hM hstack hsig)
  case OP_CHECKSIGVERIFY =>
    simp only [execute,Traced.result_bind,Traced.result_pure,bind_ok] at h
    obtain ⟨stack,hsig,hs'⟩ := h
    rw [← Except.ok.inj hs']
    exact onlyStack_kept hs (checkSig_sized hM hstack hsig)
  case OP_CHECKMULTISIG => exact checkMultiSig_kept hM hs h
  case OP_CHECKMULTISIGVERIFY => exact checkMultiSig_kept hM hs h

theorem plain_vfExec {op : PlainOp} (h : (execute C (.plain op) s).result=.ok s') :
    s'.vfExec=s.vfExec ∧ s'.nOpCount=s.nOpCount := by
  simp only [execute,Traced.result_bind,Traced.result_lift,Traced.result_pure,bind_ok] at h
  obtain ⟨stack,-,hs'⟩ := h
  rw [← Except.ok.inj hs']
  exact ⟨rfl,rfl⟩

theorem dispatch_kept (hM : 520≤M) (hsize : i.vchPushValue.length≤MAX_SCRIPT_ELEMENT_SIZE)
    (hs : s.Within M) (h : (dispatch C i s).result=.ok s') :
    Kept M s s' ∧ (i.opcode≤OP_16 → s'.vfExec=s.vfExec) := by
  unfold dispatch at h
  split at h
  · simp only [Traced.result_bind,Traced.result_lift,Traced.result_pure,bind_ok,reject_ok] at h
    obtain ⟨-,-,hs'⟩ := h
    rw [← Except.ok.inj hs']
    refine ⟨onlyStack_kept hs (Sized.cons ?_ fun v hv => hs.elements v (List.mem_append_left _ hv)),
      fun _ => rfl⟩
    exact Nat.le_trans hsize hM
  · split at h
    · simp only [Traced.result_bind,Traced.result_lift,bind_ok,expect_ok] at h
      obtain ⟨op,hop,hexecute⟩ := h
      refine ⟨execute_kept hM (fun n hn => ofCode_number (hn▸hop)) hs hexecute,fun hle => ?_⟩
      rw [ofCode_small hop hle] at hexecute
      exact (plain_vfExec hexecute).1
    · rw [← Except.ok.inj h]
      exact ⟨Kept.refl hs,fun _ => rfl⟩

theorem step_ok_iff : (step C i s).result=.ok s' ↔ ∃counted,countOp i s=.ok counted ∧
    (dispatch C i counted).result=.ok s' ∧ s'.stack.length+s'.altstack.length≤1000 := by
  simp only [step,Traced.result_bind,Traced.result_lift,Traced.result_pure,bind_ok,reject_ok,
    Except.ok.injEq]
  constructor
  · rintro ⟨counted,hcount,next,hdispatch,-,hheight,rfl⟩
    exact ⟨counted,hcount,hdispatch,by omega⟩
  · rintro ⟨counted,hcount,hdispatch,hheight⟩
    exact ⟨counted,hcount,s',hdispatch,(),by omega,rfl⟩

theorem step_within (hM : 520≤M) (hs : s.Within M) (h : (step C i s).result=.ok s') :
    s'.Within M := by
  obtain ⟨counted,hcount,hdispatch,hheight⟩ := step_ok_iff.mp h
  obtain ⟨hsize,hops,-,rfl⟩ := countOp_ok_iff.mp hcount
  have hdepth := hs.depth
  have hmore := hs.ops
  have hcounted : State.Within M
      {s with nOpCount := if OP_16 < i.opcode then s.nOpCount+1 else s.nOpCount} := by
    refine ⟨hs.height,hs.elements,?_,?_⟩
    · split
      · exact hops ‹_›
      · exact hmore
    · split <;> dsimp only <;> omega
  obtain ⟨hkept,hsmall⟩ := dispatch_kept hM hsize hcounted hdispatch
  refine ⟨hheight,?_,hkept.ops.2,?_⟩
  · intro v hv
    rcases List.mem_append.mp hv with hv | hv
    · exact hkept.stack v hv
    · exact hkept.altstack v hv
  · have hkeptDepth := hkept.depth
    have hkeptOps := hkept.ops.1
    by_cases hlt : OP_16 < i.opcode
    · simp only [if_pos hlt] at hkeptOps hkeptDepth
      omega
    · have hsame : s'.vfExec=s.vfExec := hsmall (by omega)
      simp only [if_neg hlt] at hkeptOps
      rw [hsame]
      omega

theorem evalLoop_within (hM : 520≤M) (is : List (Option Instr)) (hs : s.Within M)
    (h : (evalLoop C is s).result=.ok s') : s'.Within M := by
  induction is generalizing s with
  | nil =>
    rw [← Except.ok.inj h]
    exact hs
  | cons i is ih =>
    cases i with
    | none => cases h
    | some i =>
      rw [evalLoop,Traced.result_bind,bind_ok] at h
      obtain ⟨next,hstep,hrest⟩ := h
      exact ih (step_within hM hs hstep) hrest

end Steps

section Runs

variable {M : Nat} {C : Context} {stack stack' : List Valtype} {s : State}

/-- `s` is the state of `EvalScript` before some instruction, or behind the last one. -/
def Reaches (C : Context) (stack : List Valtype) (s : State) : Prop :=
  ∃done todo,readOps C.script=done++todo ∧ (evalLoop C done (State.start stack)).result=.ok s

theorem start_within (hheight : stack.length≤1000) (hs : Sized M stack) :
    (State.start stack).Within M :=
  ⟨by simpa [State.start] using hheight,fun v hv => hs v (by simpa [State.start] using hv),
    Nat.zero_le _,le_refl 0⟩

theorem evalScript_ok_iff : (evalScript C stack).result=.ok stack' ↔
    C.script.length≤MAX_SCRIPT_SIZE ∧
    ∃s,(evalLoop C (readOps C.script) (State.start stack)).result=.ok s ∧
      s.vfExec=[] ∧ s.stack=stack' := by
  simp only [evalScript,Traced.result_bind,Traced.result_lift,Traced.result_pure,bind_ok,reject_ok,
    Except.ok.injEq]
  constructor
  · rintro ⟨-,hsize,s,hloop,-,hexec,hstack⟩
    exact ⟨by omega,s,hloop,not_not.mp hexec,hstack⟩
  · rintro ⟨hsize,s,hloop,hexec,hstack⟩
    exact ⟨(),by omega,s,hloop,(),not_not.mpr hexec,hstack⟩

/-- The limits hold of what a script leaves, too. -/
theorem evalScript_sized (hM : 520≤M) (hheight : stack.length≤1000) (hs : Sized M stack)
    (h : (evalScript C stack).result=.ok stack') : stack'.length≤1000 ∧ Sized M stack' := by
  obtain ⟨-,s,hloop,-,rfl⟩ := evalScript_ok_iff.mp h
  have hwithin := evalLoop_within hM _ (start_within hheight hs) hloop
  have hlen := hwithin.height
  exact ⟨by omega,fun v hv => hwithin.elements v (List.mem_append_left _ hv)⟩

variable (C) in
/-- The evaluations `VerifyScript` makes: of which script, from which stack. -/
inductive Evaluates (scriptSig scriptPubKey : List UInt8) : List UInt8 → List Valtype → Prop
  | scriptSig : Evaluates scriptSig scriptPubKey scriptSig []
  | scriptPubKey {stack : List Valtype} :
      (scriptSigStack C scriptSig scriptPubKey).result=.ok stack →
      Evaluates scriptSig scriptPubKey scriptPubKey stack
  | redeem {pubKeySerialized : Valtype} {stack : List Valtype} :
      (scriptSigStack C scriptSig scriptPubKey).result=.ok (pubKeySerialized::stack) →
      Evaluates scriptSig scriptPubKey pubKeySerialized stack

theorem mapError_ok_iff {ε δ α : Type} {x : Except ε α} {g : ε → δ} {a : α} :
    x.mapError g=.ok a ↔ x=.ok a := by
  cases x <;> simp [Except.mapError]

theorem evaluate_ok_iff {script : List UInt8} : (evaluate C script stack).result=.ok stack' ↔
    (evalScript {C with script} stack).result=.ok stack' :=
  mapError_ok_iff

theorem evalCryptoConditionSig_ok {scriptSig : List UInt8}
    (h : evalCryptoConditionSig scriptSig stack=.ok stack') :
    ∃v : Valtype,v.length≤MAX_SCRIPT_CRYPTOCONDITION_FULFILLMENT_SIZE ∧ stack'=v::stack := by
  unfold evalCryptoConditionSig at h
  split at h
  · cases h
  · rename_i opcode vchPushValue pc hop
    simp only [bind_ok,reject_ok,pure_ok] at h
    obtain ⟨-,-,-,-,-,hsize,rfl⟩ := h
    exact ⟨vchPushValue,by omega,rfl⟩

theorem scriptSigStack_sized {scriptSig scriptPubKey : List UInt8}
    (h : (scriptSigStack C scriptSig scriptPubKey).result=.ok stack) :
    stack.length≤1000 ∧ Sized MAX_SCRIPT_CRYPTOCONDITION_FULFILLMENT_SIZE stack := by
  unfold scriptSigStack at h
  split at h
  · obtain ⟨v,hv,rfl⟩ := evalCryptoConditionSig_ok (mapError_ok_iff.mp h)
    exact ⟨by simp,List.forall_mem_singleton.mpr hv⟩
  · refine evalScript_sized (by decide) (Nat.zero_le _) ?_ (evaluate_ok_iff.mp h)
    exact fun v hv => absurd hv List.not_mem_nil

/-- Whatever two scripts are verified, in each evaluation the two stacks never hold more than
1000 elements, nor one longer than a fulfillment may be, no more than 201 operations are counted,
and no more conditionals are open than were counted. -/
theorem evaluates_within {scriptSig scriptPubKey script : List UInt8}
    (he : Evaluates C scriptSig scriptPubKey script stack) (h : Reaches {C with script} stack s) :
    s.Within MAX_SCRIPT_CRYPTOCONDITION_FULFILLMENT_SIZE := by
  obtain ⟨done,todo,-,hrun⟩ := h
  refine evalLoop_within (by decide) done ?_ hrun
  cases he with
  | scriptSig => exact start_within (Nat.zero_le _) fun v hv => absurd hv List.not_mem_nil
  | scriptPubKey hstack =>
    obtain ⟨hlen,hsized⟩ := scriptSigStack_sized hstack
    exact start_within hlen hsized
  | redeem hstack =>
    obtain ⟨hlen,hsized⟩ := scriptSigStack_sized hstack
    exact start_within (by simp at hlen; omega) hsized.tail

/-- Behind OP_DUP on what another script left. -/
theorem evaluates_within_dup :
    State.Within MAX_SCRIPT_CRYPTOCONDITION_FULFILLMENT_SIZE ⟨[[1],[1]],[],[],1⟩ := by
  have he : Evaluates (Context.refusing [] 0) [0x51] [0x76,0x87] [0x76,0x87] [[1]] :=
    .scriptPubKey rfl
  exact evaluates_within he ⟨[some ⟨0x76,[]⟩],[some ⟨0x87,[]⟩],rfl,rfl⟩

end Runs

section Verification

variable {C : Context} {scriptSig scriptPubKey : List UInt8} {stack : List Valtype}

/-- A true value is on top. -/
def TopTrue (stack : List Valtype) : Prop := ∃top below,stack=top::below ∧ castToBool top=true

theorem requireTrue_ok_iff {u : Unit} : requireTrue stack=.ok u ↔ TopTrue stack := by
  cases stack with
  | nil => simp [requireTrue,TopTrue]
  | cons top below =>
    rw [requireTrue,reject_ok,Bool.not_eq_false]
    constructor
    · intro htop
      exact ⟨top,below,rfl,htop⟩
    · rintro ⟨top',below',heq,htop⟩
      rw [(List.cons.inj heq).1]
      exact htop

/-- The parts a verification succeeds by. -/
theorem verifyScript_ok_iff : (verifyScript C scriptSig scriptPubKey).result=.ok () ↔
    (C.flags.has SCRIPT_VERIFY_SIGPUSHONLY=true → isPushOnly scriptSig=true) ∧
    ∃stackCopy stack final,(scriptSigStack C scriptSig scriptPubKey).result=.ok stackCopy ∧
      (evaluate C scriptPubKey stackCopy).result=.ok stack ∧ TopTrue stack ∧
      (finalStack C scriptSig scriptPubKey stackCopy stack).result=.ok final ∧
      (C.flags.has SCRIPT_VERIFY_CLEANSTACK=true →
        C.flags.has SCRIPT_VERIFY_P2SH=true ∧ final.length=1) := by
  have hlast (final : List Valtype) :
      (if C.flags.has SCRIPT_VERIFY_CLEANSTACK then do
        reject (!C.flags.has SCRIPT_VERIFY_P2SH) Halt.assertion
        reject (final.length≠1) (Halt.script .cleanStack)
      else pure () : Traced SigQuery Halt Unit).result=.ok () ↔
      (C.flags.has SCRIPT_VERIFY_CLEANSTACK=true →
        C.flags.has SCRIPT_VERIFY_P2SH=true ∧ final.length=1) := by
    by_cases hclean : C.flags.has SCRIPT_VERIFY_CLEANSTACK=true
    · simp [hclean,bind_ok,reject_ok]
    · simp [hclean]
  simp only [verifyScript,Traced.result_bind,Traced.result_lift,bind_ok,reject_ok,
    requireTrue_ok_iff,hlast]
  constructor
  · rintro ⟨-,hpush,stackCopy,hcopy,stack,hstack,-,htop,final,hfinal,hclean⟩
    exact ⟨fun hflag => by simpa [hflag] using hpush,stackCopy,stack,final,hcopy,hstack,htop,hfinal,
      hclean⟩
  · rintro ⟨hpush,stackCopy,stack,final,hcopy,hstack,htop,hfinal,hclean⟩
    refine ⟨(),?_,stackCopy,hcopy,stack,hstack,(),htop,final,hfinal,hclean⟩
    intro hboth
    rw [Bool.and_eq_true] at hboth
    simp [hpush hboth.1] at hboth

end Verification

end Zdeex.Script
