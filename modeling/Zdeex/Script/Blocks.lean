import Zdeex.Script.Limits

namespace Zdeex.Script

open Zdeex.Framework

def OP_NOTIF : Nat := 0x64
def OP_ELSE : Nat := 0x67

def Instr.Conditional (i : Instr) : Prop :=
  i.opcode=OP_IF ∨ i.opcode=OP_NOTIF ∨ i.opcode=OP_ELSE ∨ i.opcode=OP_ENDIF

instance (i : Instr) : Decidable i.Conditional := inferInstanceAs (Decidable (_ ∨ _))

/-- An instruction that opens, switches and closes nothing. -/
structure Straight where
  instr : Instr
  straight : ¬instr.Conditional

mutual

/-- A script in which every conditional is closed. -/
inductive Block
  | nil
  | op (i : Straight) (rest : Block)
  | cond (notIf : Bool) (branches : Branches) (rest : Block)

/-- The branches of a conditional: any number of them, taken in turn and passed over in turn. -/
inductive Branches
  | last (body : Block)
  | more (body : Block) (rest : Branches)

end

def bare (opcode : Nat) : Instr := ⟨opcode,[]⟩

def ifOpcode (notIf : Bool) : Nat := if notIf then OP_NOTIF else OP_IF

mutual

def Block.flatten : Block → List Instr
  | .nil => []
  | .op i rest => i.instr::rest.flatten
  | .cond notIf branches rest => bare (ifOpcode notIf)::(branches.flatten++rest.flatten)

def Branches.flatten : Branches → List Instr
  | .last body => body.flatten++[bare OP_ENDIF]
  | .more body rest => body.flatten++bare OP_ELSE::rest.flatten

end

/-- What there is to run a block on: the state of `EvalScript` without its conditionals. -/
structure Core where
  stack : List Valtype
  altstack : List Valtype
  nOpCount : Nat
deriving DecidableEq

def Core.within (c : Core) (vfExec : List Bool) : State := ⟨c.stack,c.altstack,vfExec,c.nOpCount⟩

def State.core (s : State) : Core := ⟨s.stack,s.altstack,s.nOpCount⟩

section Meaning

variable (C : Context)

def Core.count (i : Instr) (c : Core) : Except ScriptError Core := do
  let s ← countOp i (c.within [])
  return s.core

def Core.checkHeight (c : Core) : Except ScriptError Core := do
  reject (1000<c.stack.length+c.altstack.length) .stackSize
  return c

/-- One of the opcodes of a conditional, as far as it is only counted. -/
def Core.tick (opcode : Nat) (c : Core) : Except ScriptError Core := do
  let c ← c.count (bare opcode)
  c.checkHeight

/-- An instruction in no conditional. -/
def Straight.run (i : Straight) (c : Core) : Eval Core := do
  let s ← step C i.instr (c.within [])
  return s.core

/-- An instruction that is passed over. OP_VERIF and OP_VERNOTIF are refused also there. -/
def Straight.skip (i : Straight) (c : Core) : Except ScriptError Core := do
  let c ← c.count i.instr
  reject (OP_IF ≤ i.instr.opcode ∧ i.instr.opcode≤OP_ENDIF) .badOpcode
  c.checkHeight

mutual

def Block.skip : Block → Core → Except ScriptError Core
  | .nil,c => .ok c
  | .op i rest,c => do
    let c ← i.skip c
    rest.skip c
  | .cond notIf branches rest,c => do
    let c ← c.tick (ifOpcode notIf)
    let c ← branches.skip c
    rest.skip c

def Branches.skip : Branches → Core → Except ScriptError Core
  | .last body,c => do
    let c ← body.skip c
    c.tick OP_ENDIF
  | .more body rest,c => do
    let c ← body.skip c
    let c ← c.tick OP_ELSE
    rest.skip c

end

/-- The condition of a conditional, which it takes off the stack. -/
def Core.condition (notIf : Bool) (c : Core) : Except ScriptError (Bool × Core) := do
  let c ← c.count (bare (ifOpcode notIf))
  let top ← expect c.stack.head? .unbalancedConditional
  let c ← Core.checkHeight {c with stack := c.stack.tail}
  return (castToBool top != notIf,c)

mutual

/-- The meaning of a block: a conditional runs the branches its condition selects. -/
def Block.run : Block → Core → Eval Core
  | .nil,c => return c
  | .op i rest,c => do
    let c ← i.run C c
    rest.run c
  | .cond notIf branches rest,c => do
    let (taken,c) ← c.condition notIf
    let c ← branches.run taken c
    rest.run c

def Branches.run : Branches → Bool → Core → Eval Core
  | .last body,taken,c => do
    let c ← (if taken then body.run c else liftM (body.skip c))
    c.tick OP_ENDIF
  | .more body rest,taken,c => do
    let c ← (if taken then body.run c else liftM (body.skip c))
    let c ← c.tick OP_ELSE
    rest.run (!taken) c

end

end Meaning

section Steps

variable {C : Context} {c : Core} {ctx : List Bool}

theorem fExec_within (c : Core) (ctx : List Bool) : (c.within ctx).fExec=ctx.all id := rfl

theorem countOp_within (i : Instr) (c : Core) (ctx : List Bool) :
    countOp i (c.within ctx)=do
      let c ← c.count i
      return c.within ctx := by
  simp only [Core.count,countOp,bind_assoc,pure_bind]
  rfl

theorem ofCode_control {opcode : Nat} {op : Op} (h : Op.ofCode opcode=some op) :
    (op=.OP_IF → opcode=OP_IF) ∧ (op=.OP_NOTIF → opcode=OP_NOTIF) ∧
    (op=.OP_ELSE → opcode=OP_ELSE) ∧ (op=.OP_ENDIF → opcode=OP_ENDIF) := by
  rw [Op.ofCode] at h
  split at h
  · obtain rfl := Option.some.inj h
    simp
  · obtain ⟨before,after,htable,-⟩ := List.lookup_eq_some_iff.mp h
    have hmem : (opcode,op)∈opTable := by simp [htable]
    have hall : ∀p∈opTable,(p.2=.OP_IF → p.1=OP_IF) ∧ (p.2=.OP_NOTIF → p.1=OP_NOTIF) ∧
        (p.2=.OP_ELSE → p.1=OP_ELSE) ∧ (p.2=.OP_ENDIF → p.1=OP_ENDIF) := by decide
    exact hall _ hmem

/-- The open conditionals are of no account to the other opcodes. -/
theorem execute_within {opcode : Nat} {op : Op} (hop : Op.ofCode opcode=some op)
    (hstraight : ¬(Instr.mk opcode []).Conditional) (c : Core) (ctx : List Bool) :
    execute C op (c.within ctx)=do
      let s ← execute C op (c.within [])
      return s.core.within ctx := by
  have hcontrol := ofCode_control hop
  cases op
  case plain op =>
    simp only [execute,Traced.bind_assoc,Traced.pure_bind]
    rfl
  case OP_IF => exact absurd (.inl (hcontrol.1 rfl)) hstraight
  case OP_NOTIF => exact absurd (.inr (.inl (hcontrol.2.1 rfl))) hstraight
  case OP_ELSE => exact absurd (.inr (.inr (.inl (hcontrol.2.2.1 rfl)))) hstraight
  case OP_ENDIF => exact absurd (.inr (.inr (.inr (hcontrol.2.2.2 rfl)))) hstraight
  case OP_TOALTSTACK =>
    obtain ⟨stack,altstack,nOpCount⟩ := c
    cases stack <;> rfl
  case OP_FROMALTSTACK =>
    obtain ⟨stack,altstack,nOpCount⟩ := c
    cases altstack <;> rfl
  case OP_CHECKSIG =>
    simp only [execute,Traced.bind_assoc,Traced.pure_bind]
    rfl
  case OP_CHECKSIGVERIFY =>
    simp only [execute,Traced.bind_assoc,Traced.pure_bind]
    rfl
  case OP_CHECKMULTISIG =>
    simp only [execute,checkMultiSig,Traced.bind_assoc,Traced.pure_bind]
    rfl
  case OP_CHECKMULTISIGVERIFY =>
    simp only [execute,checkMultiSig,Traced.bind_assoc,Traced.pure_bind]
    rfl

theorem dispatch_within {i : Instr} (hstraight : ¬i.Conditional) (c : Core)
    (hctx : ctx.all id=true) :
    dispatch C i (c.within ctx)=do
      let s ← dispatch C i (c.within [])
      return s.core.within ctx := by
  unfold dispatch
  rw [fExec_within,fExec_within,hctx]
  by_cases hpush : i.opcode≤OP_PUSHDATA4
  · simp only [List.all_nil,hpush,and_self,if_true,Traced.bind_assoc,Traced.pure_bind]
    rfl
  · simp only [List.all_nil,hpush,and_false,if_false,true_or,if_true,Traced.bind_assoc]
    cases hop : Op.ofCode i.opcode with
    | none => rfl
    | some op =>
      have hcode : ¬(Instr.mk i.opcode []).Conditional := hstraight
      simp only [expect,Traced.lift_ok_bind]
      exact execute_within hop hcode c ctx

theorem step_straight (i : Straight) (c : Core) (hctx : ctx.all id=true) :
    step C i.instr (c.within ctx)=do
      let c ← i.run C c
      return c.within ctx := by
  have hdispatch (c : Core) := dispatch_within (C:=C) i.straight c hctx
  simp only [step,Straight.run,countOp_within,Traced.lift_bind,Traced.lift_pure,Traced.pure_bind,
    Traced.bind_assoc,hdispatch]
  rfl

/-- Where a branch is passed over, an instruction is only counted. -/
theorem step_skip (i : Straight) (c : Core) (hctx : ctx.all id=false) :
    step C i.instr (c.within ctx)=do
      let c ← i.skip c
      return c.within ctx := by
  have hdispatch (c : Core) : dispatch C i.instr (c.within ctx)=do
      reject (OP_IF ≤ i.instr.opcode ∧ i.instr.opcode≤OP_ENDIF) ScriptError.badOpcode
      return c.within ctx := by
    unfold dispatch
    rw [fExec_within,hctx]
    by_cases hrange : OP_IF ≤ i.instr.opcode ∧ i.instr.opcode≤OP_ENDIF
    · have hcode : i.instr.opcode=0x65 ∨ i.instr.opcode=0x66 := by
        have hstraight := i.straight
        simp only [Instr.Conditional,OP_IF,OP_NOTIF,OP_ELSE,OP_ENDIF] at hstraight hrange
        omega
      have hnone : Op.ofCode i.instr.opcode=none := by rcases hcode with h | h <;> rw [h] <;> rfl
      simp only [hrange,hnone,reject]
      rfl
    · simp only [hrange,reject]
      rfl
  simp only [step,Straight.skip,countOp_within,Traced.lift_bind,Traced.lift_pure,Traced.pure_bind,
    Traced.bind_assoc,hdispatch,Core.checkHeight]
  rfl

/-- The opcodes of a conditional are executed also where a branch is passed over. -/
theorem dispatch_control (opcode : Nat) (op : Op) (hop : Op.ofCode opcode=some op)
    (hlow : OP_IF≤opcode) (hhigh : opcode≤OP_ENDIF) (s : State) :
    dispatch C (bare opcode) s=execute C op s := by
  have hpush : ¬opcode≤OP_PUSHDATA4 := by
    have h1 : OP_IF=99 ∧ OP_PUSHDATA4=78 := ⟨rfl,rfl⟩
    omega
  simp only [dispatch,bare,hpush,hlow,hhigh,and_false,and_self,or_true,if_false,if_true,hop,expect,
    Traced.lift_ok_bind]

theorem dispatch_if (notIf : Bool) (s : State) :
    dispatch C (bare (ifOpcode notIf)) s=Traced.of (openBranch notIf s) := by
  cases notIf with
  | false => exact dispatch_control OP_IF .OP_IF rfl (by decide) (by decide) s
  | true => exact dispatch_control OP_NOTIF .OP_NOTIF rfl (by decide) (by decide) s

theorem step_if (notIf : Bool) (c : Core) (hctx : ctx.all id=true) :
    step C (bare (ifOpcode notIf)) (c.within ctx)=do
      let (taken,c) ← c.condition notIf
      return c.within (taken::ctx) := by
  have hdispatch (c : Core) : dispatch C (bare (ifOpcode notIf)) (c.within ctx)=do
      let top ← expect c.stack.head? ScriptError.unbalancedConditional
      return Core.within {c with stack := c.stack.tail} ((castToBool top != notIf)::ctx) := by
    obtain ⟨stack,altstack,nOpCount⟩ := c
    have hexec : (Core.within ⟨stack,altstack,nOpCount⟩ ctx).fExec=true := hctx
    rw [dispatch_if,openBranch,hexec]
    cases stack <;> rfl
  simp only [step,Core.condition,countOp_within,Traced.lift_bind,Traced.lift_pure,Traced.pure_bind,
    Traced.bind_assoc,hdispatch,Core.checkHeight]
  rfl

theorem step_if_skip (notIf : Bool) (c : Core) (hctx : ctx.all id=false) :
    step C (bare (ifOpcode notIf)) (c.within ctx)=do
      let c ← c.tick (ifOpcode notIf)
      return c.within (false::ctx) := by
  have hdispatch (c : Core) : dispatch C (bare (ifOpcode notIf)) (c.within ctx)=
      return c.within (false::ctx) := by
    have hexec : (c.within ctx).fExec=false := hctx
    rw [dispatch_if,openBranch,hexec]
    rfl
  simp only [step,Core.tick,countOp_within,Traced.lift_bind,Traced.lift_pure,Traced.pure_bind,
    Traced.bind_assoc,hdispatch,Core.checkHeight]
  rfl

theorem step_else (b : Bool) (c : Core) (ctx : List Bool) :
    step C (bare OP_ELSE) (c.within (b::ctx))=do
      let c ← c.tick OP_ELSE
      return c.within ((!b)::ctx) := by
  have hdispatch (c : Core) : dispatch C (bare OP_ELSE) (c.within (b::ctx))=
      return c.within ((!b)::ctx) :=
    dispatch_control OP_ELSE .OP_ELSE rfl (by decide) (by decide) _
  simp only [step,Core.tick,countOp_within,Traced.lift_bind,Traced.lift_pure,Traced.pure_bind,
    Traced.bind_assoc,hdispatch,Core.checkHeight]
  rfl

theorem step_endif (b : Bool) (c : Core) (ctx : List Bool) :
    step C (bare OP_ENDIF) (c.within (b::ctx))=do
      let c ← c.tick OP_ENDIF
      return c.within ctx := by
  have hdispatch (c : Core) : dispatch C (bare OP_ENDIF) (c.within (b::ctx))=
      return c.within ctx :=
    dispatch_control OP_ENDIF .OP_ENDIF rfl (by decide) (by decide) _
  simp only [step,Core.tick,countOp_within,Traced.lift_bind,Traced.lift_pure,Traced.pure_bind,
    Traced.bind_assoc,hdispatch,Core.checkHeight]
  rfl

end Steps

section Flattening

variable {C : Context}

theorem evalLoop_some (i : Instr) (is : List (Option Instr)) (s : State) :
    evalLoop C (some i::is) s=step C i s>>=evalLoop C is := rfl

mutual

theorem Block.skip_flatten (b : Block) (c : Core) {ctx : List Bool} (hctx : ctx.all id=false)
    (is : List (Option Instr)) :
    evalLoop C (b.flatten.map some++is) (c.within ctx)=
      (do let c ← b.skip c
          evalLoop C is (c.within ctx)) := by
  cases b with
  | nil => rfl
  | op i rest =>
    rw [Block.flatten,List.map_cons,List.cons_append,evalLoop_some,step_skip i c hctx,Block.skip]
    simp only [Traced.bind_assoc,Traced.pure_bind,Traced.lift_bind]
    exact bind_congr fun c => rest.skip_flatten c hctx is
  | cond notIf branches rest =>
    rw [Block.flatten,List.map_cons,List.cons_append,evalLoop_some,step_if_skip notIf c hctx,
      Block.skip,List.map_append,List.append_assoc]
    simp only [Traced.bind_assoc,Traced.pure_bind,Traced.lift_bind]
    refine bind_congr fun c => ?_
    rw [branches.skip_flatten false c hctx]
    exact bind_congr fun c => rest.skip_flatten c hctx is

theorem Branches.skip_flatten (bs : Branches) (taken : Bool) (c : Core) {ctx : List Bool}
    (hctx : ctx.all id=false) (is : List (Option Instr)) :
    evalLoop C (bs.flatten.map some++is) (c.within (taken::ctx))=
      (do let c ← bs.skip c
          evalLoop C is (c.within ctx)) := by
  have hout : (taken::ctx).all id=false := by rw [List.all_cons,hctx,Bool.and_false]
  cases bs with
  | last body =>
    rw [Branches.flatten,List.map_append,List.append_assoc,body.skip_flatten c hout,Branches.skip]
    simp only [Traced.bind_assoc,Traced.lift_bind]
    refine bind_congr fun c => ?_
    rw [List.map_singleton,List.singleton_append,evalLoop_some,step_endif]
    simp only [Traced.bind_assoc,Traced.pure_bind]
  | more body rest =>
    rw [Branches.flatten,List.map_append,List.append_assoc,body.skip_flatten c hout,Branches.skip]
    simp only [Traced.bind_assoc,Traced.lift_bind]
    refine bind_congr fun c => ?_
    rw [List.map_cons,List.cons_append,evalLoop_some,step_else]
    simp only [Traced.bind_assoc,Traced.pure_bind]
    exact bind_congr fun c => rest.skip_flatten (!taken) c hctx is

end

/-- A branch is run or passed over as the context says that is open around it. -/
theorem taken_flatten {body : Block} {c : Core} {ctx : List Bool} {is : List (Option Instr)}
    (taken : Bool) (hctx : ctx.all id=true)
    (hrun : ∀{ctx : List Bool},ctx.all id=true → ∀is : List (Option Instr),
      evalLoop C (body.flatten.map some++is) (c.within ctx)=
        (do let c ← body.run C c
            evalLoop C is (c.within ctx))) :
    evalLoop C (body.flatten.map some++is) (c.within (taken::ctx))=
      (do let c ← (if taken then body.run C c else liftM (body.skip c))
          evalLoop C is (c.within (taken::ctx))) := by
  cases taken with
  | true => exact hrun (by rw [List.all_cons,hctx]; rfl) is
  | false => exact body.skip_flatten c rfl is

mutual

theorem Block.run_flatten (b : Block) (c : Core) {ctx : List Bool} (hctx : ctx.all id=true)
    (is : List (Option Instr)) :
    evalLoop C (b.flatten.map some++is) (c.within ctx)=
      (do let c ← b.run C c
          evalLoop C is (c.within ctx)) := by
  cases b with
  | nil => rfl
  | op i rest =>
    rw [Block.flatten,List.map_cons,List.cons_append,evalLoop_some,step_straight i c hctx,Block.run]
    simp only [Traced.bind_assoc,Traced.pure_bind]
    exact bind_congr fun c => rest.run_flatten c hctx is
  | cond notIf branches rest =>
    rw [Block.flatten,List.map_cons,List.cons_append,evalLoop_some,step_if notIf c hctx,
      Block.run,List.map_append,List.append_assoc]
    simp only [Traced.bind_assoc,Traced.pure_bind]
    refine bind_congr fun cond => ?_
    rw [branches.run_flatten cond.1 cond.2 hctx]
    exact bind_congr fun c => rest.run_flatten c hctx is

theorem Branches.run_flatten (bs : Branches) (taken : Bool) (c : Core) {ctx : List Bool}
    (hctx : ctx.all id=true) (is : List (Option Instr)) :
    evalLoop C (bs.flatten.map some++is) (c.within (taken::ctx))=
      (do let c ← bs.run C taken c
          evalLoop C is (c.within ctx)) := by
  cases bs with
  | last body =>
    rw [Branches.flatten,List.map_append,List.append_assoc,
      taken_flatten taken hctx (body.run_flatten c),Branches.run]
    simp only [Traced.bind_assoc]
    refine bind_congr fun c => ?_
    rw [List.map_singleton,List.singleton_append,evalLoop_some,step_endif]
    simp only [Traced.bind_assoc,Traced.pure_bind]
  | more body rest =>
    rw [Branches.flatten,List.map_append,List.append_assoc,
      taken_flatten taken hctx (body.run_flatten c),Branches.run]
    simp only [Traced.bind_assoc]
    refine bind_congr fun c => ?_
    rw [List.map_cons,List.cons_append,evalLoop_some,step_else]
    simp only [Traced.bind_assoc,Traced.pure_bind]
    exact bind_congr fun c => rest.run_flatten (!taken) c hctx is

end

end Flattening

section Nesting

/-- How many conditionals are open behind some instructions; `none` where one is switched or
closed that is not open. -/
def nest : List Instr → Nat → Option Nat
  | [],depth => some depth
  | i::is,depth =>
    if i.opcode=OP_IF ∨ i.opcode=OP_NOTIF then nest is (depth+1)
    else if i.opcode=OP_ELSE then if depth=0 then none else nest is depth
    else if i.opcode=OP_ENDIF then if depth=0 then none else nest is (depth-1)
    else nest is depth

/-- No opcode of a conditional has an operand. -/
def Instr.Bare (i : Instr) : Prop := OP_PUSHDATA4 < i.opcode → i.vchPushValue=[]

theorem bare_of_readOps {script : List UInt8} {is : List Instr} (h : readOps script=is.map some) :
    ∀i∈is,i.Bare := by
  induction is generalizing script with
  | nil => exact fun i hi => absurd hi List.not_mem_nil
  | cons i is ih =>
    obtain ⟨rest,hop,hrest⟩ := readOps_eq_cons h
    refine List.forall_mem_cons.mpr ⟨fun hlt => ?_,ih hrest⟩
    cases script with
    | nil => simp [getOp] at hop
    | cons b pc =>
      obtain ⟨-,hpc⟩ := getOp_eq_some.mp hop
      rw [if_neg (by omega)] at hpc
      exact hpc.1

theorem Instr.Bare.eq_bare {i : Instr} (h : i.Bare) {opcode : Nat} (hop : i.opcode=opcode)
    (hlt : OP_PUSHDATA4<opcode) : i=bare opcode := by
  cases i
  simp only at hop
  subst hop
  exact congrArg _ (h hlt)

/-- A list of instructions that closes all it opens begins with a block, and ends with it or
goes on with the end of a branch. -/
def StartsWithBlock (is : List Instr) (depth : Nat) : Prop :=
  ∃(block : Block) (rest : List Instr),is=block.flatten++rest ∧ nest rest depth=some 0 ∧
    ∀j∈rest.head?,j.opcode=OP_ELSE ∨ j.opcode=OP_ENDIF

def StartsWithBranches (is : List Instr) (depth : Nat) : Prop :=
  ∃(branches : Branches) (rest : List Instr),is=branches.flatten++rest ∧ nest rest depth=some 0

theorem startsWith_nil (depth : Nat) : nest [] depth=some 0 → StartsWithBlock [] depth :=
  fun h => ⟨.nil,[],rfl,h,fun j hj => by cases hj⟩

/-- Both by the length of the list: a block goes on behind its first instruction, the branches
behind the block they begin with. -/
theorem startsWith {is : List Instr} (hbare : ∀i∈is,i.Bare) (depth : Nat) :
    (nest is depth=some 0 → StartsWithBlock is depth) ∧
      (nest is (depth+1)=some 0 → StartsWithBranches is depth) := by
  induction hlen : is.length using Nat.strong_induction_on generalizing is depth with
  | _ n ih =>
    have hblock (depth : Nat) (h : nest is depth=some 0) : StartsWithBlock is depth := by
      cases is with
      | nil => exact startsWith_nil depth h
      | cons i is =>
        obtain ⟨hi,his⟩ := List.forall_mem_cons.mp hbare
        have hrest (rest : List Instr) (hsub : rest.length ≤ is.length) (hb : ∀i∈rest,i.Bare)
            (depth : Nat) := ih rest.length (by rw [← hlen,List.length_cons]; omega) hb depth rfl
        by_cases hif : i.opcode=OP_IF ∨ i.opcode=OP_NOTIF
        · rw [nest,if_pos hif] at h
          obtain ⟨branches,rest,rfl,hnest⟩ := (hrest is (le_refl _) his depth).2 h
          have hb : ∀i∈rest,i.Bare := fun j hj => his j (List.mem_append_right _ hj)
          obtain ⟨block,rest',rfl,hnest',hend⟩ := (hrest rest (by simp) hb depth).1 hnest
          obtain ⟨notIf,hcode⟩ : ∃notIf,i.opcode=ifOpcode notIf :=
            hif.elim (fun h => ⟨false,h⟩) fun h => ⟨true,h⟩
          refine ⟨.cond notIf branches block,rest',?_,hnest',hend⟩
          rw [Block.flatten,hi.eq_bare hcode (by cases notIf <;> decide),List.cons_append,
            List.append_assoc]
        by_cases hend : i.opcode=OP_ELSE ∨ i.opcode=OP_ENDIF
        · exact ⟨.nil,i::is,rfl,h,fun j hj => by obtain rfl := Option.some.inj hj; exact hend⟩
        · obtain ⟨helse,hendif⟩ := not_or.mp hend
          rw [nest,if_neg hif,if_neg helse,if_neg hendif] at h
          obtain ⟨block,rest,rfl,hnest,hlast⟩ := (hrest is (le_refl _) his depth).1 h
          have hstraight : ¬i.Conditional := by
            rintro (h | h | h)
            · exact hif (.inl h)
            · exact hif (.inr h)
            · exact hend h
          exact ⟨.op ⟨i,hstraight⟩ block,rest,by rw [Block.flatten,List.cons_append],hnest,hlast⟩
    refine ⟨hblock depth,fun h => ?_⟩
    obtain ⟨block,rest,rfl,hnest,hend⟩ := hblock (depth+1) h
    cases rest with
    | nil => exact absurd (Option.some.inj hnest) (by omega)
    | cons j rest =>
      obtain ⟨hj,hb⟩ := List.forall_mem_cons.mp fun i hi => hbare i (List.mem_append_right _ hi)
      rcases hend j rfl with hcode | hcode
      · have hif : ¬(j.opcode=OP_IF ∨ j.opcode=OP_NOTIF) := by rw [hcode]; decide
        rw [nest,if_neg hif,if_pos hcode,if_neg (Nat.succ_ne_zero depth)] at hnest
        have hshort : rest.length<n := by
          rw [← hlen,List.length_append,List.length_cons]
          omega
        obtain ⟨branches,rest',rfl,hnest'⟩ := (ih rest.length hshort hb depth rfl).2 hnest
        refine ⟨.more block branches,rest',?_,hnest'⟩
        rw [Branches.flatten,hj.eq_bare hcode (by decide),List.append_assoc,List.cons_append]
      · have hif : ¬(j.opcode=OP_IF ∨ j.opcode=OP_NOTIF) := by rw [hcode]; decide
        have helse : ¬j.opcode=OP_ELSE := by rw [hcode]; decide
        rw [nest,if_neg hif,if_neg helse,if_pos hcode,if_neg (Nat.succ_ne_zero depth),
          Nat.add_sub_cancel] at hnest
        refine ⟨.last block,rest,?_,hnest⟩
        rw [Branches.flatten,hj.eq_bare hcode (by decide),List.append_assoc,List.singleton_append]

/-- What closes all it opens is a block. -/
theorem exists_block {is : List Instr} (hbare : ∀i∈is,i.Bare) (h : nest is 0=some 0) :
    ∃block : Block,is=block.flatten := by
  obtain ⟨block,rest,rfl,hnest,hend⟩ := (startsWith hbare 0).1 h
  cases rest with
  | nil => exact ⟨block,List.append_nil _⟩
  | cons j rest =>
    have hnone : nest (j::rest) 0=none := by
      rcases hend j rfl with hcode | hcode <;> simp [nest,hcode,OP_IF,OP_NOTIF,OP_ELSE,OP_ENDIF]
    cases hnone.symm.trans hnest

theorem nest_cons (i : Instr) (is : List Instr) (depth : Nat) :
    nest (i::is) depth=(nest [i] depth).bind (nest is) := by
  simp only [nest]
  split_ifs <;> rfl

end Nesting

section Evaluation

variable {C : Context} {s s' : State}

theorem nest_straight {i : Instr} (h : ¬i.Conditional) (depth : Nat) :
    nest [i] depth=some depth := by
  obtain ⟨hif,h⟩ := not_or.mp h
  obtain ⟨hnotif,h⟩ := not_or.mp h
  obtain ⟨helse,hendif⟩ := not_or.mp h
  simp only [nest,hif,hnotif,helse,hendif,or_self,if_false]

/-- Where no conditional is open none can be switched or closed. -/
theorem step_closed {opcode : Nat} (hcode : opcode=OP_ELSE ∨ opcode=OP_ENDIF) (hs : s.vfExec=[])
    (h : (step C (bare opcode) s).result=.ok s') : False := by
  obtain ⟨counted,hcount,hdispatch,-⟩ := step_ok_iff.mp h
  obtain ⟨-,-,-,rfl⟩ := countOp_ok_iff.mp hcount
  rcases hcode with rfl | rfl
  · rw [dispatch_control OP_ELSE .OP_ELSE rfl (by decide) (by decide),execute] at hdispatch
    simp only [hs] at hdispatch
    cases hdispatch
  · rw [dispatch_control OP_ENDIF .OP_ENDIF rfl (by decide) (by decide),execute] at hdispatch
    simp only [hs] at hdispatch
    cases hdispatch

theorem within_ok {m : Eval Core} {ctx : List Bool}
    (h : (m>>=fun c => pure (c.within ctx)).result=.ok s') : s'.vfExec=ctx := by
  rw [Traced.result_bind,bind_ok] at h
  obtain ⟨c,-,hc⟩ := h
  rw [← Except.ok.inj hc]
  rfl

/-- What one instruction does to the number of the open conditionals. -/
theorem step_nest {i : Instr} (hbare : i.Bare) (h : (step C i s).result=.ok s') :
    nest [i] s.vfExec.length=some s'.vfExec.length := by
  by_cases hif : i.opcode=OP_IF ∨ i.opcode=OP_NOTIF
  · obtain ⟨notIf,hcode⟩ : ∃notIf,i.opcode=ifOpcode notIf :=
      hif.elim (fun h => ⟨false,h⟩) fun h => ⟨true,h⟩
    have hi := hbare.eq_bare hcode (by cases notIf <;> decide)
    have hopen : s'.vfExec.length=s.vfExec.length+1 := by
      rw [hi] at h
      cases hexec : s.vfExec.all id with
      | true =>
        rw [show step C (bare (ifOpcode notIf)) s=_ from step_if notIf s.core hexec,
          Traced.result_bind,bind_ok] at h
        obtain ⟨⟨taken,c⟩,-,hc⟩ := h
        rw [← Except.ok.inj hc]
        rfl
      | false =>
        rw [show step C (bare (ifOpcode notIf)) s=_ from step_if_skip notIf s.core hexec] at h
        rw [within_ok h,List.length_cons]
    rw [nest,if_pos hif,nest,hopen]
  by_cases hend : i.opcode=OP_ELSE ∨ i.opcode=OP_ENDIF
  · have hpush : OP_PUSHDATA4 < i.opcode := by rcases hend with h | h <;> rw [h] <;> decide
    have hi := hbare.eq_bare rfl hpush
    rw [hi] at h
    cases hctx : s.vfExec with
    | nil => exact (step_closed hend hctx h).elim
    | cons b ctx =>
      have hs : s=s.core.within (b::ctx) := by rw [← hctx]; rfl
      rcases hend with hcode | hcode
      · rw [hcode,hs,step_else] at h
        rw [within_ok h,nest,if_neg hif,if_pos hcode,if_neg (by simp),nest]
        rfl
      · have helse : ¬i.opcode=OP_ELSE := by rw [hcode]; decide
        rw [hcode,hs,step_endif] at h
        rw [within_ok h,nest,if_neg hif,if_neg helse,if_pos hcode,if_neg (by simp),nest]
        rfl
  · obtain ⟨helse,hendif⟩ := not_or.mp hend
    obtain ⟨hif,hnotif⟩ := not_or.mp hif
    have hstraight : ¬i.Conditional := by
      rintro (h | h | h | h) <;> contradiction
    rw [nest_straight hstraight]
    cases hexec : s.vfExec.all id with
    | true =>
      rw [show step C i s=_ from step_straight ⟨i,hstraight⟩ s.core hexec] at h
      rw [within_ok h]
    | false =>
      rw [show step C i s=_ from step_skip ⟨i,hstraight⟩ s.core hexec] at h
      rw [within_ok h]

/-- Evaluation goes on only while the conditionals nest. -/
theorem nest_evalLoop {is : List Instr} (hbare : ∀i∈is,i.Bare)
    (h : (evalLoop C (is.map some) s).result=.ok s') :
    nest is s.vfExec.length=some s'.vfExec.length := by
  induction is generalizing s with
  | nil =>
    rw [← Except.ok.inj h]
    rfl
  | cons i is ih =>
    obtain ⟨hi,his⟩ := List.forall_mem_cons.mp hbare
    rw [List.map_cons,evalLoop_some,Traced.result_bind,bind_ok] at h
    obtain ⟨s1,hstep,hrest⟩ := h
    rw [nest_cons,step_nest hi hstep]
    exact ih his hrest

/-- Evaluation succeeds only on scripts all of which can be read. -/
theorem evalLoop_readable {is : List (Option Instr)} (h : (evalLoop C is s).result=.ok s') :
    ∃js : List Instr,is=js.map some := by
  induction is generalizing s with
  | nil => exact ⟨[],rfl⟩
  | cons i is ih =>
    cases i with
    | none => cases h
    | some i =>
      rw [evalLoop_some,Traced.result_bind,bind_ok] at h
      obtain ⟨s1,-,hrest⟩ := h
      obtain ⟨js,rfl⟩ := ih hrest
      exact ⟨i::js,rfl⟩

theorem evalLoop_block (C : Context) (b : Block) (stack : List Valtype) :
    (evalLoop C (b.flatten.map some) (State.start stack)).result=.ok s ↔
      ∃c,(b.run C ⟨stack,[],0⟩).result=.ok c ∧ c.within []=s := by
  have hnone : ([] : List Bool).all id=true := rfl
  have h := b.run_flatten (C:=C) ⟨stack,[],0⟩ hnone []
  rw [List.append_nil] at h
  rw [show State.start stack=Core.within ⟨stack,[],0⟩ [] from rfl,h,Traced.result_bind,bind_ok]
  exact exists_congr fun c => and_congr_right fun _ => pure_ok

/-- `EvalScript` succeeds on the scripts that are blocks, and then computes what the block means:
the running list of the open conditionals does what the nesting of the script says. -/
theorem evalScript_iff_block (C : Context) (stack stack' : List Valtype) :
    (evalScript C stack).result=.ok stack' ↔ C.script.length≤MAX_SCRIPT_SIZE ∧
      ∃block : Block,readOps C.script=block.flatten.map some ∧
        ∃c,(block.run C ⟨stack,[],0⟩).result=.ok c ∧ c.stack=stack' := by
  rw [evalScript_ok_iff]
  refine and_congr_right fun _ => ?_
  constructor
  · rintro ⟨s,hloop,hclosed,rfl⟩
    obtain ⟨is,his⟩ := evalLoop_readable hloop
    rw [his] at hloop
    have hnest := nest_evalLoop (bare_of_readOps his) hloop
    rw [hclosed] at hnest
    obtain ⟨block,rfl⟩ := exists_block (bare_of_readOps his) hnest
    obtain ⟨c,hrun,rfl⟩ := (evalLoop_block C block stack).mp hloop
    exact ⟨block,his,c,hrun,rfl⟩
  · rintro ⟨block,hblock,c,hrun,rfl⟩
    exact ⟨c.within [],hblock▸(evalLoop_block C block stack).mpr ⟨c,hrun,rfl⟩,rfl,rfl⟩

end Evaluation

end Zdeex.Script
