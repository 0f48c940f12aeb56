import Zdeex.Framework.Checks
import Zdeex.Framework.Traced
import Zdeex.Script.Instructions

namespace Zdeex.Script

open Zdeex.Framework

def MAX_SCRIPT_ELEMENT_SIZE : Nat := 520
def MAX_SCRIPT_CRYPTOCONDITION_FULFILLMENT_SIZE : Nat := 2048
def MAX_SCRIPT_SIZE : Nat := 10000

def OP_IF : Nat := 0x63
def OP_ENDIF : Nat := 0x68
def OP_EQUAL : Nat := 0x87
def OP_HASH160 : Nat := 0xa9
def OP_CHECKCRYPTOCONDITION : Nat := 0xcc

inductive ScriptError
  | unknownError | evalFalse | opReturn
  | scriptSize | pushSize | opCount | stackSize | sigCount | pubkeyCount
  | verify | equalVerify | checkMultiSigVerify | checkSigVerify | numEqualVerify
  | badOpcode | disabledOpcode | invalidStackOperation | invalidAltStackOperation
  | unbalancedConditional
  | negativeLockTime | unsatisfiedLockTime
  | sigHashType | sigDer | minimalData | sigPushOnly | sigNullDummy | pubkeyType | cleanStack
  | discourageUpgradableNops
  | cryptoConditionVerify | cryptoConditionInvalidFulfillment
deriving DecidableEq

abbrev Flags := BitVec 32

def SCRIPT_VERIFY_P2SH : Flags := 1#32<<<0
def SCRIPT_VERIFY_STRICTENC : Flags := 1#32<<<1
def SCRIPT_VERIFY_LOW_S : Flags := 1#32<<<3
def SCRIPT_VERIFY_NULLDUMMY : Flags := 1#32<<<4
def SCRIPT_VERIFY_SIGPUSHONLY : Flags := 1#32<<<5
def SCRIPT_VERIFY_MINIMALDATA : Flags := 1#32<<<6
def SCRIPT_VERIFY_DISCOURAGE_UPGRADABLE_NOPS : Flags := 1#32<<<7
def SCRIPT_VERIFY_CLEANSTACK : Flags := 1#32<<<8
def SCRIPT_VERIFY_CHECKLOCKTIMEVERIFY : Flags := 1#32<<<9

def Flags.has (flags flag : Flags) : Bool := flags &&& flag≠0

/-- The opcodes `EvalScript` refuses wherever they stand. -/
def disabledOpcodes : List Nat :=
  [0x7e, 0x7f, 0x80, 0x81, 0x83, 0x84, 0x85, 0x86, 0x8d, 0x8e, 0x95, 0x96, 0x97, 0x98, 0x99, 0xab]

inductive Shuffle
  | OP_2DROP | OP_2DUP | OP_3DUP | OP_2OVER | OP_2ROT | OP_2SWAP | OP_DROP | OP_DUP | OP_NIP
  | OP_OVER | OP_ROT | OP_SWAP | OP_TUCK
deriving DecidableEq

inductive UnaryOp
  | OP_1ADD | OP_1SUB | OP_NEGATE | OP_ABS | OP_NOT | OP_0NOTEQUAL
deriving DecidableEq

inductive BinaryOp
  | OP_ADD | OP_SUB | OP_BOOLAND | OP_BOOLOR | OP_NUMEQUAL | OP_NUMEQUALVERIFY | OP_NUMNOTEQUAL
  | OP_LESSTHAN | OP_GREATERTHAN | OP_LESSTHANOREQUAL | OP_GREATERTHANOREQUAL | OP_MIN | OP_MAX
deriving DecidableEq

inductive HashOp
  | OP_RIPEMD160 | OP_SHA1 | OP_SHA256 | OP_HASH160 | OP_HASH256
deriving DecidableEq

/-- The cases of the switch that touch nothing but the stack. -/
inductive PlainOp
  | number (n : Int)
  | OP_NOP | OP_CHECKLOCKTIMEVERIFY | upgradableNop
  | OP_VERIFY | OP_RETURN
  | shuffle (op : Shuffle)
  | OP_IFDUP | OP_DEPTH | OP_PICK | OP_ROLL | OP_SIZE | OP_EQUAL | OP_EQUALVERIFY
  | unary (op : UnaryOp)
  | binary (op : BinaryOp)
  | OP_WITHIN
  | hash (op : HashOp)
  | OP_CHECKCRYPTOCONDITION | OP_CHECKCRYPTOCONDITIONVERIFY
deriving DecidableEq

inductive Op
  | plain (op : PlainOp)
  | OP_IF | OP_NOTIF | OP_ELSE | OP_ENDIF
  | OP_TOALTSTACK | OP_FROMALTSTACK
  | OP_CHECKSIG | OP_CHECKSIGVERIFY | OP_CHECKMULTISIG | OP_CHECKMULTISIGVERIFY
deriving DecidableEq

/-- The labels of the switch, less those of `OP_1NEGATE` and `OP_1` to `OP_16`. -/
def opTable : List (Nat × Op) :=
  [(0x61,.plain .OP_NOP),
    (0x63,.OP_IF),
    (0x64,.OP_NOTIF),
    (0x67,.OP_ELSE),
    (0x68,.OP_ENDIF),
    (0x69,.plain .OP_VERIFY),
    (0x6a,.plain .OP_RETURN),
    (0x6b,.OP_TOALTSTACK),
    (0x6c,.OP_FROMALTSTACK),
    (0x6d,.plain (.shuffle .OP_2DROP)),
    (0x6e,.plain (.shuffle .OP_2DUP)),
    (0x6f,.plain (.shuffle .OP_3DUP)),
    (0x70,.plain (.shuffle .OP_2OVER)),
    (0x71,.plain (.shuffle .OP_2ROT)),
    (0x72,.plain (.shuffle .OP_2SWAP)),
    (0x73,.plain .OP_IFDUP),
    (0x74,.plain .OP_DEPTH),
    (0x75,.plain (.shuffle .OP_DROP)),
    (0x76,.plain (.shuffle .OP_DUP)),
    (0x77,.plain (.shuffle .OP_NIP)),
    (0x78,.plain (.shuffle .OP_OVER)),
    (0x79,.plain .OP_PICK),
    (0x7a,.plain .OP_ROLL),
    (0x7b,.plain (.shuffle .OP_ROT)),
    (0x7c,.plain (.shuffle .OP_SWAP)),
    (0x7d,.plain (.shuffle .OP_TUCK)),
    (0x82,.plain .OP_SIZE),
    (0x87,.plain .OP_EQUAL),
    (0x88,.plain .OP_EQUALVERIFY),
    (0x8b,.plain (.unary .OP_1ADD)),
    (0x8c,.plain (.unary .OP_1SUB)),
    (0x8f,.plain (.unary .OP_NEGATE)),
    (0x90,.plain (.unary .OP_ABS)),
    (0x91,.plain (.unary .OP_NOT)),
    (0x92,.plain (.unary .OP_0NOTEQUAL)),
    (0x93,.plain (.binary .OP_ADD)),
    (0x94,.plain (.binary .OP_SUB)),
    (0x9a,.plain (.binary .OP_BOOLAND)),
    (0x9b,.plain (.binary .OP_BOOLOR)),
    (0x9c,.plain (.binary .OP_NUMEQUAL)),
    (0x9d,.plain (.binary .OP_NUMEQUALVERIFY)),
    (0x9e,.plain (.binary .OP_NUMNOTEQUAL)),
    (0x9f,.plain (.binary .OP_LESSTHAN)),
    (0xa0,.plain (.binary .OP_GREATERTHAN)),
    (0xa1,.plain (.binary .OP_LESSTHANOREQUAL)),
    (0xa2,.plain (.binary .OP_GREATERTHANOREQUAL)),
    (0xa3,.plain (.binary .OP_MIN)),
    (0xa4,.plain (.binary .OP_MAX)),
    (0xa5,.plain .OP_WITHIN),
    (0xa6,.plain (.hash .OP_RIPEMD160)),
    (0xa7,.plain (.hash .OP_SHA1)),
    (0xa8,.plain (.hash .OP_SHA256)),
    (0xa9,.plain (.hash .OP_HASH160)),
    (0xaa,.plain (.hash .OP_HASH256)),
    (0xac,.OP_CHECKSIG),
    (0xad,.OP_CHECKSIGVERIFY),
    (0xae,.OP_CHECKMULTISIG),
    (0xaf,.OP_CHECKMULTISIGVERIFY),
    (0xb0,.plain .upgradableNop),
    (0xb1,.plain .OP_CHECKLOCKTIMEVERIFY),
    (0xb2,.plain .upgradableNop),
    (0xb3,.plain .upgradableNop),
    (0xb4,.plain .upgradableNop),
    (0xb5,.plain .upgradableNop),
    (0xb6,.plain .upgradableNop),
    (0xb7,.plain .upgradableNop),
    (0xb8,.plain .upgradableNop),
    (0xb9,.plain .upgradableNop),
    (0xcc,.plain .OP_CHECKCRYPTOCONDITION),
    (0xcd,.plain .OP_CHECKCRYPTOCONDITIONVERIFY)]

/-- Which case of the switch an opcode above `OP_PUSHDATA4` goes to. -/
def Op.ofCode (opcode : Nat) : Option Op :=
  if opcode=OP_1NEGATE ∨ (OP_1≤opcode ∧ opcode≤OP_16) then
    some (.plain (.number (opcode-(OP_1-1))))
  else opTable.lookup opcode

structure Digest (size : Nat) where
  bytes : Valtype
  sized : bytes.length=size

/-- What the interpreter takes from the hash functions, the curve library and the chain's
parameters. -/
structure Primitives where
  ripemd160 : Valtype → Digest 20
  sha1 : Valtype → Digest 20
  sha256 : Valtype → Digest 32
  checkLowS : Valtype → Bool
  isCryptoConditionsEnabled : Bool

structure BaseSignatureChecker where
  checkSig : Valtype → Valtype → List UInt8 → UInt32 → Bool
  checkLockTime : Int → Bool
  checkCryptoCondition : Valtype → Valtype → List UInt8 → UInt32 → Int

/-- The arguments of `EvalScript` besides the stack. -/
structure Context extends Primitives where
  script : List UInt8
  flags : Flags
  checker : BaseSignatureChecker
  consensusBranchId : UInt32

/-- Where nothing is accepted: no signature, no lock time and no fulfillment. -/
def Context.refusing (script : List UInt8) (flags : Flags) : Context where
  ripemd160 _ := ⟨List.replicate 20 0,rfl⟩
  sha1 _ := ⟨List.replicate 20 0,rfl⟩
  sha256 _ := ⟨List.replicate 32 0,rfl⟩
  checkLowS _ := true
  isCryptoConditionsEnabled := false
  script
  flags
  checker := ⟨fun _ _ _ _ => false,fun _ => false,fun _ _ _ _ => 0⟩
  consensusBranchId := 0

/-- The local state of `EvalScript`; the stacks and `vfExec` with their last element first. -/
structure State where
  stack : List Valtype
  altstack : List Valtype
  vfExec : List Bool
  nOpCount : Nat
deriving DecidableEq

/-- One call of `CheckSig`: the signature and the key. -/
abbrev SigQuery := Valtype × Valtype

abbrev Eval := Traced SigQuery ScriptError

def vchFalse : Valtype := []
def vchTrue : Valtype := [1]

def vchBool (b : Bool) : Valtype := if b then vchTrue else vchFalse

/-- The end of an opcode and of its VERIFY form: the answer is left on the stack, or must be
true. -/
def answer (verify : Option ScriptError) (fOk : Bool) (stack : List Valtype) :
    Except ScriptError (List Valtype) :=
  match verify with
  | none => .ok (vchBool fOk::stack)
  | some e => if fOk then .ok stack else .error e

section Encoding

/-- `IsCompressedOrUncompressedPubKey`. -/
def isCompressedOrUncompressedPubKey (vchPubKey : Valtype) : Bool :=
  if vchPubKey.length<33 then false
  else if vchPubKey.headD 0=0x04 then vchPubKey.length=65
  else if vchPubKey.headD 0=0x02 ∨ vchPubKey.headD 0=0x03 then vchPubKey.length=33
  else false

/-- `IsValidSignatureEncoding`. -/
def isValidSignatureEncoding (sig : Valtype) : Bool :=
  let at_ (n : Nat) : UInt8 := sig.getD n 0
  let lenR := (at_ 3).toNat
  let lenS := (at_ (5+lenR)).toNat
  9 ≤ sig.length && sig.length≤73 &&
  at_ 0=0x30 && (at_ 1).toNat=sig.length-3 &&
  5+lenR<sig.length && lenR+lenS+7=sig.length &&
  at_ 2=0x02 && lenR≠0 && at_ 4 &&& 0x80=0 &&
  !(1<lenR && at_ 4=0x00 && at_ 5 &&& 0x80=0) &&
  at_ (lenR+4)=0x02 && lenS≠0 && at_ (lenR+6) &&& 0x80=0 &&
  !(1<lenS && at_ (lenR+6)=0x00 && at_ (lenR+7) &&& 0x80=0)

def SIGHASH_ALL : UInt8 := 1
def SIGHASH_NONE : UInt8 := 2
def SIGHASH_SINGLE : UInt8 := 3
def SIGHASH_ANYONECANPAY : UInt8 := 0x80

/-- `IsDefinedHashtypeSignature`. -/
def isDefinedHashtypeSignature (vchSig : Valtype) : Bool :=
  let nHashType := vchSig.getLastD 0 &&& ~~~SIGHASH_ANYONECANPAY
  vchSig≠[] && !(nHashType<SIGHASH_ALL || SIGHASH_SINGLE<nHashType)

variable (C : Context)

/-- `IsLowDERSignature`. A high S leaves the error as `EvalScript` set it. -/
def isLowDERSignature (vchSig : Valtype) : Except ScriptError Unit := do
  reject (!isValidSignatureEncoding vchSig) .sigDer
  reject (!C.checkLowS vchSig.dropLast) .unknownError

def checkLowDER (vchSig : Valtype) : Except ScriptError Unit :=
  if C.flags.has SCRIPT_VERIFY_LOW_S then isLowDERSignature C vchSig else .ok ()

/-- `CheckSignatureEncoding`; an empty signature is a way to give an invalid one. -/
def checkSignatureEncoding (vchSig : Valtype) : Except ScriptError Unit :=
  if vchSig=[] then .ok ()
  else do
    reject (!isValidSignatureEncoding vchSig) .sigDer
    checkLowDER C vchSig
    reject (C.flags.has SCRIPT_VERIFY_STRICTENC && !isDefinedHashtypeSignature vchSig) .sigHashType

def checkPubKeyEncoding (vchPubKey : Valtype) : Except ScriptError Unit :=
  reject (C.flags.has SCRIPT_VERIFY_STRICTENC && !isCompressedOrUncompressedPubKey vchPubKey)
    .pubkeyType

end Encoding

section Opcodes

variable (C : Context)

/-- A stack element as a number; what the constructor throws is caught at the end. -/
def number (vch : Valtype) (nMaxNumSize : Nat) : Except ScriptError Int :=
  match cScriptNum vch (C.flags.has SCRIPT_VERIFY_MINIMALDATA) nMaxNumSize with
  | .error _ => .error .unknownError
  | .ok value => .ok value

def shuffle : Shuffle → List Valtype → Option (List Valtype)
  | .OP_2DROP,_::_::s => some s
  | .OP_2DUP,x2::x1::s => some (x2::x1::x2::x1::s)
  | .OP_3DUP,x3::x2::x1::s => some (x3::x2::x1::x3::x2::x1::s)
  | .OP_2OVER,x4::x3::x2::x1::s => some (x2::x1::x4::x3::x2::x1::s)
  | .OP_2ROT,x6::x5::x4::x3::x2::x1::s => some (x2::x1::x6::x5::x4::x3::s)
  | .OP_2SWAP,x4::x3::x2::x1::s => some (x2::x1::x4::x3::s)
  | .OP_DROP,_::s => some s
  | .OP_DUP,x::s => some (x::x::s)
  | .OP_NIP,x2::_::s => some (x2::s)
  | .OP_OVER,x2::x1::s => some (x1::x2::x1::s)
  | .OP_ROT,x3::x2::x1::s => some (x1::x3::x2::s)
  | .OP_SWAP,x2::x1::s => some (x1::x2::s)
  | .OP_TUCK,x2::x1::s => some (x2::x1::x2::s)
  | _,_ => none

def ofBool (b : Bool) : Int := if b then 1 else 0

def unary : UnaryOp → Int → Int
  | .OP_1ADD,bn => bn+1
  | .OP_1SUB,bn => bn-1
  | .OP_NEGATE,bn => -bn
  | .OP_ABS,bn => if bn<0 then -bn else bn
  | .OP_NOT,bn => ofBool (bn=0)
  | .OP_0NOTEQUAL,bn => ofBool (bn≠0)

def binary : BinaryOp → Int → Int → Int
  | .OP_ADD,bn1,bn2 => bn1+bn2
  | .OP_SUB,bn1,bn2 => bn1-bn2
  | .OP_BOOLAND,bn1,bn2 => ofBool (bn1≠0 && bn2≠0)
  | .OP_BOOLOR,bn1,bn2 => ofBool (bn1≠0 || bn2≠0)
  | .OP_NUMEQUAL,bn1,bn2 => ofBool (bn1=bn2)
  | .OP_NUMEQUALVERIFY,bn1,bn2 => ofBool (bn1=bn2)
  | .OP_NUMNOTEQUAL,bn1,bn2 => ofBool (bn1≠bn2)
  | .OP_LESSTHAN,bn1,bn2 => ofBool (bn1<bn2)
  | .OP_GREATERTHAN,bn1,bn2 => ofBool (bn2<bn1)
  | .OP_LESSTHANOREQUAL,bn1,bn2 => ofBool (bn1≤bn2)
  | .OP_GREATERTHANOREQUAL,bn1,bn2 => ofBool (bn2≤bn1)
  | .OP_MIN,bn1,bn2 => if bn1<bn2 then bn1 else bn2
  | .OP_MAX,bn1,bn2 => if bn2<bn1 then bn1 else bn2

def hash : HashOp → Valtype → Valtype
  | .OP_RIPEMD160,vch => (C.ripemd160 vch).bytes
  | .OP_SHA1,vch => (C.sha1 vch).bytes
  | .OP_SHA256,vch => (C.sha256 vch).bytes
  | .OP_HASH160,vch => (C.ripemd160 (C.sha256 vch).bytes).bytes
  | .OP_HASH256,vch => (C.sha256 (C.sha256 vch).bytes).bytes

/-- `OP_CHECKLOCKTIMEVERIFY`; when it is not enabled it is one of the NOPs. -/
def checkLockTimeVerify (stack : List Valtype) : Except ScriptError (List Valtype) :=
  if !C.flags.has SCRIPT_VERIFY_CHECKLOCKTIMEVERIFY then do
    reject (C.flags.has SCRIPT_VERIFY_DISCOURAGE_UPGRADABLE_NOPS) .discourageUpgradableNops
    return stack
  else do
    let top ← expect stack.head? .invalidStackOperation
    let nLockTime ← number C top 5
    reject (nLockTime<0) .negativeLockTime
    reject (!C.checker.checkLockTime nLockTime) .unsatisfiedLockTime
    return stack

/-- `OP_PICK` and `OP_ROLL`. -/
def pickOrRoll (roll : Bool) : List Valtype → Except ScriptError (List Valtype)
  | top::below => do
    reject (below=[]) .invalidStackOperation
    let n := getint (← number C top nDefaultMaxNumSize)
    reject (n<0 ∨ (below.length : Int)≤n) .invalidStackOperation
    let vch := below.getD n.toNat []
    return vch::(if roll then below.eraseIdx n.toNat else below)
  | [] => .error .invalidStackOperation

/-- `OP_CHECKCRYPTOCONDITION` and its VERIFY form. -/
def checkCryptoCondition (verify : Option ScriptError) (stack : List Valtype) :
    Except ScriptError (List Valtype) :=
  if !C.isCryptoConditionsEnabled then .error .badOpcode
  else
    match stack with
    | condition::fulfillment::below => do
      let fResult :=
        C.checker.checkCryptoCondition condition fulfillment C.script C.consensusBranchId
      reject (fResult= -1) .cryptoConditionInvalidFulfillment
      answer verify (fResult=1) below
    | _ => .error .invalidStackOperation

def onStack : PlainOp → List Valtype → Except ScriptError (List Valtype)
  | .number n,stack => .ok (serialize n::stack)
  | .OP_NOP,stack => .ok stack
  | .OP_CHECKLOCKTIMEVERIFY,stack => checkLockTimeVerify C stack
  | .upgradableNop,stack => do
    reject (C.flags.has SCRIPT_VERIFY_DISCOURAGE_UPGRADABLE_NOPS) .discourageUpgradableNops
    return stack
  | .OP_VERIFY,stack => do
    let top ← expect stack.head? .invalidStackOperation
    reject (!castToBool top) .verify
    return stack.tail
  | .OP_RETURN,_ => .error .opReturn
  | .shuffle op,stack => expect (shuffle op stack) .invalidStackOperation
  | .OP_IFDUP,stack => do
    let top ← expect stack.head? .invalidStackOperation
    return if castToBool top then top::stack else stack
  | .OP_DEPTH,stack => .ok (serialize stack.length::stack)
  | .OP_PICK,stack => pickOrRoll C false stack
  | .OP_ROLL,stack => pickOrRoll C true stack
  | .OP_SIZE,stack => do
    let top ← expect stack.head? .invalidStackOperation
    return serialize top.length::stack
  | .OP_EQUAL,vch2::vch1::below => answer none (vch1=vch2) below
  | .OP_EQUALVERIFY,vch2::vch1::below => answer (some .equalVerify) (vch1=vch2) below
  | .unary op,top::below => do
    let bn ← number C top nDefaultMaxNumSize
    return serialize (unary op bn)::below
  | .binary op,vch2::vch1::below => do
    let bn1 ← number C vch1 nDefaultMaxNumSize
    let bn2 ← number C vch2 nDefaultMaxNumSize
    let vch := serialize (binary op bn1 bn2)
    if op=.OP_NUMEQUALVERIFY then answer (some .numEqualVerify) (castToBool vch) below
    else return vch::below
  | .OP_WITHIN,vch3::vch2::vch1::below => do
    let bn1 ← number C vch1 nDefaultMaxNumSize
    let bn2 ← number C vch2 nDefaultMaxNumSize
    let bn3 ← number C vch3 nDefaultMaxNumSize
    answer none (bn2≤bn1 && bn1<bn3) below
  | .hash op,top::below => .ok (hash C op top::below)
  | .OP_CHECKCRYPTOCONDITION,stack => checkCryptoCondition C none stack
  | .OP_CHECKCRYPTOCONDITIONVERIFY,stack =>
    checkCryptoCondition C (some .cryptoConditionVerify) stack
  | _,_ => .error .invalidStackOperation

/-- `CheckSig` behind the checks of the two encodings. -/
def checkOneSig (vchSig vchPubKey : Valtype) : Eval Bool := do
  checkSignatureEncoding C vchSig
  checkPubKeyEncoding C vchPubKey
  Traced.ask (vchSig,vchPubKey)
    (C.checker.checkSig vchSig vchPubKey C.script C.consensusBranchId)

/-- `OP_CHECKSIG` and its VERIFY form. -/
def checkSig (verify : Option ScriptError) : List Valtype → Eval (List Valtype)
  | vchPubKey::vchSig::below => do
    let fSuccess ← checkOneSig C vchSig vchPubKey
    answer verify fSuccess below
  | _ => Traced.of (.error .invalidStackOperation)

/-- The loop of `OP_CHECKMULTISIG`: a key is passed over for good once it was tried, and the
loop stops when there are more signatures left than keys. -/
def multiSigLoop : List Valtype → List Valtype → Eval Bool
  | [],_ => return true
  | _::_,[] => return false
  | vchSig::sigs,vchPubKey::keys => do
    let fOk ← checkOneSig C vchSig vchPubKey
    let left := if fOk then sigs else vchSig::sigs
    if keys.length<left.length then return false else multiSigLoop left keys

/-- What `OP_CHECKMULTISIG` finds on the stack: the keys, the signatures, the element that is
dropped with them, and the rest. -/
structure MultiSigArgs where
  keys : List Valtype
  sigs : List Valtype
  dummy : Valtype
  below : List Valtype

def multiSigArgs (s : State) : Except ScriptError MultiSigArgs := do
  let top ← expect s.stack.head? .invalidStackOperation
  let nKeysCount := getint (← number C top nDefaultMaxNumSize)
  reject (nKeysCount<0 ∨ 20<nKeysCount) .pubkeyCount
  let nKeys := nKeysCount.toNat
  reject (201<s.nOpCount+nKeys) .opCount
  let fromSigs := s.stack.tail.drop nKeys
  let top ← expect fromSigs.head? .invalidStackOperation
  let nSigsCount := getint (← number C top nDefaultMaxNumSize)
  reject (nSigsCount<0 ∨ nKeysCount<nSigsCount) .sigCount
  let nSigs := nSigsCount.toNat
  let fromDummy := fromSigs.tail.drop nSigs
  let dummy ← expect fromDummy.head? .invalidStackOperation
  return ⟨s.stack.tail.take nKeys,fromSigs.tail.take nSigs,dummy,fromDummy.tail⟩

/-- `OP_CHECKMULTISIG` and its VERIFY form; the keys count as operations. -/
def checkMultiSig (verify : Option ScriptError) (s : State) : Eval State := do
  let args ← multiSigArgs C s
  let fSuccess ← multiSigLoop C args.sigs args.keys
  reject (C.flags.has SCRIPT_VERIFY_NULLDUMMY && args.dummy≠[]) ScriptError.sigNullDummy
  let stack ← answer verify fSuccess args.below
  return {s with stack, nOpCount := s.nOpCount+args.keys.length}

end Opcodes

section Evaluation

variable (C : Context)

def State.fExec (s : State) : Bool := s.vfExec.all id

/-- `OP_IF` and `OP_NOTIF`; in a branch that is not executed the condition is not looked at. -/
def openBranch (notIf : Bool) (s : State) : Except ScriptError State :=
  if s.fExec then
    match s.stack with
    | [] => .error .unbalancedConditional
    | vch::stack => .ok {s with stack, vfExec := (castToBool vch != notIf)::s.vfExec}
  else .ok {s with vfExec := false::s.vfExec}

/-- The switch over the opcodes. -/
def execute (op : Op) (s : State) : Eval State :=
  match op with
  | .plain op => do
    let stack ← onStack C op s.stack
    return {s with stack}
  | .OP_IF => Traced.of (openBranch false s)
  | .OP_NOTIF => Traced.of (openBranch true s)
  | .OP_ELSE =>
    match s.vfExec with
    | [] => Traced.of (.error .unbalancedConditional)
    | back::vfExec => return {s with vfExec := (!back)::vfExec}
  | .OP_ENDIF =>
    match s.vfExec with
    | [] => Traced.of (.error .unbalancedConditional)
    | _::vfExec => return {s with vfExec}
  | .OP_TOALTSTACK =>
    match s.stack with
    | [] => Traced.of (.error .invalidStackOperation)
    | vch::stack => return {s with stack, altstack := vch::s.altstack}
  | .OP_FROMALTSTACK =>
    match s.altstack with
    | [] => Traced.of (.error .invalidAltStackOperation)
    | vch::altstack => return {s with stack := vch::s.stack, altstack}
  | .OP_CHECKSIG => do
    let stack ← checkSig C none s.stack
    return {s with stack}
  | .OP_CHECKSIGVERIFY => do
    let stack ← checkSig C (some .checkSigVerify) s.stack
    return {s with stack}
  | .OP_CHECKMULTISIG => checkMultiSig C none s
  | .OP_CHECKMULTISIGVERIFY => checkMultiSig C (some .checkMultiSigVerify) s

/-- The checks every instruction meets, executed or not, and the count of the operations. -/
def countOp (i : Instr) (s : State) : Except ScriptError State := do
  reject (MAX_SCRIPT_ELEMENT_SIZE < i.vchPushValue.length) .pushSize
  let nOpCount := if OP_16 < i.opcode then s.nOpCount+1 else s.nOpCount
  reject (OP_16 < i.opcode ∧ 201<nOpCount) .opCount
  reject (i.opcode∈disabledOpcodes) .disabledOpcode
  return {s with nOpCount}

def dispatch (i : Instr) (s : State) : Eval State :=
  if s.fExec ∧ i.opcode≤OP_PUSHDATA4 then do
    reject (C.flags.has SCRIPT_VERIFY_MINIMALDATA && !checkMinimalPush i.vchPushValue i.opcode)
      ScriptError.minimalData
    return {s with stack := i.vchPushValue::s.stack}
  else if s.fExec ∨ (OP_IF ≤ i.opcode ∧ i.opcode≤OP_ENDIF) then do
    let op ← expect (Op.ofCode i.opcode) ScriptError.badOpcode
    execute C op s
  else return s

/-- One pass through the loop of `EvalScript`. -/
def step (i : Instr) (s : State) : Eval State := do
  let s ← countOp i s
  let s ← dispatch C i s
  reject (1000<s.stack.length+s.altstack.length) ScriptError.stackSize
  return s

def evalLoop : List (Option Instr) → State → Eval State
  | [],s => return s
  | none::_,_ => Traced.of (.error .badOpcode)
  | some i::is,s => do
    let s ← step C i s
    evalLoop is s

def State.start (stack : List Valtype) : State := ⟨stack,[],[],0⟩

def evalScript (stack : List Valtype) : Eval (List Valtype) := do
  reject (MAX_SCRIPT_SIZE<C.script.length) ScriptError.scriptSize
  let s ← evalLoop C (readOps C.script) (State.start stack)
  reject (s.vfExec≠[]) ScriptError.unbalancedConditional
  return s.stack

end Evaluation

section Verification

/-- `EvalCryptoConditionSig`: a single push, of more bytes than elsewhere. -/
def evalCryptoConditionSig (scriptSig : List UInt8) (stack : List Valtype) :
    Except ScriptError (List Valtype) :=
  match getOp scriptSig with
  | none => .error .badOpcode
  | some (opcode,vchPushValue,pc) => do
    reject (opcode=0 ∨ OP_PUSHDATA4<opcode) .invalidStackOperation
    reject (pc≠[]) .invalidStackOperation
    reject (MAX_SCRIPT_CRYPTOCONDITION_FULFILLMENT_SIZE<vchPushValue.length) .pushSize
    return vchPushValue::stack

/-- `IsPushOnly`, for which OP_RESERVED is a push. -/
def isPushOnly (script : List UInt8) : Bool :=
  (readOps script).all fun
    | none => false
    | some i => i.opcode≤OP_16

def isPayToScriptHash (script : List UInt8) : Bool :=
  script.length=23 && script.getD 0 0=0xa9 && script.getD 1 0=0x14 && script.getD 22 0=0x87

/-- `GetBalancedData`, less the data it returns. -/
def getBalancedData : List (Option Instr) → Nat → Bool
  | [],netPushes => netPushes=0
  | none::_,_ => false
  | some i::is,netPushes =>
    if i.opcode=0x75 then
      match netPushes with
      | 0 => false
      | netPushes+1 => getBalancedData is netPushes
    else if i.opcode=OP_0 ∨ (OP_1 ≤ i.opcode ∧ i.opcode≤OP_16) ∨
        (0 < i.opcode ∧ i.opcode≤OP_PUSHDATA4 ∧ i.vchPushValue≠[]) then
      getBalancedData is (netPushes+1)
    else false

def isPayToCryptoCondition (script : List UInt8) : Bool :=
  match readOps script with
  | some i::some j::is =>
    OP_0 < i.opcode && i.opcode<OP_PUSHDATA1 && j.opcode=OP_CHECKCRYPTOCONDITION &&
      getBalancedData is 0
  | _ => false

/-- How `VerifyScript` ends without success. -/
inductive Halt
  | script (serror : ScriptError)
  | assertion
deriving DecidableEq

variable (C : Context) (scriptSig scriptPubKey : List UInt8)

/-- One evaluation of `VerifyScript`. -/
def evaluate (script : List UInt8) (stack : List Valtype) : Traced SigQuery Halt (List Valtype) :=
  (evalScript {C with script} stack).mapError .script

/-- The stack must be left with a true value on it. -/
def requireTrue (stack : List Valtype) : Except Halt Unit :=
  match stack with
  | [] => .error (.script .evalFalse)
  | top::_ => reject (castToBool top=false) (.script .evalFalse)

/-- The evaluation of the script whose hash was paid to, from the stack `scriptSig` left. -/
def evalRedeem (stackCopy : List Valtype) : Traced SigQuery Halt (List Valtype) := do
  reject (!isPushOnly scriptSig) (Halt.script .sigPushOnly)
  match stackCopy with
  | [] => Traced.of (.error .assertion)
  | pubKeySerialized::stack => do
    let stack ← evaluate C pubKeySerialized stack
    requireTrue stack
    return stack

/-- The stack `scriptSig` leaves, which of a crypto-condition spend is only read. -/
def scriptSigStack : Traced SigQuery Halt (List Valtype) :=
  if C.isCryptoConditionsEnabled && isPayToCryptoCondition scriptPubKey then
    Traced.of ((evalCryptoConditionSig scriptSig []).mapError .script)
  else evaluate C scriptSig []

/-- What is left after the additional validation of a spend to a script hash, if it is one. -/
def finalStack (stackCopy stack : List Valtype) : Traced SigQuery Halt (List Valtype) :=
  if C.flags.has SCRIPT_VERIFY_P2SH && isPayToScriptHash scriptPubKey then
    evalRedeem C scriptSig stackCopy
  else pure stack

def verifyScript : Traced SigQuery Halt Unit := do
  reject (C.flags.has SCRIPT_VERIFY_SIGPUSHONLY && !isPushOnly scriptSig) (Halt.script .sigPushOnly)
  let stackCopy ← scriptSigStack C scriptSig scriptPubKey
  let stack ← evaluate C scriptPubKey stackCopy
  requireTrue stack
  let stack ← finalStack C scriptSig scriptPubKey stackCopy stack
  if C.flags.has SCRIPT_VERIFY_CLEANSTACK then do
    reject (!C.flags.has SCRIPT_VERIFY_P2SH) Halt.assertion
    reject (stack.length≠1) (Halt.script .cleanStack)

end Verification

end Zdeex.Script
