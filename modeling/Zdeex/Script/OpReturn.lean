import Mathlib.Tactic.Common

namespace Zdeex.Script

def OP_PUSHDATA1 : Nat := 0x4c
def OP_PUSHDATA2 : Nat := 0x4d
def OP_PUSHDATA4 : Nat := 0x4e
def OP_RETURN : Nat := 0x6a

/-- Little-endian length field of a push. -/
def readLength (bs : List UInt8) : Nat := bs.foldr (fun b n => b.toNat+256*n) 0

/-- Number of length bytes behind the opcode, and the size they give. -/
def pushSize (opcode : Nat) (pc : List UInt8) : Option (Nat × List UInt8) :=
  if opcode<OP_PUSHDATA1 then some (opcode,pc)
  else
    let width := if opcode=OP_PUSHDATA1 then 1 else if opcode=OP_PUSHDATA2 then 2 else 4
    if pc.length<width then none else some (readLength (pc.take width),pc.drop width)

/-- `GetOp2` on what is left of the script: opcode, operand and the rest. -/
def getOp : List UInt8 → Option (Nat × List UInt8 × List UInt8)
  | [] => none
  | b::pc =>
      if b.toNat≤OP_PUSHDATA4 then
        match pushSize b.toNat pc with
        | none => none
        | some (nSize,pc) =>
            if pc.length<nSize then none
            else some (b.toNat,pc.take nSize,pc.drop nSize)
      else some (b.toNat,[],pc)

/-- The operand behind OP_RETURN. -/
def getOpReturnData (sig : List UInt8) : Option (List UInt8) :=
  match getOp sig with
  | none => none
  | some (opcode,_,pc) =>
      if opcode=OP_RETURN then
        match getOp pc with
        | none => none
        | some (opcode,data,_) =>
            if 0<opcode ∧ opcode≤OP_PUSHDATA4 then some data else none
      else none

end Zdeex.Script
