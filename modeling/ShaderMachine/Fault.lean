import ShaderMachine.Numeral
import ShaderMachine.Opcode

/-!
# Faults

A fault ends an invocation. Its kind says what went wrong, and its offset names the instruction at
which execution stopped; a fault without an offset did not come from an instruction.
-/

namespace ShaderMachine

/-- The storage that an index outside its bounds pointed into. -/
inductive Space where
  | stack
  | globals
  /-- The slots that a swizzle has taken from the stack. -/
  | laneBuffer
deriving DecidableEq, Repr

def Space.name : Space → String
  | stack => "stack"
  | globals => "globals"
  | laneBuffer => "swizzle lane buffer"

inductive FaultKind where
  | unknownOpcode (byte : UInt8)
  | unsupported (op : ReservedOp)
  /-- An operation that cannot be widened to lanes. -/
  | unsupportedLaneOp (op : Opcode)
  /-- Instruction bytes were needed beyond the end of the body. -/
  | codeOverrun
  | misaligned (width : Nat)
  | stackUnderflow
  | outOfBounds (space : Space) (index : Int) (size : Nat)
  | invalidLaneCount (count : UInt8)
  | divisionByZero
  | budgetExhausted (limit : Nat)
  | argumentCount (expected actual : Nat)
  | inputCount (expected actual : Nat)
deriving DecidableEq, Repr

open Numeral in
def FaultKind.message : FaultKind → String
  | unknownOpcode byte => "unknown opcode 0x" ++ String.ofList (hex 2 byte.toNat)
  | unsupported op => "unsupported instruction '" ++ op.mnemonic ++ "'"
  | unsupportedLaneOp op => "instruction '" ++ op.mnemonic ++ "' cannot be used inside vector"
  | codeOverrun => "instruction pointer ran past the end of the code"
  | misaligned width =>
    natText width ++ "-byte operand is not " ++ natText width ++ "-byte aligned"
  | stackUnderflow => "stack underflow"
  | outOfBounds space index size =>
    space.name ++ " index " ++ intText index ++ " out of bounds (len " ++ natText size ++ ")"
  | invalidLaneCount count => "lane count " ++ natText count.toNat ++ " outside 1..=16"
  | divisionByZero => "integer division by zero"
  | budgetExhausted limit => "instruction budget of " ++ natText limit ++ " exhausted"
  | argumentCount expected actual =>
    "function expects " ++ natText expected ++ " argument slots, got " ++ natText actual
  | inputCount expected actual =>
    "function expects " ++ natText expected ++ " input slots, got " ++ natText actual

/-- The end of an invocation that failed. -/
structure Fault where
  ip : Option Nat
  kind : FaultKind
deriving DecidableEq, Repr

def Fault.message (fault : Fault) : String :=
  match fault.ip with
  | some ip => fault.kind.message ++ " at ip " ++ Numeral.natText ip
  | none => fault.kind.message

end ShaderMachine
