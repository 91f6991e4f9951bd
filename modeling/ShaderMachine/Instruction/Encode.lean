import ShaderMachine.Instruction.Decode

/-!
# Writing instructions

`Instruction.encode` gives the bytes of an instruction. An instruction with a wide operand can only
stand where that operand is aligned; `Instruction.padding` is the least number of one-byte
instructions that has to go in front of it at a given position.
-/

namespace ShaderMachine

/-- The lowest `count` bytes of a number, lowest first. -/
def littleEndianBytes : Nat → Nat → List UInt8
  | 0, _ => []
  | count + 1, n => UInt8.ofNat n :: littleEndianBytes count (n / 256)

/-- The bytes of a branch target. -/
def targetBytes (target : UInt16) : List UInt8 := littleEndianBytes 2 target.toNat

def LaneOp.encode : LaneOp → List UInt8
  | binary op => [op.byte]
  | unary op => [op.byte]
  | load => [PlainOp.load.byte]
  | store => [PlainOp.store.byte]
  | loadGlobal index => [Opcode.loadGlobal.byte, index]
  | branch target => Opcode.branch.byte :: targetBytes target
  | conditionalBranch target => Opcode.conditionalBranch.byte :: targetBytes target

/-- The count byte of a list and its elements. The list has at most 255 elements. -/
def countedBytes (bytes : List UInt8) : List UInt8 := UInt8.ofNat bytes.length :: bytes

namespace Instruction

def encode : Instruction → List UInt8
  | plain op => [op.byte]
  | branch target => Opcode.branch.byte :: targetBytes target
  | conditionalBranch target => Opcode.conditionalBranch.byte :: targetBytes target
  | dupDown count => [Opcode.dupDown.byte, count]
  | loadGlobal index => [Opcode.loadGlobal.byte, index]
  | pop count => [Opcode.pop.byte, count]
  | ret count => [Opcode.ret.byte, count]
  | pushImmediate value => Opcode.pushImmediate.byte :: littleEndianBytes 4 value.bits.toNat
  | loadSwizzle offsets => Opcode.loadSwizzle.byte :: countedBytes offsets
  | storeSwizzle offsets => Opcode.storeSwizzle.byte :: countedBytes offsets
  | swizzle sources indices => Opcode.swizzle.byte :: sources :: countedBytes indices
  | vector lanes op => Opcode.vector.byte :: lanes.val :: op.encode

/-- The place of a wide operand within an instruction: the bytes in front of it and its width. -/
structure WideOperand where
  header : Nat
  width : Nat

def wideOperand? : Instruction → Option WideOperand
  | branch _ | conditionalBranch _ => some ⟨1, 2⟩
  | pushImmediate _ => some ⟨1, 4⟩
  | vector _ (.branch _) | vector _ (.conditionalBranch _) => some ⟨3, 2⟩
  | _ => none

end Instruction

/-- The bytes that are missing at a position until the operand is aligned. -/
def Instruction.WideOperand.padding (operand : WideOperand) (position : Nat) : Nat :=
  (operand.width - (position + operand.header) % operand.width) % operand.width

/-- The padding that an instruction needs at a position. -/
def Instruction.padding (i : Instruction) (position : Nat) : Nat :=
  match i.wideOperand? with
  | some operand => operand.padding position
  | none => 0

end ShaderMachine
