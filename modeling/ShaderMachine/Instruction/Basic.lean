import ShaderMachine.Fault
import ShaderMachine.Word

/-!
# Instructions

An instruction is an operation with its inline operands. The lane-wide form `vector` holds a count
of lanes from 1 to 16 and an operation that can be applied lane by lane.
-/

namespace ShaderMachine

/-- The widest group of lanes. -/
def maxLanes : Nat := 16

/-- A number of lanes that `vector` can work on. -/
structure LaneCount where
  val : UInt8
  pos : 0 < val.toNat
  le : val.toNat ≤ maxLanes
deriving DecidableEq, Repr

/-- The number of lanes as a natural number. -/
def LaneCount.toNat (lanes : LaneCount) : Nat := lanes.val.toNat

/-- A byte read as a number of lanes. -/
def LaneCount.ofByte? (b : UInt8) : Option LaneCount :=
  if h : 0 < b.toNat ∧ b.toNat ≤ maxLanes then some ⟨b, h.1, h.2⟩ else none

/-- The operations that can be applied lane by lane, with their operands. -/
inductive LaneOp where
  | binary (op : BinaryOp)
  | unary (op : UnaryOp)
  | load
  | store
  | loadGlobal (index : UInt8)
  | branch (target : UInt16)
  | conditionalBranch (target : UInt16)
deriving DecidableEq, Repr

def LaneOp.opcode : LaneOp → Opcode
  | binary op => .plain (.binary op)
  | unary op => .plain (.unary op)
  | load => .plain .load
  | store => .plain .store
  | loadGlobal _ => .loadGlobal
  | branch _ => .branch
  | conditionalBranch _ => .conditionalBranch

inductive Instruction where
  | plain (op : PlainOp)
  | branch (target : UInt16)
  | conditionalBranch (target : UInt16)
  | dupDown (count : UInt8)
  | loadGlobal (index : UInt8)
  | pop (count : UInt8)
  | ret (count : UInt8)
  | pushImmediate (value : Word)
  | loadSwizzle (offsets : List UInt8)
  | storeSwizzle (offsets : List UInt8)
  | swizzle (sources : UInt8) (indices : List UInt8)
  | vector (lanes : LaneCount) (op : LaneOp)
deriving DecidableEq, Repr

def Instruction.opcode : Instruction → Opcode
  | plain op => .plain op
  | branch _ => .branch
  | conditionalBranch _ => .conditionalBranch
  | dupDown _ => .dupDown
  | loadGlobal _ => .loadGlobal
  | pop _ => .pop
  | ret _ => .ret
  | pushImmediate _ => .pushImmediate
  | loadSwizzle _ => .loadSwizzle
  | storeSwizzle _ => .storeSwizzle
  | swizzle _ _ => .swizzle
  | vector _ _ => .vector

end ShaderMachine
