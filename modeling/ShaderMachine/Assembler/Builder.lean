import ShaderMachine.Instruction.Encode

/-!
# Building a body

An `Assembler` collects the bytes of a body. It puts `nop`s in front of instructions whose wide
operand would not be aligned, and it lets branches name labels whose offset is filled in by
`Assembler.finish`. A call that makes no sense is remembered and reported at the end; only the first
one counts. `Call` lists the calls as data, and `Assembler.build` makes them in order.
-/

namespace ShaderMachine

/-- A branch destination, numbered by its assembler in the order of creation. -/
structure Label where
  index : Nat
deriving DecidableEq, Repr

/-- Why a body cannot be built. -/
inductive BuildError where
  | boundTwice (label : Label) (first second : Nat)
  | foreignLabel (label : Label)
  | missingOperands (op : Opcode)
  | tooManyOffsets (op : Opcode)
  | tooManyIndices
  | laneCount (lanes : UInt8)
  | missingLaneOperands (op : Opcode)
  | notABranch (op : Opcode)
  | neverBound (label : Label)
  | targetTooFar (target : Nat)
deriving DecidableEq, Repr

open Numeral in
def BuildError.message : BuildError → String
  | boundTwice label first second =>
    "label " ++ natText label.index ++ " bound twice (at " ++ natText first ++ " and " ++
      natText second ++ ")"
  | foreignLabel label =>
    "label " ++ natText label.index ++ " was not created by this assembler"
  | missingOperands op => "'" ++ op.mnemonic ++ "' requires operands"
  | tooManyOffsets op => "'" ++ op.mnemonic ++ "' takes at most 255 offsets"
  | tooManyIndices => "'swizzle' takes at most 255 indices"
  | laneCount lanes => "lane count " ++ natText lanes.toNat ++ " outside 1..=16"
  | missingLaneOperands op => "'vector " ++ op.mnemonic ++ "' requires operands"
  | notABranch op => "'vector " ++ op.mnemonic ++ "' is not a branch"
  | neverBound label => "label " ++ natText label.index ++ " referenced but never bound"
  | targetTooFar target => "branch target " ++ natText target ++ " exceeds 16 bits"

/-- A body under construction. -/
structure Assembler where
  code : Code := #[]
  /-- The offsets of the labels created so far, where they are known. -/
  labels : Array (Option Nat) := #[]
  /-- The places of branch targets, which hold zeros until the end. -/
  fixups : Array (Nat × Label) := #[]
  error : Option BuildError := none
deriving Repr

namespace Assembler

/-- The offset of the next byte. -/
def position (a : Assembler) : Nat := a.code.size

/-- Remembers an error unless there is an earlier one. -/
def fail (a : Assembler) (e : BuildError) : Assembler := { a with error := a.error.or (some e) }

def append (a : Assembler) (bytes : List UInt8) : Assembler := { a with code := a.code ++ bytes }

/-- Puts `nop`s in front of an instruction so that its wide operand is aligned. -/
def align (a : Assembler) (operand : Instruction.WideOperand) : Assembler :=
  a.append (List.replicate (operand.padding a.position) PlainOp.nop.byte)

/-- Adds an instruction that needs no label. -/
def emit (a : Assembler) (i : Instruction) : Assembler :=
  (a.append (List.replicate (i.padding a.position) PlainOp.nop.byte)).append i.encode

/-- Leaves room for a branch target. -/
def emitTarget (a : Assembler) (label : Label) : Assembler :=
  { a.append [0, 0] with fixups := a.fixups.push (a.position, label) }

def newLabel (a : Assembler) : Label × Assembler :=
  (⟨a.labels.size⟩, { a with labels := a.labels.push none })

/-- A new label for an offset that is known already. -/
def newLabelAt (a : Assembler) (offset : Nat) : Label × Assembler :=
  (⟨a.labels.size⟩, { a with labels := a.labels.push (some offset) })

/-- Gives a label the offset of the next byte. -/
def bind (a : Assembler) (label : Label) : Assembler :=
  match a.labels[label.index]? with
  | some none =>
    { a with labels := a.labels.setIfInBounds label.index (some a.position) }
  | some (some first) => a.fail (.boundTwice label first a.position)
  | none => a.fail (.foreignLabel label)

/-- Adds the byte of an operation that has no operands. -/
def op (a : Assembler) (op : Opcode) : Assembler :=
  let a := if op.operands = .none then a else a.fail (.missingOperands op)
  a.append [op.byte]

def pushImmediate (a : Assembler) (w : Word) : Assembler := a.emit (.pushImmediate w)

/-- Adds a branch: its bytes up to the target, aligned, and room for the target. -/
def emitBranch (a : Assembler) (head : List UInt8) (label : Label) : Assembler :=
  ((a.align ⟨head.length, 2⟩).append head).emitTarget label

def branch (a : Assembler) (label : Label) : Assembler :=
  a.emitBranch [Opcode.branch.byte] label

def conditionalBranch (a : Assembler) (label : Label) : Assembler :=
  a.emitBranch [Opcode.conditionalBranch.byte] label

def dupDown (a : Assembler) (count : UInt8) : Assembler := a.emit (.dupDown count)

def loadGlobal (a : Assembler) (index : UInt8) : Assembler := a.emit (.loadGlobal index)

def pop (a : Assembler) (count : UInt8) : Assembler := a.emit (.pop count)

def ret (a : Assembler) (count : UInt8) : Assembler := a.emit (.ret count)

def loadSwizzle (a : Assembler) (offsets : List UInt8) : Assembler :=
  if offsets.length < 256 then a.emit (.loadSwizzle offsets)
  else a.fail (.tooManyOffsets .loadSwizzle)

def storeSwizzle (a : Assembler) (offsets : List UInt8) : Assembler :=
  if offsets.length < 256 then a.emit (.storeSwizzle offsets)
  else a.fail (.tooManyOffsets .storeSwizzle)

def swizzle (a : Assembler) (sources : UInt8) (indices : List UInt8) : Assembler :=
  if indices.length < 256 then a.emit (.swizzle sources indices) else a.fail .tooManyIndices

def checkLanes (a : Assembler) (lanes : UInt8) : Assembler :=
  if (LaneCount.ofByte? lanes).isSome then a else a.fail (.laneCount lanes)

/-- Adds a lane-wide operation without operands. Whether the operation can be widened at all is not
checked. -/
def vector (a : Assembler) (lanes : UInt8) (op : Opcode) : Assembler :=
  let a := a.checkLanes lanes
  let a := if op.operands = .none then a else a.fail (.missingLaneOperands op)
  a.append [Opcode.vector.byte, lanes, op.byte]

def vectorLoadGlobal (a : Assembler) (lanes index : UInt8) : Assembler :=
  (a.checkLanes lanes).append [Opcode.vector.byte, lanes, Opcode.loadGlobal.byte, index]

def vectorBranch (a : Assembler) (lanes : UInt8) (op : Opcode) (label : Label) : Assembler :=
  let a := a.checkLanes lanes
  let a := if op = .branch ∨ op = .conditionalBranch then a else a.fail (.notABranch op)
  a.emitBranch [Opcode.vector.byte, lanes, op.byte] label

/-- The offset of a label as a branch target. -/
def target (a : Assembler) (label : Label) : Except BuildError UInt16 :=
  match a.labels[label.index]? with
  | some (some offset) =>
    if offset < UInt16.size then .ok (UInt16.ofNat offset) else .error (.targetTooFar offset)
  | _ => .error (.neverBound label)

/-- Writes a branch target over the two bytes at an offset. -/
def patch (code : Code) (place : Nat) (target : UInt16) : Code :=
  (code.setIfInBounds place (UInt8.ofNat target.toNat)).setIfInBounds (place + 1)
    (UInt8.ofNat (target.toNat / 256))

/-- Fills in the branch targets, in the order in which the branches were added. -/
def resolve (a : Assembler) : List (Nat × Label) → Code → Except BuildError Code
  | [], code => .ok code
  | (place, label) :: rest, code =>
    match a.target label with
    | .ok target => a.resolve rest (patch code place target)
    | .error e => .error e

/-- The finished body. -/
def finish (a : Assembler) : Except BuildError Code :=
  match a.error with
  | some e => .error e
  | none => a.resolve a.fixups.toList a.code

/-- One call to an assembler. -/
inductive Call where
  | newLabel
  | bind (label : Label)
  | op (op : Opcode)
  | pushImmediate (value : Word)
  | branch (label : Label)
  | conditionalBranch (label : Label)
  | dupDown (count : UInt8)
  | loadGlobal (index : UInt8)
  | pop (count : UInt8)
  | ret (count : UInt8)
  | loadSwizzle (offsets : List UInt8)
  | storeSwizzle (offsets : List UInt8)
  | swizzle (sources : UInt8) (indices : List UInt8)
  | vector (lanes : UInt8) (op : Opcode)
  | vectorLoadGlobal (lanes index : UInt8)
  | vectorBranch (lanes : UInt8) (op : Opcode) (label : Label)
deriving DecidableEq, Repr

def call (a : Assembler) : Call → Assembler
  | .newLabel => a.newLabel.2
  | .bind label => a.bind label
  | .op op => a.op op
  | .pushImmediate value => a.pushImmediate value
  | .branch label => a.branch label
  | .conditionalBranch label => a.conditionalBranch label
  | .dupDown count => a.dupDown count
  | .loadGlobal index => a.loadGlobal index
  | .pop count => a.pop count
  | .ret count => a.ret count
  | .loadSwizzle offsets => a.loadSwizzle offsets
  | .storeSwizzle offsets => a.storeSwizzle offsets
  | .swizzle sources indices => a.swizzle sources indices
  | .vector lanes op => a.vector lanes op
  | .vectorLoadGlobal lanes index => a.vectorLoadGlobal lanes index
  | .vectorBranch lanes op label => a.vectorBranch lanes op label

/-- The assembler after a sequence of calls. -/
def build (calls : List Call) : Assembler := calls.foldl call {}

end Assembler

end ShaderMachine
