import ShaderMachine.Instruction.Basic
import ShaderMachine.Machine.State
import ShaderMachine.Scalar

/-!
# What instructions do

`step` executes one instruction whose bytes have been passed. The operations on single words come
first, then those on lists of slots, then the lane-wide forms.
-/

namespace ShaderMachine

/-- How execution goes on after an instruction. -/
inductive Flow where
  | next
  /-- The body returns so many words. -/
  | finish (count : Nat)
deriving DecidableEq, Repr

namespace Exec

/-- Takes the top word and jumps if it reads as true. -/
def jumpIf (target : UInt16) : Exec Unit := do
  let condition ← pop
  if condition.truth then jump target

/-- Operations without inline operands. The addresses of `load`, `store` and `storeGlobal` come from
the stack, beneath the word that is stored. -/
def plain : PlainOp → Exec Unit
  | .binary op => do
    let right ← pop
    let left ← readStack (·.top)
    let result ← ofExcept (op.eval left right)
    changeStack (·.replaceTop [result])
  | .unary op => do
    let w ← readStack (·.top)
    changeStack (·.replaceTop [op.eval w])
  | .reserved op => throw (.unsupported op)
  | .nop => return
  | .dup => do
    let w ← readStack (·.top)
    push w
  | .debugPrint => do
    let w ← pop
    record (.debugPrint w)
  | .load => do
    let address ← pop
    let w ← load address.toInt
    push w
  | .store => do
    let w ← pop
    let address ← pop
    store address.toInt w
  | .storeGlobal => do
    let w ← pop
    let address ← pop
    storeGlobal address.toInt w

/-- Pushes the words at offsets from a base. Words pushed before are part of the stack for those
that follow. -/
def gather (base : Int) (offsets : List Nat) : Exec Unit :=
  offsets.forM fun offset => do
    let w ← load (base + offset)
    push w

/-- Pushes words of the slots whose offsets are listed, from a base on the top of the stack. -/
def loadSwizzle (offsets : List UInt8) : Exec Unit := do
  let base ← pop
  gather base.toInt (offsets.map UInt8.toNat)

/-- Stores the top words at the listed offsets, the last one first. Their base lies beneath them and
is removed at the end. -/
def storeSwizzle (offsets : List UInt8) : Exec Unit := do
  let base ← readStack (·.peek offsets.length)
  offsets.reverse.forM fun offset => do
    let w ← pop
    store (base.toInt + offset.toNat) w
  let _ ← pop

/-- Takes `sources` words and pushes those whose indices are listed. -/
def swizzle (sources : UInt8) (indices : List UInt8) : Exec Unit := do
  if maxLanes < sources.toNat then throw (.invalidLaneCount sources)
  let taken ← popMany sources.toNat
  indices.forM fun index =>
    match taken[index.toNat]? with
    | some w => push w
    | none => throw (.outOfBounds .laneBuffer index.toNat sources.toNat)

end Exec

/-- The left operands with the results of a two-operand operation in their places, lane by lane up
to the first lane that faults. -/
def BinaryOp.evalLanes (op : BinaryOp) : List Word → List Word → List Word × Option FaultKind
  | left :: lefts, right :: rights =>
    match op.eval left right with
    | .ok w =>
      let (words, fault) := op.evalLanes lefts rights
      (w :: words, fault)
    | .error k => (left :: lefts, some k)
  | lefts, _ => (lefts, none)

namespace Exec

/-- A two-operand operation on as many lanes. The results of the lanes before a fault are kept. -/
def binaryLanes (lanes : Nat) (op : BinaryOp) : Exec Unit := do
  let rights ← popMany lanes
  let lefts ← readStack (·.topN lanes)
  let (words, fault) := op.evalLanes lefts rights
  changeStack (·.replaceTop words)
  match fault with
  | some k => throw k
  | none => return

/-- An operation applied to each of a number of lanes. The number of lanes does not matter for
jumps. -/
def lanes (lanes : Nat) : LaneOp → Exec Unit
  | .binary op => binaryLanes lanes op
  | .unary op => do
    let words ← readStack (·.topN lanes)
    changeStack (·.replaceTop (words.map op.eval))
  | .load => do
    let base ← pop
    gather base.toInt (List.range lanes)
  | .store => do
    let words ← popMany lanes
    let base ← pop
    words.zipIdx.reverse.forM fun (w, lane) => store (base.toInt + lane) w
  | .loadGlobal index =>
    (List.range lanes).forM fun lane => do
      let w ← loadGlobal (index.toNat + lane)
      push w
  | .branch target => jump target
  | .conditionalBranch target => jumpIf target

/-- Executes one instruction. The offset of the state already lies behind it. -/
def step : Instruction → Exec Flow
  | .plain op => do
    plain op
    return .next
  | .branch target => do
    jump target
    return .next
  | .conditionalBranch target => do
    jumpIf target
    return .next
  | .dupDown count => do
    changeStack (·.dupDown count.toNat)
    return .next
  | .loadGlobal index => do
    let w ← loadGlobal index.toNat
    push w
    return .next
  | .pop count => do
    changeStack (·.dropTop count.toNat)
    return .next
  | .pushImmediate value => do
    push value
    return .next
  | .ret count => do
    changeStack (·.returnToBottom count.toNat)
    return .finish count.toNat
  | .loadSwizzle offsets => do
    loadSwizzle offsets
    return .next
  | .storeSwizzle offsets => do
    storeSwizzle offsets
    return .next
  | .swizzle sources indices => do
    swizzle sources indices
    return .next
  | .vector count op => do
    lanes count.toNat op
    return .next

end Exec

end ShaderMachine
