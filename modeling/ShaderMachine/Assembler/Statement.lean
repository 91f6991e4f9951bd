import ShaderMachine.Assembler.Immediate
import ShaderMachine.Instruction.Basic

/-!
# Statements

A statement is one instruction of source text, already divided into tokens: a mnemonic and its
operands. A branch names its target by a label or by a literal offset.
-/

namespace ShaderMachine

/-- Where a branch goes, as it is written. -/
inductive Target where
  | label (name : String)
  /-- A token that starts with a digit is an offset. -/
  | offset (token : String) (offset : UInt16)
deriving DecidableEq, Repr

/-- The token of a target. -/
def Target.token : Target → String
  | label name => name
  | offset token _ => token

inductive Statement where
  | plain (op : PlainOp)
  | branch (target : Target)
  | conditionalBranch (target : Target)
  | dupDown (count : UInt8)
  | loadGlobal (index : UInt8)
  | pop (count : UInt8)
  | ret (count : UInt8)
  | pushImmediate (value : Word)
  | loadSwizzle (offsets : List UInt8)
  | storeSwizzle (offsets : List UInt8)
  | swizzle (sources : UInt8) (indices : List UInt8)
  | vector (lanes : UInt8) (op : PlainOp)
  | vectorLoadGlobal (lanes index : UInt8)
  | vectorBranch (lanes : UInt8) (target : Target)
  | vectorConditionalBranch (lanes : UInt8) (target : Target)
deriving DecidableEq, Repr

/-- Why tokens are not a statement. -/
inductive StatementError where
  | empty
  | unknownMnemonic (token : String)
  | operandCount (op : Opcode) (expected found : Nat)
  | missingCount (op : Opcode)
  | missingSwizzleCounts
  | missingLaneOp
  | notInVector (op : Opcode)
  | notAByte (token : String) (cause : Numeral.Error)
  | badTarget (token : String) (cause : Numeral.Error)
  | immediate (e : ImmediateError)
deriving DecidableEq, Repr

/-- The messages of an error, from the outermost to its cause. -/
def StatementError.messages : StatementError → List String
  | empty => ["empty instruction"]
  | unknownMnemonic token => ["unknown mnemonic '" ++ token ++ "'"]
  | operandCount op expected found =>
    ["'" ++ op.mnemonic ++ "' takes " ++ Numeral.natText expected ++ " operand(s), found " ++
      Numeral.natText found]
  | missingCount op => ["'" ++ op.mnemonic ++ "' needs a count"]
  | missingSwizzleCounts => ["'swizzle' needs source and destination counts"]
  | missingLaneOp => ["'vector' needs a lane count and an instruction"]
  | notInVector op => ["'" ++ op.mnemonic ++ "' cannot be used inside vector"]
  | notAByte token cause => ["expected a byte, found '" ++ token ++ "'", cause.message]
  | badTarget token cause => ["invalid branch target '" ++ token ++ "'", cause.message]
  | immediate e => e.messages

namespace Statement

/-- A byte in decimal, or in hexadecimal behind `0x`. -/
def readByte (token : String) : Except StatementError UInt8 :=
  let value := match token.toList with
    | '0' :: 'x' :: digits => Numeral.readUnsigned 16 255 digits
    | digits => Numeral.readUnsigned 10 255 digits
  match value with
  | .ok n => .ok (UInt8.ofNat n)
  | .error e => .error (.notAByte token e)

def readTarget (token : String) : Except StatementError Target :=
  if token.toList.head?.any Decimal.isDigit then
    match Numeral.readUnsigned 10 (UInt16.size - 1) token.toList with
    | .ok n => .ok (.offset token (UInt16.ofNat n))
    | .error e => .error (.badTarget token e)
  else .ok (.label token)

/-- The operation that a mnemonic names, in any case. -/
def readMnemonic (token : String) : Except StatementError Opcode :=
  match Opcode.ofMnemonic? (String.ofList (Text.lower token.toList)) with
  | some op => .ok op
  | none => .error (.unknownMnemonic token)

/-- Refuses operands that are not as many as the operation takes. -/
def expectCount (op : Opcode) (operands : List String) (expected : Nat) :
    Except StatementError Unit :=
  if operands.length = expected then .ok () else .error (.operandCount op expected operands.length)

/-- The one operand of an operation. -/
def single (op : Opcode) : List String → Except StatementError String
  | [operand] => .ok operand
  | operands => .error (.operandCount op 1 operands.length)

/-- The operation inside `vector` with its own operands. -/
def readLaneStatement (operands : List String) : Except StatementError Statement :=
  match operands with
  | lanes :: inner :: rest => do
    let lanes ← readByte lanes
    let op ← readMnemonic inner
    match op, rest with
    | .plain op, [] => return .vector lanes op
    | .plain _, _ => .error (.operandCount .vector 2 operands.length)
    | .branch, [target] => return .vectorBranch lanes (← readTarget target)
    | .conditionalBranch, [target] =>
      return .vectorConditionalBranch lanes (← readTarget target)
    | .loadGlobal, [index] => return .vectorLoadGlobal lanes (← readByte index)
    | .branch, _ | .conditionalBranch, _ | .loadGlobal, _ =>
      .error (.operandCount .vector 3 operands.length)
    | op, _ => .error (.notInVector op)
  | _ => .error .missingLaneOp

/-- The operands of an operation. -/
def readOperands (op : Opcode) (operands : List String) : Except StatementError Statement :=
  match op with
  | .plain op => do
    expectCount (.plain op) operands 0
    return .plain op
  | .branch => do
    let target ← readTarget (← single op operands)
    return .branch target
  | .conditionalBranch => do
    let target ← readTarget (← single op operands)
    return .conditionalBranch target
  | .dupDown => return .dupDown (← readByte (← single op operands))
  | .loadGlobal => return .loadGlobal (← readByte (← single op operands))
  | .pop => return .pop (← readByte (← single op operands))
  | .ret => return .ret (← readByte (← single op operands))
  | .pushImmediate => do
    match Immediate.read (← single op operands) with
    | .ok w => return .pushImmediate w
    | .error e => .error (.immediate e)
  | .loadSwizzle => return .loadSwizzle (← readList operands)
  | .storeSwizzle => return .storeSwizzle (← readList operands)
  | .swizzle =>
    match operands with
    | sources :: count :: indices => do
      let sources ← readByte sources
      let count ← readByte count
      expectCount op operands (count.toNat + 2)
      return .swizzle sources (← indices.mapM readByte)
    | _ => .error .missingSwizzleCounts
  | .vector => readLaneStatement operands
where
  /-- A count and that many bytes. -/
  readList : List String → Except StatementError (List UInt8)
    | [] => .error (.missingCount op)
    | count :: rest => do
      let n ← readByte count
      expectCount op (count :: rest) (n.toNat + 1)
      rest.mapM readByte

/-- The statement of a list of tokens. -/
def read : List String → Except StatementError Statement
  | [] => .error .empty
  | mnemonic :: operands => do
    let op ← readMnemonic mnemonic
    readOperands op operands

end Statement

end ShaderMachine
