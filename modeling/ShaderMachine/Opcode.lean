/-!
# Operation codes

The instruction set has 56 operations, numbered `0x00` to `0x37`. They are grouped by what they do:
two-operand arithmetic and comparisons (`BinaryOp`), rewrites of the top slot (`UnaryOp`), names
that are kept but never executed (`ReservedOp`), the remaining operations without inline operands
(`PlainOp`), and those that carry operands behind their byte.

Main statements: `Opcode.ofByte?_byte` and `Opcode.ofMnemonic?_mnemonic` say that byte and mnemonic
each identify the operation.
-/

namespace ShaderMachine

/-- Operations that pop a right operand and replace the left one with the result. -/
inductive BinaryOp where
  | addFloat | addInt
  | compareIntEq | compareIntNe
  | compareFloatEq | compareFloatGt | compareFloatGe | compareFloatLt | compareFloatLe
  | compareFloatNe
  | compareSignedGt | compareSignedGe | compareSignedLt | compareSignedLe
  | compareUnsignedGt | compareUnsignedGe | compareUnsignedLt | compareUnsignedLe
  | divideFloat | divideSigned | divideUnsigned
  | multiplyFloat | multiplySigned | multiplyUnsigned
  | remainderSigned | remainderUnsigned
  | subtractFloat | subtractInt
deriving DecidableEq, Repr

/-- Operations that rewrite the top slot in place. -/
inductive UnaryOp where
  | floatToInt | negateFloat | negateSigned | not | signedToFloat | unsignedToFloat
deriving DecidableEq, Repr

/-- Operations that are part of the set but have no execution semantics. -/
inductive ReservedOp where
  | andBool | andInt | orBool | orInt | parameter
deriving DecidableEq, Repr

/-- Operations that are written as a single byte. -/
inductive PlainOp where
  | binary (op : BinaryOp)
  | unary (op : UnaryOp)
  | reserved (op : ReservedOp)
  | debugPrint | dup | load | nop | store | storeGlobal
deriving DecidableEq, Repr

/-- All operations. Those beside `plain` have inline operands. -/
inductive Opcode where
  | plain (op : PlainOp)
  | branch | conditionalBranch
  | dupDown | loadGlobal | pop | ret
  | pushImmediate
  | loadSwizzle | storeSwizzle
  | swizzle
  | vector
deriving DecidableEq, Repr

/-- What follows the byte of an operation. -/
inductive Operands where
  /-- Nothing. -/
  | none
  /-- A 16-bit absolute branch target at an even offset. -/
  | target
  /-- One count or index byte. -/
  | byte
  /-- A 32-bit immediate at an offset that is a multiple of four. -/
  | word
  /-- A count byte and that many offset bytes. -/
  | byteList
  /-- A source count, a destination count, and one index byte for each destination. -/
  | swizzle
  /-- A lane count, an inner operation, and the operands of the inner operation. -/
  | vector
deriving DecidableEq, Repr

/-! ## Mnemonics -/

def BinaryOp.mnemonic : BinaryOp → String
  | addFloat => "addf"
  | addInt => "addi"
  | compareIntEq => "compareieq"
  | compareIntNe => "compareineq"
  | compareFloatEq => "comparefeq"
  | compareFloatGt => "comparefgt"
  | compareFloatGe => "comparefgteq"
  | compareFloatLt => "compareflt"
  | compareFloatLe => "compareflteq"
  | compareFloatNe => "comparefneq"
  | compareSignedGt => "comparesgt"
  | compareSignedGe => "comparesgteq"
  | compareSignedLt => "compareslt"
  | compareSignedLe => "compareslteq"
  | compareUnsignedGt => "compareugt"
  | compareUnsignedGe => "compareugteq"
  | compareUnsignedLt => "compareult"
  | compareUnsignedLe => "compareulteq"
  | divideFloat => "dividef"
  | divideSigned => "divides"
  | divideUnsigned => "divideu"
  | multiplyFloat => "multiplyf"
  | multiplySigned => "multiplys"
  | multiplyUnsigned => "multiplyu"
  | remainderSigned => "remainders"
  | remainderUnsigned => "remainderu"
  | subtractFloat => "subtractf"
  | subtractInt => "subtracti"

def UnaryOp.mnemonic : UnaryOp → String
  | floatToInt => "floattoint"
  | negateFloat => "negatef"
  | negateSigned => "negates"
  | not => "not"
  | signedToFloat => "signedtofloat"
  | unsignedToFloat => "unsignedtofloat"

def ReservedOp.mnemonic : ReservedOp → String
  | andBool => "andb"
  | andInt => "andi"
  | orBool => "orb"
  | orInt => "ori"
  | parameter => "parameter"

def PlainOp.mnemonic : PlainOp → String
  | binary op => op.mnemonic
  | unary op => op.mnemonic
  | reserved op => op.mnemonic
  | debugPrint => "debugprint"
  | dup => "dup"
  | load => "load"
  | nop => "nop"
  | store => "store"
  | storeGlobal => "storeglobal"

/-! ## Byte values -/

def BinaryOp.byte : BinaryOp → UInt8
  | addFloat => 0x00
  | addInt => 0x01
  | compareIntEq => 0x05
  | compareIntNe => 0x06
  | compareFloatEq => 0x07
  | compareFloatGt => 0x08
  | compareFloatGe => 0x09
  | compareFloatLt => 0x0A
  | compareFloatLe => 0x0B
  | compareFloatNe => 0x0C
  | compareSignedGt => 0x0D
  | compareSignedGe => 0x0E
  | compareSignedLt => 0x0F
  | compareSignedLe => 0x10
  | compareUnsignedGt => 0x11
  | compareUnsignedGe => 0x12
  | compareUnsignedLt => 0x13
  | compareUnsignedLe => 0x14
  | divideFloat => 0x17
  | divideSigned => 0x18
  | divideUnsigned => 0x19
  | multiplyFloat => 0x20
  | multiplySigned => 0x21
  | multiplyUnsigned => 0x22
  | remainderSigned => 0x2C
  | remainderUnsigned => 0x2D
  | subtractFloat => 0x33
  | subtractInt => 0x34

def UnaryOp.byte : UnaryOp → UInt8
  | floatToInt => 0x1C
  | negateFloat => 0x23
  | negateSigned => 0x24
  | not => 0x26
  | signedToFloat => 0x2F
  | unsignedToFloat => 0x36

def ReservedOp.byte : ReservedOp → UInt8
  | andBool => 0x02
  | andInt => 0x03
  | orBool => 0x27
  | orInt => 0x28
  | parameter => 0x29

def PlainOp.byte : PlainOp → UInt8
  | binary op => op.byte
  | unary op => op.byte
  | reserved op => op.byte
  | debugPrint => 0x16
  | dup => 0x1A
  | load => 0x1D
  | nop => 0x25
  | store => 0x30
  | storeGlobal => 0x31

namespace Opcode

def mnemonic : Opcode → String
  | plain op => op.mnemonic
  | branch => "branch"
  | conditionalBranch => "conditionalbranch"
  | dupDown => "dupdown"
  | loadGlobal => "loadglobal"
  | pop => "pop"
  | ret => "return"
  | pushImmediate => "pushimmediate"
  | loadSwizzle => "loadswizzle"
  | storeSwizzle => "storeswizzle"
  | swizzle => "swizzle"
  | vector => "vector"

def byte : Opcode → UInt8
  | plain op => op.byte
  | branch => 0x04
  | conditionalBranch => 0x15
  | dupDown => 0x1B
  | loadGlobal => 0x1E
  | pop => 0x2A
  | ret => 0x2E
  | pushImmediate => 0x2B
  | loadSwizzle => 0x1F
  | storeSwizzle => 0x32
  | swizzle => 0x35
  | vector => 0x37

def operands : Opcode → Operands
  | plain _ => .none
  | branch | conditionalBranch => .target
  | dupDown | loadGlobal | pop | ret => .byte
  | pushImmediate => .word
  | loadSwizzle | storeSwizzle => .byteList
  | swizzle => .swizzle
  | vector => .vector

/-- All operations in the order of their bytes. -/
def all : Array Opcode := #[
  .plain (.binary .addFloat),
  .plain (.binary .addInt),
  .plain (.reserved .andBool),
  .plain (.reserved .andInt),
  .branch,
  .plain (.binary .compareIntEq),
  .plain (.binary .compareIntNe),
  .plain (.binary .compareFloatEq),
  .plain (.binary .compareFloatGt),
  .plain (.binary .compareFloatGe),
  .plain (.binary .compareFloatLt),
  .plain (.binary .compareFloatLe),
  .plain (.binary .compareFloatNe),
  .plain (.binary .compareSignedGt),
  .plain (.binary .compareSignedGe),
  .plain (.binary .compareSignedLt),
  .plain (.binary .compareSignedLe),
  .plain (.binary .compareUnsignedGt),
  .plain (.binary .compareUnsignedGe),
  .plain (.binary .compareUnsignedLt),
  .plain (.binary .compareUnsignedLe),
  .conditionalBranch,
  .plain .debugPrint,
  .plain (.binary .divideFloat),
  .plain (.binary .divideSigned),
  .plain (.binary .divideUnsigned),
  .plain .dup,
  .dupDown,
  .plain (.unary .floatToInt),
  .plain .load,
  .loadGlobal,
  .loadSwizzle,
  .plain (.binary .multiplyFloat),
  .plain (.binary .multiplySigned),
  .plain (.binary .multiplyUnsigned),
  .plain (.unary .negateFloat),
  .plain (.unary .negateSigned),
  .plain .nop,
  .plain (.unary .not),
  .plain (.reserved .orBool),
  .plain (.reserved .orInt),
  .plain (.reserved .parameter),
  .pop,
  .pushImmediate,
  .plain (.binary .remainderSigned),
  .plain (.binary .remainderUnsigned),
  .ret,
  .plain (.unary .signedToFloat),
  .plain .store,
  .plain .storeGlobal,
  .storeSwizzle,
  .plain (.binary .subtractFloat),
  .plain (.binary .subtractInt),
  .swizzle,
  .plain (.unary .unsignedToFloat),
  .vector]

/-- The operation with the given byte. -/
def ofByte? (b : UInt8) : Option Opcode := all[b.toNat]?

/-- The operation with the given mnemonic, which is written in lower case. -/
def ofMnemonic? (name : String) : Option Opcode := all.find? (·.mnemonic == name)

/-- Every operation is found by its own byte. -/
theorem ofByte?_byte (op : Opcode) : ofByte? op.byte = some op := by
  cases op with
  | plain op =>
    cases op with
    | binary op => cases op <;> rfl
    | unary op => cases op <;> rfl
    | reserved op => cases op <;> rfl
    | _ => rfl
  | _ => rfl

/-- Every operation is found by its own mnemonic. -/
theorem ofMnemonic?_mnemonic (op : Opcode) : ofMnemonic? op.mnemonic = some op := by
  cases op with
  | plain op =>
    cases op with
    | binary op => cases op <;> decide +kernel
    | unary op => cases op <;> decide +kernel
    | reserved op => cases op <;> decide +kernel
    | _ => decide +kernel
  | _ => decide +kernel

/-- A byte that belongs to an operation is that operation's byte. -/
theorem byte_of_ofByte? {b : UInt8} {op : Opcode} (h : ofByte? b = some op) : op.byte = b := by
  have all_byte : ∀ i : Fin 256, ∀ op, ofByte? (UInt8.ofNat i) = some op →
      op.byte = UInt8.ofNat i := by
    decide +kernel
  have := all_byte ⟨b.toNat, b.toNat_lt⟩ op
  simp only [UInt8.ofNat_toNat] at this
  exact this h

/-- Whether the operation pops a right operand and replaces the left one. -/
def isBinary : Opcode → Bool
  | plain (.binary _) => true
  | _ => false

/-- Whether the operation rewrites the top slot in place. -/
def isUnary : Opcode → Bool
  | plain (.unary _) => true
  | _ => false

/-- Whether the operation has no execution semantics. -/
def isReserved : Opcode → Bool
  | plain (.reserved _) => true
  | _ => false

end Opcode

end ShaderMachine
