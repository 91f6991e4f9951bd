import ShaderMachine.Decimal.Format
import ShaderMachine.Instruction.Decode

/-!
# Listings

The text of an instruction, and the listing of a body: one line for each instruction with its
offset. An immediate is shown twice, as a signed integer and as a float.
-/

namespace ShaderMachine

namespace Word

/-- Floats by themselves are positional, with the fewest digits and no fraction for integral
values. -/
def plainFloat : Decimal.Format where
  positional := none
  pointZero := false
  exponentPlus := false
  tie := .up

/-- Floats in a listing keep a fraction and are positional from `10 ^ -6` to below `10 ^ 13`. -/
def listedFloat : Decimal.Format where
  positional := some (-6, 12)
  pointZero := true
  exponentPlus := false
  tie := .toEven

/-- The word as a float by itself. -/
def floatText (w : Word) : String := plainFloat.text (.ofBits w.bits)

/-- The word as a signed integer. -/
def signedText (w : Word) : String := Numeral.intText w.toInt

/-- The word as an unsigned integer. -/
def unsignedText (w : Word) : String := Numeral.natText w.bits.toNat

/-- The bits of the word in hexadecimal. -/
def hexText (w : Word) : String := "0x" ++ String.ofList (Numeral.hex 8 w.bits.toNat)

/-- The word as a signed integer and as a float, as it is shown in a stack. -/
def text (w : Word) : String := w.signedText ++ "(" ++ w.floatText ++ ")"

/-- The word as the operand of a listed instruction. -/
def listedText (w : Word) : String :=
  w.signedText ++ " (" ++ listedFloat.text (.ofBits w.bits) ++ ")"

/-- Words from the bottom of a stack to its top. -/
def listText (words : List Word) : String :=
  "[" ++ ", ".intercalate (words.map text) ++ "]"

end Word

/-- Numbers separated by commas. -/
def commaText (numbers : List Nat) : String := ", ".intercalate (numbers.map Numeral.natText)

def LaneOp.text : LaneOp → String
  | loadGlobal index => Opcode.loadGlobal.mnemonic ++ " " ++ Numeral.natText index.toNat
  | branch target => Opcode.branch.mnemonic ++ " " ++ Numeral.natText target.toNat
  | conditionalBranch target =>
    Opcode.conditionalBranch.mnemonic ++ " " ++ Numeral.natText target.toNat
  | op => op.opcode.mnemonic

namespace Instruction

/-- The operands of an instruction. `showWord` gives the text of an immediate. -/
def operandText (showWord : Word → String) : Instruction → Option String
  | plain _ => none
  | branch target | conditionalBranch target => some (Numeral.natText target.toNat)
  | dupDown n | loadGlobal n | pop n | ret n => some (Numeral.natText n.toNat)
  | pushImmediate value => some (showWord value)
  | loadSwizzle offsets | storeSwizzle offsets =>
    some (commaText (offsets.length :: offsets.map UInt8.toNat))
  | swizzle sources indices =>
    some (commaText (sources.toNat :: indices.length :: indices.map UInt8.toNat))
  | vector lanes op => some (Numeral.natText lanes.toNat ++ " " ++ op.text)

/-- The instruction as text, with immediates shown by `showWord`. -/
def textWith (showWord : Word → String) (i : Instruction) : String :=
  match i.operandText showWord with
  | some operands => i.opcode.mnemonic ++ " " ++ operands
  | none => i.opcode.mnemonic

/-- The instruction as it is listed. -/
def text (i : Instruction) : String := i.textWith Word.listedText

end Instruction

namespace Code

/-- One line for each instruction of the body. -/
def listing (code : Code) : Except Fault String :=
  match code.instructions with
  | (_, some fault) => .error fault
  | (lines, none) =>
    .ok (String.join (lines.map fun (ip, i) => Numeral.natText ip ++ ": " ++ i.text ++ "\n"))

end Code

end ShaderMachine
