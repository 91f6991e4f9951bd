import ShaderMachine.Proofs.Assembler.Immediates
import ShaderMachine.Proofs.Assembler.Tokens
import ShaderMachine.Proofs.Instruction.Codec

/-!
# The text of an instruction is read as its statement

An instruction as text, with immediates as signed integers, spells its mnemonic and its operands
(`Instruction.spells_text`), and these tokens are read as the statement that asks for the
instruction (`Instruction.read_tokens`). A branch asks for its target by a literal offset.
-/

namespace ShaderMachine

open Numeral (natText)

/-! ## Tokens of instructions -/

/-- The operand of a lane-wide operation, if it has one. -/
def LaneOp.operands : LaneOp → List Nat
  | loadGlobal index => [index.toNat]
  | branch target | conditionalBranch target => [target.toNat]
  | _ => []

def LaneOp.tokens (op : LaneOp) : List String := op.opcode.mnemonic :: op.operands.map natText

namespace Instruction

def operandTokens : Instruction → List String
  | plain _ => []
  | branch target | conditionalBranch target => [natText target.toNat]
  | dupDown n | loadGlobal n | pop n | ret n => [natText n.toNat]
  | pushImmediate value => [value.signedText]
  | loadSwizzle offsets | storeSwizzle offsets =>
    (offsets.length :: offsets.map UInt8.toNat).map natText
  | swizzle sources indices =>
    (sources.toNat :: indices.length :: indices.map UInt8.toNat).map natText
  | vector lanes op => natText lanes.toNat :: op.tokens

def tokens (i : Instruction) : List String := i.opcode.mnemonic :: i.operandTokens

end Instruction

/-! ## Spelling -/

namespace SourceLine

/-- A text spells the tokens. -/
def SpellsText (tokens : List String) (text : String) : Prop :=
  Spells (tokens.map String.toList) text.toList

/-- A numeral is a token. -/
theorem isToken_natText (n : Nat) : IsToken (natText n).toList := by
  rw [natText, String.toList_ofList]
  exact isToken_decimal n

/-- A signed integer is a token, with its sign. -/
theorem isToken_signedText (w : Word) : IsToken w.signedText.toList := by
  rw [Word.signedText, Numeral.intText, String.toList_ofList]
  exact isToken_decimalInt _

section
variable {token text : String} {tokens : List String}

/-- A token and a blank in front of a text are one more token. -/
theorem SpellsText.blank (htoken : IsToken token.toList) (h : SpellsText tokens text) :
    SpellsText (token :: tokens) (token ++ " " ++ text) := by
  have htext : (token ++ " " ++ text).toList = token.toList ++ ' ' :: text.toList := by simp
  rw [SpellsText, htext]
  exact Spells.blank htoken h

/-- A token, a comma and a blank in front of a text are one more token. -/
theorem SpellsText.comma (htoken : IsToken token.toList) (h : SpellsText tokens text) :
    SpellsText (token :: tokens) (token ++ ", " ++ text) := by
  have htext : (token ++ ", " ++ text).toList = token.toList ++ ',' :: ' ' :: text.toList := by
    simp
  rw [SpellsText, htext]
  exact Spells.comma htoken h

end

/-- A numeral spells itself. -/
theorem spells_natText (n : Nat) : SpellsText [natText n] (natText n) :=
  .last (isToken_natText n)

/-- Numbers separated by commas. -/
theorem spells_commaText (n : Nat) (numbers : List Nat) :
    SpellsText ((n :: numbers).map natText) (commaText (n :: numbers)) := by
  induction numbers generalizing n with
  | nil =>
    rw [commaText, List.map_singleton, String.intercalate_singleton]
    exact spells_natText n
  | cons m numbers ih =>
    have htext : commaText (n :: m :: numbers) = natText n ++ ", " ++ commaText (m :: numbers) :=
      String.intercalate_cons_cons
    rw [htext]
    exact (ih m).comma (isToken_natText n)

end SourceLine

open SourceLine

/-- The text of a lane-wide operation spells its mnemonic and its operand. -/
theorem LaneOp.spells_text (op : LaneOp) : SpellsText op.tokens op.text := by
  cases op with
  | loadGlobal | branch | conditionalBranch =>
    exact (spells_natText _).blank (isToken_mnemonic _)
  | _ => exact .last (isToken_mnemonic _)

/-- The text of an instruction with immediates as signed integers spells its mnemonic and its
operands. -/
theorem Instruction.spells_text (i : Instruction) :
    SpellsText i.tokens (i.textWith Word.signedText) := by
  have hmnemonic := isToken_mnemonic i.opcode
  cases i with
  | plain => exact .last hmnemonic
  | branch | conditionalBranch | dupDown | loadGlobal | pop | ret =>
    exact (spells_natText _).blank hmnemonic
  | pushImmediate value =>
    have hvalue : SpellsText [value.signedText] value.signedText := .last (isToken_signedText value)
    exact hvalue.blank hmnemonic
  | loadSwizzle | storeSwizzle | swizzle => exact (spells_commaText _ _).blank hmnemonic
  | vector lanes op => exact (op.spells_text.blank (isToken_natText _)).blank hmnemonic

/-! ## Statements -/

/-- A target by its offset. -/
def Target.literal (target : UInt16) : Target := .offset (natText target.toNat) target

/-- The statement that asks for an instruction. -/
def Instruction.statement : Instruction → Statement
  | plain op => .plain op
  | branch target => .branch (.literal target)
  | conditionalBranch target => .conditionalBranch (.literal target)
  | dupDown count => .dupDown count
  | loadGlobal index => .loadGlobal index
  | pop count => .pop count
  | ret count => .ret count
  | pushImmediate value => .pushImmediate value
  | loadSwizzle offsets => .loadSwizzle offsets
  | storeSwizzle offsets => .storeSwizzle offsets
  | swizzle sources indices => .swizzle sources indices
  | vector lanes (.binary op) => .vector lanes.val (.binary op)
  | vector lanes (.unary op) => .vector lanes.val (.unary op)
  | vector lanes .load => .vector lanes.val .load
  | vector lanes .store => .vector lanes.val .store
  | vector lanes (.loadGlobal index) => .vectorLoadGlobal lanes.val index
  | vector lanes (.branch target) => .vectorBranch lanes.val (.literal target)
  | vector lanes (.conditionalBranch target) =>
    .vectorConditionalBranch lanes.val (.literal target)

namespace Statement

/-- The mnemonic of an operation, which is in lower case, is read as the operation. -/
theorem readMnemonic_mnemonic (op : Opcode) : readMnemonic op.mnemonic = .ok op := by
  rw [readMnemonic, (isToken_and_lower_mnemonic op).2, String.ofList_toList,
    Opcode.ofMnemonic?_mnemonic]

/-- A byte is read from its numeral, which is never taken for a hexadecimal one. -/
theorem readByte_natText {n : Nat} (h : n < 256) : readByte (natText n) = .ok (UInt8.ofNat n) := by
  have hread : Numeral.readUnsigned 10 255 (Numeral.decimal n) = .ok n :=
    Numeral.readUnsigned_decimal (by omega)
  have hx : 'x' ∉ Numeral.decimal n := fun hmem =>
    Numeral.forall_mem_decimal (p := (· ≠ 'x')) (by decide) n 'x' hmem rfl
  have htoken : (natText n).toList = Numeral.decimal n := String.toList_ofList
  unfold readByte
  rw [htoken]
  split
  · rename_i digits hdigits
    exact absurd (hdigits ▸ .tail _ (.head _)) hx
  · rw [hread]

/-- The numeral of a byte is read as the byte. -/
theorem readByte_toNat (b : UInt8) : readByte (natText b.toNat) = .ok b := by
  rw [readByte_natText b.toNat_lt, UInt8.ofNat_toNat]

/-- The numeral of an offset is read as a literal offset, and not as a label. -/
theorem readTarget_natText (target : UInt16) :
    readTarget (natText target.toNat) = .ok (.literal target) := by
  obtain ⟨c, cs, hdecimal, hc⟩ := Numeral.exists_decimal_eq_cons target.toNat
  have hread : Numeral.readUnsigned 10 (UInt16.size - 1) (Numeral.decimal target.toNat) =
      .ok target.toNat := Numeral.readUnsigned_decimal (Nat.le_pred_of_lt target.toNat_lt)
  rw [readTarget, natText, String.toList_ofList, hdecimal, List.head?_cons, ← hdecimal]
  simp only [Option.any_some, hc, if_true, hread, UInt16.ofNat_toNat, Target.literal, natText]

/-- The numerals of bytes are read as the bytes. -/
theorem mapM_readByte (bytes : List UInt8) :
    ((bytes.map UInt8.toNat).map natText).mapM readByte = .ok bytes := by
  induction bytes with
  | nil => rfl
  | cons b bytes ih =>
    rw [List.map_cons, List.map_cons, List.mapM_cons, readByte_toNat, ih]
    rfl

/-- A count agrees with as many operands behind it, and those before it. -/
theorem expectCount_counted (op : Opcode) {operands : List String} {bytes : List UInt8}
    {before : Nat} (hlen : operands.length = bytes.length + before) (h : bytes.length < 256) :
    expectCount op operands ((UInt8.ofNat bytes.length).toNat + before) = .ok () := by
  rw [expectCount, UInt8.toNat_ofNat_of_lt' h, if_pos hlen]

/-- A list behind its length is read, if a count byte can hold the length. -/
theorem readList_counted (op : Opcode) {bytes : List UInt8} (h : bytes.length < 256) :
    readOperands.readList op ((bytes.length :: bytes.map UInt8.toNat).map natText) =
      .ok bytes := by
  rw [List.map_cons, readOperands.readList, readByte_natText h]
  simp only [Bind.bind, Except.bind]
  rw [expectCount_counted op (by simp) h]
  exact mapM_readByte bytes

/-- The tokens of a lane-wide operation behind its number of lanes are read as its statement. -/
theorem readLaneStatement_tokens (lanes : LaneCount) (op : LaneOp) :
    readLaneStatement (natText lanes.toNat :: op.tokens) =
      .ok (Instruction.vector lanes op).statement := by
  have hlanes : readByte (natText lanes.toNat) = .ok lanes.val := readByte_toNat lanes.val
  cases op with
  | binary | unary | load | store =>
    simp only [readLaneStatement, LaneOp.tokens, LaneOp.opcode, LaneOp.operands, List.map_nil,
      Bind.bind, Except.bind, hlanes, readMnemonic_mnemonic]
    rfl
  | loadGlobal =>
    simp only [readLaneStatement, LaneOp.tokens, LaneOp.opcode, LaneOp.operands, List.map_cons,
      List.map_nil, Bind.bind, Except.bind, hlanes, readMnemonic_mnemonic, readByte_toNat]
    rfl
  | branch | conditionalBranch =>
    simp only [readLaneStatement, LaneOp.tokens, LaneOp.opcode, LaneOp.operands, List.map_cons,
      List.map_nil, Bind.bind, Except.bind, hlanes, readMnemonic_mnemonic, readTarget_natText]
    rfl

end Statement

/-! ## Instructions -/

/-- The tokens of an instruction are read as the statement that asks for it. -/
theorem Instruction.read_tokens {i : Instruction} (h : i.Fits) :
    Statement.read i.tokens = .ok i.statement := by
  have hread : Statement.read i.tokens = Statement.readOperands i.opcode i.operandTokens := by
    rw [tokens, Statement.read, Statement.readMnemonic_mnemonic]
    rfl
  rw [hread]
  cases i with
  | plain op => rfl
  | branch target | conditionalBranch target =>
    simp only [Statement.readOperands, opcode, operandTokens, Statement.single, Bind.bind,
      Except.bind, Statement.readTarget_natText]
    rfl
  | dupDown n | loadGlobal n | pop n | ret n =>
    simp only [Statement.readOperands, opcode, operandTokens, Statement.single, Bind.bind,
      Except.bind, Statement.readByte_toNat]
    rfl
  | pushImmediate value =>
    simp only [Statement.readOperands, opcode, operandTokens, Statement.single, Bind.bind,
      Except.bind, Immediate.read_signedText]
    rfl
  | loadSwizzle offsets | storeSwizzle offsets =>
    simp only [Statement.readOperands, opcode, operandTokens, Bind.bind, Except.bind,
      Statement.readList_counted _ h]
    rfl
  | swizzle sources indices =>
    simp only [Statement.readOperands, opcode, operandTokens, List.map_cons, Bind.bind,
      Except.bind, Statement.readByte_toNat, Statement.readByte_natText h]
    rw [Statement.expectCount_counted .swizzle (by simp) h]
    simp only [Statement.mapM_readByte]
    rfl
  | vector lanes op => exact Statement.readLaneStatement_tokens lanes op

end ShaderMachine
