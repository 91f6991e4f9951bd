import ShaderMachine.Instruction.Basic

/-!
# Reading instructions

A body is a sequence of bytes. Reading starts at an offset and moves it past what was read; wide
operands are little-endian and have to be aligned relative to the start of the body. A read that
fails leaves the offset where it got to.

Main statements: `Code.readInstruction_lt` says that reading an instruction moves the offset
forward, and `Code.readInstruction_le_size` that it stays within the body. They make the walk over
all instructions of a body (`Code.instructionsFrom`) end.
-/

namespace ShaderMachine

/-- The bytes of a function body. -/
abbrev Code := Array UInt8

/-- A read at the current offset of a body. -/
abbrev Read := EStateM FaultKind Nat

/-- The number whose bytes are given, lowest first. -/
def littleEndian (bytes : List UInt8) : Nat := bytes.foldr (fun b n => b.toNat + 256 * n) 0

namespace Code

/-- Whether no byte is left at the offset. -/
def isAtEnd (code : Code) (ip : Nat) : Bool := decide (code.size ≤ ip)

def readByte (code : Code) : Read UInt8 := fun ip =>
  match code[ip]? with
  | some b => .ok b (ip + 1)
  | none => .error .codeOverrun ip

def readBytes (code : Code) (count : Nat) : Read (List UInt8) := fun ip =>
  if ip + count ≤ code.size then .ok (code.extract ip (ip + count)).toList (ip + count)
  else .error .codeOverrun ip

/-- Reads the bytes of a wide operand, whose offset has to be a multiple of its width. -/
def readAligned (code : Code) (width : Nat) : Read (List UInt8) := fun ip =>
  if ip % width = 0 then readBytes code width ip else .error (.misaligned width) ip

def readHalf (code : Code) : Read UInt16 := do
  let bytes ← readAligned code 2
  return UInt16.ofNat (littleEndian bytes)

def readWord (code : Code) : Read UInt32 := do
  let bytes ← readAligned code 4
  return UInt32.ofNat (littleEndian bytes)

def readOpcode (code : Code) : Read Opcode := do
  let b ← readByte code
  match Opcode.ofByte? b with
  | some op => return op
  | none => throw (.unknownOpcode b)

def readLaneCount (code : Code) : Read LaneCount := do
  let b ← readByte code
  match LaneCount.ofByte? b with
  | some lanes => return lanes
  | none => throw (.invalidLaneCount b)

/-- Reads a count byte and that many bytes. -/
def readByteList (code : Code) : Read (List UInt8) := do
  let count ← readByte code
  readBytes code count.toNat

def readLaneOp (code : Code) : Read LaneOp := do
  let op ← readOpcode code
  match op with
  | .plain (.binary op) => return .binary op
  | .plain (.unary op) => return .unary op
  | .plain .load => return .load
  | .plain .store => return .store
  | .loadGlobal => return .loadGlobal (← readByte code)
  | .branch => return .branch (← readHalf code)
  | .conditionalBranch => return .conditionalBranch (← readHalf code)
  | op => throw (.unsupportedLaneOp op)

/-- Reads the operands of an operation whose byte has been read. -/
def readOperands (code : Code) (op : Opcode) : Read Instruction :=
  match op with
  | .plain op => return .plain op
  | .branch => return .branch (← readHalf code)
  | .conditionalBranch => return .conditionalBranch (← readHalf code)
  | .dupDown => return .dupDown (← readByte code)
  | .loadGlobal => return .loadGlobal (← readByte code)
  | .pop => return .pop (← readByte code)
  | .ret => return .ret (← readByte code)
  | .pushImmediate => return .pushImmediate ⟨← readWord code⟩
  | .loadSwizzle => return .loadSwizzle (← readByteList code)
  | .storeSwizzle => return .storeSwizzle (← readByteList code)
  | .swizzle => do
    let sources ← readByte code
    return .swizzle sources (← readByteList code)
  | .vector => do
    let lanes ← readLaneCount code
    return .vector lanes (← readLaneOp code)

def readInstruction (code : Code) : Read Instruction := do
  let op ← readOpcode code
  readOperands code op

/-! ## Progress -/

/-- Wherever the read succeeds, it has not moved back and has stayed within the body. -/
def Forward {α : Type} (code : Code) (r : Read α) : Prop :=
  ∀ ⦃ip a ip'⦄, r ip = .ok a ip' → ip ≤ ip' ∧ (ip ≤ code.size → ip' ≤ code.size)

/-- A read that reads nothing stays where it is. -/
theorem Forward.pure {α : Type} (code : Code) (a : α) : Forward code (Pure.pure a : Read α) := by
  intro ip b ip' h
  cases h
  exact ⟨Nat.le_refl _, id⟩

/-- A read that only throws never succeeds, so nothing is asked of it. -/
theorem Forward.throw {α : Type} (code : Code) (k : FaultKind) :
    Forward code (throw k : Read α) := by
  intro ip b ip' h
  cases h

/-- Reads in sequence move forward if each of them does, whatever the first one reads. All reads of
more than a byte are made of smaller ones by this. -/
theorem Forward.bind {α β : Type} {code : Code} {r : Read α} {f : α → Read β}
    (hr : Forward code r) (hf : ∀ a, Forward code (f a)) : Forward code (r >>= f) := by
  intro ip b ip' h
  simp only [Bind.bind, EStateM.bind] at h
  split at h
  · rename_i a s hs
    have h1 := hr hs
    have h2 := hf a h
    exact ⟨Nat.le_trans h1.1 h2.1, fun hip => h2.2 (h1.2 hip)⟩
  · cases h

/-- Reading a byte moves past it, and there is one only in front of the end. -/
theorem readByte_forward (code : Code) : Forward code (readByte code) := by
  intro ip b ip' h
  unfold readByte at h
  split at h
  · rename_i hb
    cases h
    have := (Array.getElem?_eq_some_iff.1 hb).1
    exact ⟨Nat.le_succ _, fun _ => this⟩
  · cases h

/-- A number of bytes is read only where that many are left. -/
theorem readBytes_forward (code : Code) (count : Nat) : Forward code (readBytes code count) := by
  intro ip b ip' h
  unfold readBytes at h
  split at h
  · cases h
    exact ⟨Nat.le_add_right _ _, fun _ => by assumption⟩
  · cases h

/-- The check for alignment does not move the offset. -/
theorem readAligned_forward (code : Code) (width : Nat) :
    Forward code (readAligned code width) := by
  intro ip b ip' h
  unfold readAligned at h
  split at h
  · exact readBytes_forward code width h
  · cases h

/-- Making a half of the bytes read moves no further than reading them. -/
theorem readHalf_forward (code : Code) : Forward code (readHalf code) :=
  (readAligned_forward code 2).bind fun _ => .pure code _

/-- Making a word of the bytes read moves no further than reading them. -/
theorem readWord_forward (code : Code) : Forward code (readWord code) :=
  (readAligned_forward code 4).bind fun _ => .pure code _

/-- An operation takes its byte, or is refused if there is none with this byte. -/
theorem readOpcode_forward (code : Code) : Forward code (readOpcode code) :=
  (readByte_forward code).bind fun b => by
    split
    · exact .pure code _
    · exact .throw code _

/-- A number of lanes takes its byte, or is refused if it is out of range. -/
theorem readLaneCount_forward (code : Code) : Forward code (readLaneCount code) :=
  (readByte_forward code).bind fun b => by
    split
    · exact .pure code _
    · exact .throw code _

/-- A list takes its count byte and the bytes counted. -/
theorem readByteList_forward (code : Code) : Forward code (readByteList code) :=
  (readByte_forward code).bind fun _ => readBytes_forward code _

/-- Each lane-wide operation moves forward: it has no operand, a byte or a half, and the others are
refused. -/
theorem readLaneOp_forward (code : Code) : Forward code (readLaneOp code) :=
  (readOpcode_forward code).bind fun op => by
    split
    · exact .pure code _
    · exact .pure code _
    · exact .pure code _
    · exact .pure code _
    · exact (readByte_forward code).bind fun _ => .pure code _
    · exact (readHalf_forward code).bind fun _ => .pure code _
    · exact (readHalf_forward code).bind fun _ => .pure code _
    · exact .throw code _

/-- The operands of each operation move forward, one case for each form that they have. -/
theorem readOperands_forward (code : Code) (op : Opcode) :
    Forward code (readOperands code op) := by
  have byte := readByte_forward code
  have half := readHalf_forward code
  have list := readByteList_forward code
  unfold readOperands
  split
  · exact .pure code _
  · exact half.bind fun _ => .pure code _
  · exact half.bind fun _ => .pure code _
  · exact byte.bind fun _ => .pure code _
  · exact byte.bind fun _ => .pure code _
  · exact byte.bind fun _ => .pure code _
  · exact byte.bind fun _ => .pure code _
  · exact (readWord_forward code).bind fun _ => .pure code _
  · exact list.bind fun _ => .pure code _
  · exact list.bind fun _ => .pure code _
  · exact byte.bind fun _ => list.bind fun _ => .pure code _
  · exact (readLaneCount_forward code).bind fun _ =>
      (readLaneOp_forward code).bind fun _ => .pure code _

/-- The byte of the operation is consumed whenever an operation is read. -/
theorem readOpcode_eq_ok {code : Code} {ip ip' : Nat} {op : Opcode}
    (h : readOpcode code ip = .ok op ip') :
    ip' = ip + 1 ∧ ∃ b, code[ip]? = some b ∧ Opcode.ofByte? b = some op := by
  simp only [readOpcode, Bind.bind, EStateM.bind, readByte] at h
  cases hb : code[ip]? with
  | none => simp [hb] at h
  | some b =>
    simp only [hb] at h
    cases ho : Opcode.ofByte? b with
    | none =>
      simp only [ho] at h
      cases h
    | some op' =>
      simp only [ho, Pure.pure, EStateM.pure, EStateM.Result.ok.injEq] at h
      exact ⟨h.2.symm, b, rfl, by rw [ho, h.1]⟩

/-- An instruction is read in two parts, the byte of its operation and then its operands. -/
theorem readInstruction_eq_ok {code : Code} {ip ip' : Nat} {i : Instruction}
    (h : readInstruction code ip = .ok i ip') :
    ∃ op, readOpcode code ip = .ok op (ip + 1) ∧ readOperands code op (ip + 1) = .ok i ip' := by
  simp only [readInstruction, Bind.bind, EStateM.bind] at h
  split at h
  · rename_i op s hs
    obtain ⟨rfl, -⟩ := readOpcode_eq_ok hs
    exact ⟨op, hs, h⟩
  · cases h

/-- Reading an instruction moves the offset forward, by the byte of the operation at least. The walk
over a body ends for this reason. -/
theorem readInstruction_lt {code : Code} {ip ip' : Nat} {i : Instruction}
    (h : readInstruction code ip = .ok i ip') : ip < ip' := by
  obtain ⟨op, -, h⟩ := readInstruction_eq_ok h
  exact (readOperands_forward code op h).1

/-- Reading an instruction does not leave the body. -/
theorem readInstruction_le_size {code : Code} {ip ip' : Nat} {i : Instruction}
    (h : readInstruction code ip = .ok i ip') : ip' ≤ code.size := by
  obtain ⟨op, ho, h⟩ := readInstruction_eq_ok h
  obtain ⟨-, b, hb, -⟩ := readOpcode_eq_ok ho
  exact (readOperands_forward code op h).2 (Array.getElem?_eq_some_iff.1 hb).1

/-! ## Walking over a body -/

/-- The instructions from an offset to the end of the body, each with its offset, and the fault that
ends the walk early, if any. -/
def instructionsFrom (code : Code) (ip : Nat) : List (Nat × Instruction) × Option Fault :=
  if code.size ≤ ip then ([], none)
  else
    match _h : readInstruction code ip with
    | .error kind _ => ([], some ⟨some ip, kind⟩)
    | .ok i ip' =>
      let (rest, fault) := instructionsFrom code ip'
      ((ip, i) :: rest, fault)
termination_by code.size - ip
decreasing_by
  have := readInstruction_lt _h
  omega

/-- The instructions of a whole body. -/
def instructions (code : Code) : List (Nat × Instruction) × Option Fault :=
  code.instructionsFrom 0

end Code

end ShaderMachine
