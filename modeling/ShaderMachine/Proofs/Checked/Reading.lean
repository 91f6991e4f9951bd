import ShaderMachine.Instruction.Decode
import ShaderMachine.Proofs.Checked.Access

/-!
# Reading with raw accesses

A read looks for its bytes where they should be and finds out whether they are there. What is raw
about it are the sums of an offset and a number of bytes, and the copy of a wide operand into a
buffer of its width. `reads_readInstruction` says that reading comes to the same as without raw
accesses wherever the offset is no larger than a limit which leaves room for the longest operands,
and that the offset stays below that limit.
-/

namespace ShaderMachine.Checked

def readByte (code : Code) : Checked Nat UInt8 := do
  let ip ← get
  match code[ip]? with
  | some b => do
    let next ← Raw.add ip 1
    set next
    return b
  | none => throw (.fault .codeOverrun)

def readBytes (code : Code) (count : Nat) : Checked Nat (List UInt8) := do
  let ip ← get
  let stop ← Raw.add ip count
  if stop ≤ code.size then do
    set stop
    return (code.extract ip stop).toList
  else throw (.fault .codeOverrun)

/-- Reads the bytes of a wide operand into a buffer. -/
def readAligned (code : Code) (width : Nat) : Checked Nat (List UInt8) := do
  let ip ← get
  if ip % width = 0 then do
    let stop ← Raw.add ip width
    if stop ≤ code.size then do
      let buffer ← Raw.copyOver (Array.replicate width 0) (code.extract ip stop)
      set stop
      return buffer.toList
    else throw (.fault .codeOverrun)
  else throw (.fault (.misaligned width))

def readHalf (code : Code) : Checked Nat UInt16 := do
  let bytes ← readAligned code 2
  return UInt16.ofNat (littleEndian bytes)

def readWord (code : Code) : Checked Nat UInt32 := do
  let bytes ← readAligned code 4
  return UInt32.ofNat (littleEndian bytes)

def readOpcode (code : Code) : Checked Nat Opcode := do
  let b ← readByte code
  match Opcode.ofByte? b with
  | some op => return op
  | none => throw (.fault (.unknownOpcode b))

def readLaneCount (code : Code) : Checked Nat LaneCount := do
  let b ← readByte code
  match LaneCount.ofByte? b with
  | some lanes => return lanes
  | none => throw (.fault (.invalidLaneCount b))

def readByteList (code : Code) : Checked Nat (List UInt8) := do
  let count ← readByte code
  readBytes code count.toNat

def readLaneOp (code : Code) : Checked Nat LaneOp := do
  let op ← readOpcode code
  match op with
  | .plain (.binary op) => return .binary op
  | .plain (.unary op) => return .unary op
  | .plain .load => return .load
  | .plain .store => return .store
  | .loadGlobal => return .loadGlobal (← readByte code)
  | .branch => return .branch (← readHalf code)
  | .conditionalBranch => return .conditionalBranch (← readHalf code)
  | op => throw (.fault (.unsupportedLaneOp op))

def readOperands (code : Code) (op : Opcode) : Checked Nat Instruction :=
  match op with
  | .plain op => return .plain op
  | .branch => return .branch (← readHalf code)
  | .conditionalBranch => return .conditionalBranch (← readHalf code)
  | .dupDown => return .dupDown (← readByte code)
  | .loadGlobal => return .loadGlobal (← readByte code)
  | .pop => return .pop (← readByte code)
  | .ret => return .ret (← readByte code)
  | .pushImmediate => return .pushImmediate ⟨← readWord code⟩
  | .loadSwizzle => return .loadSwizzle (← readByteList code)
  | .storeSwizzle => return .storeSwizzle (← readByteList code)
  | .swizzle => do
    let sources ← readByte code
    return .swizzle sources (← readByteList code)
  | .vector => do
    let lanes ← readLaneCount code
    return .vector lanes (← readLaneOp code)

def readInstruction (code : Code) : Checked Nat Instruction := do
  let op ← readOpcode code
  readOperands code op

/-! ## Comparing with reading without raw accesses -/

section
variable {α β : Type} {code : Code} {limit : Nat}

/-- At offsets up to a limit a checked read does what the other one does, and the offset stays below
the limit. -/
abbrev Reads (limit : Nat) (x : Checked Nat α) (y : Read α) : Prop := Follows (· ≤ limit) Eq x y

/-- Reads in sequence are compared part by part, as the first ones give the same value. -/
theorem Reads.bind {x : Checked Nat α} {y : Read α} {f : α → Checked Nat β} {g : α → Read β}
    (hx : Reads limit x y) (hf : ∀ a, Reads limit (f a) (g a)) :
    Reads limit (x >>= f) (y >>= g) :=
  Follows.bind hx fun a _ hab => hab ▸ hf a

/-- A read that asks for the offset is given it. -/
theorem get_bind (f : Nat → Checked Nat α) (ip : Nat) : (get >>= f) ip = f ip ip := rfl

/-- A raw access that is no violation is passed where a read makes it. -/
theorem raw_bind {r : Except Violation β} {b : β} (h : r = .ok b) (f : β → Checked Nat α)
    (ip : Nat) : (liftM r >>= f) ip = f b ip := by
  subst h
  rfl

end

section
variable {code : Code} {limit : Nat} (hsize : code.size ≤ limit)
  (hlimit : limit + 256 ≤ UInt64.size)

include hsize hlimit

/-- A byte is looked for where it should be, so the only raw access is the step to the next
offset. -/
theorem reads_readByte : Reads limit (readByte code) code.readByte := by
  intro ip hip
  have hadd : Raw.add ip 1 = .ok (ip + 1) := Raw.add_eq_ok (by omega)
  unfold readByte Code.readByte
  rw [get_bind]
  cases hb : code[ip]? with
  | some b =>
    have hlt := (Array.getElem?_eq_some_iff.1 hb).1
    dsimp only
    rw [raw_bind hadd]
    exact .ok rfl (by omega)
  | none => exact .error

/-- The end of a list is computed before it is checked. It does not overflow, as lists are counted
by a byte. -/
theorem reads_readBytes {count : Nat} (hcount : count < 256) :
    Reads limit (readBytes code count) (code.readBytes count) := by
  intro ip hip
  have hadd : Raw.add ip count = .ok (ip + count) := Raw.add_eq_ok (by omega)
  unfold readBytes Code.readBytes
  rw [get_bind, raw_bind hadd]
  split
  · exact .ok rfl (by omega)
  · exact .error

/-- The bytes of an operand are as many as its buffer has places for. -/
theorem reads_readAligned {width : Nat} (hwidth : width < 256) :
    Reads limit (readAligned code width) (code.readAligned width) := by
  intro ip hip
  have hadd : Raw.add ip width = .ok (ip + width) := Raw.add_eq_ok (by omega)
  unfold readAligned Code.readAligned Code.readBytes
  rw [get_bind]
  split
  · rw [raw_bind hadd]
    split
    · rename_i hstop
      have hcopy : Raw.copyOver (Array.replicate width 0) (code.extract ip (ip + width)) =
          .ok (code.extract ip (ip + width)) := if_pos (by simp; omega)
      rw [raw_bind hcopy]
      exact .ok rfl (by omega)
    · exact .error
  · exact .error

/-- A half has an aligned operand of two bytes. -/
theorem reads_readHalf : Reads limit (readHalf code) code.readHalf :=
  (reads_readAligned hsize hlimit (by decide)).bind fun _ => .pure rfl

/-- A word has an aligned operand of four bytes. -/
theorem reads_readWord : Reads limit (readWord code) code.readWord :=
  (reads_readAligned hsize hlimit (by decide)).bind fun _ => .pure rfl

/-- Looking up an operation makes no raw access behind that of its byte. -/
theorem reads_readOpcode : Reads limit (readOpcode code) code.readOpcode :=
  (reads_readByte hsize hlimit).bind fun b => by
    cases Opcode.ofByte? b with
    | some op => exact .pure rfl
    | none => exact .throw _

/-- Checking a number of lanes makes no raw access behind that of its byte. -/
theorem reads_readLaneCount : Reads limit (readLaneCount code) code.readLaneCount :=
  (reads_readByte hsize hlimit).bind fun b => by
    cases LaneCount.ofByte? b with
    | some lanes => exact .pure rfl
    | none => exact .throw _

/-- A list is read behind its count byte, so it has fewer than 256 bytes. -/
theorem reads_readByteList : Reads limit (readByteList code) code.readByteList :=
  (reads_readByte hsize hlimit).bind fun count => reads_readBytes hsize hlimit count.toNat_lt

/-- The operands of lane-wide operations are a byte or a half, if there are any. -/
theorem reads_readLaneOp : Reads limit (readLaneOp code) code.readLaneOp :=
  (reads_readOpcode hsize hlimit).bind fun op => by
    have byte := reads_readByte hsize hlimit
    have half := reads_readHalf hsize hlimit
    cases op with
    | plain op =>
      cases op with
      | binary | unary | load | store => exact .pure rfl
      | _ => exact .throw _
    | loadGlobal => exact byte.bind fun _ => .pure rfl
    | branch | conditionalBranch => exact half.bind fun _ => .pure rfl
    | _ => exact .throw _

/-- The operands of each operation are made of reads that have been compared already. -/
theorem reads_readOperands (op : Opcode) :
    Reads limit (readOperands code op) (code.readOperands op) := by
  have byte := reads_readByte hsize hlimit
  have half := reads_readHalf hsize hlimit
  have list := reads_readByteList hsize hlimit
  cases op with
  | plain => exact .pure rfl
  | branch | conditionalBranch => exact half.bind fun _ => .pure rfl
  | dupDown | loadGlobal | pop | ret => exact byte.bind fun _ => .pure rfl
  | pushImmediate => exact (reads_readWord hsize hlimit).bind fun _ => .pure rfl
  | loadSwizzle | storeSwizzle => exact list.bind fun _ => .pure rfl
  | swizzle => exact byte.bind fun _ => list.bind fun _ => .pure rfl
  | vector =>
    exact (reads_readLaneCount hsize hlimit).bind fun _ =>
      (reads_readLaneOp hsize hlimit).bind fun _ => .pure rfl

/-- Reading an instruction comes to the same with raw accesses. -/
theorem reads_readInstruction : Reads limit (readInstruction code) code.readInstruction :=
  (reads_readOpcode hsize hlimit).bind fun op => reads_readOperands hsize hlimit op

end

end ShaderMachine.Checked
