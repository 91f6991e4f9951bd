import ShaderMachine.Instruction.Decode

/-!
# When an instruction cannot be read

A read faults because bytes are missing, misaligned or not those of an operation with its operands
(`FaultKind.Unreadable`). `Code.unreadable_of_readInstruction` says that reading an instruction
faults in no other way; it follows the reads that an instruction is made of.
-/

namespace ShaderMachine

/-- The faults that reading an instruction can end in. -/
def FaultKind.Unreadable : FaultKind → Prop
  | unknownOpcode _ | unsupportedLaneOp _ | codeOverrun | misaligned _ | invalidLaneCount _ => True
  | _ => False

namespace Code

/-- Wherever the read faults, something is unreadable. -/
def ReadFaults {α : Type} (r : Read α) : Prop := ∀ ⦃ip k ip'⦄, r ip = .error k ip' → k.Unreadable

section
variable {α β : Type} {r : Read α} {f : α → Read β}

/-- A read that reads nothing does not fault. -/
theorem ReadFaults.pure (a : α) : ReadFaults (Pure.pure a : Read α) := by
  intro ip k ip' h
  cases h

/-- A read that throws the fault of something unreadable faults in no other way. -/
theorem ReadFaults.throw {k : FaultKind} (hk : k.Unreadable) : ReadFaults (throw k : Read α) := by
  intro ip k' ip' h
  cases h
  exact hk

/-- Reads in sequence fault only as each of them may. -/
theorem ReadFaults.bind (hr : ReadFaults r) (hf : ∀ a, ReadFaults (f a)) : ReadFaults (r >>= f) := by
  intro ip k ip' h
  simp only [Bind.bind, EStateM.bind] at h
  split at h
  · exact hf _ h
  · rename_i hr'
    cases h
    exact hr hr'

end

section
variable {code : Code}

/-- A byte may be missing. -/
theorem readFaults_readByte : ReadFaults (readByte code) := by
  intro ip k ip' h
  unfold readByte at h
  split at h <;> cases h
  trivial

/-- Bytes may be missing. -/
theorem readFaults_readBytes (count : Nat) : ReadFaults (readBytes code count) := by
  intro ip k ip' h
  unfold readBytes at h
  split at h <;> cases h
  trivial

/-- A wide operand may be misaligned, or its bytes missing. -/
theorem readFaults_readAligned (width : Nat) : ReadFaults (readAligned code width) := by
  intro ip k ip' h
  unfold readAligned at h
  split at h
  · exact readFaults_readBytes width h
  · cases h
    trivial

/-- A half faults as its bytes do. -/
theorem readFaults_readHalf : ReadFaults (readHalf code) :=
  (readFaults_readAligned 2).bind fun _ => .pure _

/-- A word faults as its bytes do. -/
theorem readFaults_readWord : ReadFaults (readWord code) :=
  (readFaults_readAligned 4).bind fun _ => .pure _

/-- There may be no operation with the byte that is read. -/
theorem readFaults_readOpcode : ReadFaults (readOpcode code) := by
  refine readFaults_readByte.bind fun b => ?_
  cases Opcode.ofByte? b with
  | some op => exact .pure op
  | none => exact .throw trivial

/-- The byte that is read may be no number of lanes. -/
theorem readFaults_readLaneCount : ReadFaults (readLaneCount code) := by
  refine readFaults_readByte.bind fun b => ?_
  cases LaneCount.ofByte? b with
  | some lanes => exact .pure lanes
  | none => exact .throw trivial

/-- A list faults as its count byte and its bytes do. -/
theorem readFaults_readByteList : ReadFaults (readByteList code) :=
  readFaults_readByte.bind fun _ => readFaults_readBytes _

/-- An operation may have no lane-wide form. -/
theorem readFaults_readLaneOp : ReadFaults (readLaneOp code) := by
  refine readFaults_readOpcode.bind fun op => ?_
  split
  · exact .pure _
  · exact .pure _
  · exact .pure _
  · exact .pure _
  · exact readFaults_readByte.bind fun _ => .pure _
  · exact readFaults_readHalf.bind fun _ => .pure _
  · exact readFaults_readHalf.bind fun _ => .pure _
  · exact .throw trivial

/-- The operands of each operation fault as the reads that they are made of. -/
theorem readFaults_readOperands (op : Opcode) : ReadFaults (readOperands code op) := by
  cases op with
  | plain => exact .pure _
  | branch | conditionalBranch => exact readFaults_readHalf.bind fun _ => .pure _
  | dupDown | loadGlobal | pop | ret => exact readFaults_readByte.bind fun _ => .pure _
  | pushImmediate => exact readFaults_readWord.bind fun _ => .pure _
  | loadSwizzle | storeSwizzle => exact readFaults_readByteList.bind fun _ => .pure _
  | swizzle => exact readFaults_readByte.bind fun _ => readFaults_readByteList.bind fun _ => .pure _
  | vector => exact readFaults_readLaneCount.bind fun _ => readFaults_readLaneOp.bind fun _ => .pure _

/-- An instruction that cannot be read is unreadable. -/
theorem unreadable_of_readInstruction {ip ip' : Nat} {k : FaultKind}
    (h : code.readInstruction ip = .error k ip') : k.Unreadable :=
  (readFaults_readOpcode.bind readFaults_readOperands) h

end

end Code

end ShaderMachine
