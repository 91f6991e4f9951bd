import Mathlib
import ShaderMachine.Instruction.Decode

/-!
# Reading from a longer body

A read looks at no byte behind those it takes. With bytes appended to a body, a read therefore ends
as before, unless it ran past the end of the body (`Code.Extends`). This holds of every success and
of every other fault as well: a wide operand is refused for its alignment before its bytes are
looked for. `Code.readInstruction_extends` says it of instructions, by the reads they are made of.
-/

namespace ShaderMachine

namespace Code

/-- The second read ends as the first one does wherever the first does not run out of bytes. -/
def Extends {α : Type} (r r' : Read α) : Prop :=
  ∀ ip, (∃ ip', r ip = .error .codeOverrun ip') ∨ r' ip = r ip

section
variable {α β : Type} {r r' : Read α} {f f' : α → Read β}

/-- A read that does not look at the body ends as before. -/
theorem Extends.refl (r : Read α) : Extends r r := fun _ => .inr rfl

/-- Reads in sequence end as before if each of them does. If the first one runs out of bytes, so
does the sequence. -/
theorem Extends.bind (hr : Extends r r') (hf : ∀ a, Extends (f a) (f' a)) :
    Extends (r >>= f) (r' >>= f') := by
  intro ip
  simp only [Bind.bind, EStateM.bind]
  rcases hr ip with ⟨ip', hover⟩ | heq
  · exact .inl ⟨ip', by rw [hover]⟩
  · rw [heq]
    cases r ip with
    | ok a middle => exact hf a middle
    | error k middle => exact .inr rfl

end

section
variable (code bytes : Code)

/-- A byte within the body stands where it did with more bytes behind it. -/
theorem readByte_extends : Extends (readByte code) (readByte (code ++ bytes)) := by
  intro ip
  unfold readByte
  by_cases hip : ip < code.size
  · exact .inr (by rw [Array.getElem?_append_left hip])
  · rw [Array.getElem?_eq_none (Nat.le_of_not_lt hip)]
    exact .inl ⟨ip, rfl⟩

/-- Bytes within the body stand where they did with more bytes behind them. -/
theorem readBytes_extends (count : Nat) :
    Extends (readBytes code count) (readBytes (code ++ bytes) count) := by
  intro ip
  unfold readBytes
  by_cases hend : ip + count ≤ code.size
  · have hend' : ip + count ≤ (code ++ bytes).size := by
      rw [Array.size_append]
      omega
    rw [if_pos hend, if_pos hend', Array.extract_append_of_stop_le_size_left hend]
    exact .inr rfl
  · rw [if_neg hend]
    exact .inl ⟨ip, rfl⟩

/-- A misaligned operand is refused whether or not its bytes are there. -/
theorem readAligned_extends (width : Nat) :
    Extends (readAligned code width) (readAligned (code ++ bytes) width) := by
  intro ip
  unfold readAligned
  split
  · exact readBytes_extends code bytes width ip
  · exact .inr rfl

/-- A half is made of the bytes read, so it ends as reading them does. -/
theorem readHalf_extends : Extends (readHalf code) (readHalf (code ++ bytes)) :=
  (readAligned_extends code bytes 2).bind fun _ => .refl _

/-- A word is made of the bytes read, so it ends as reading them does. -/
theorem readWord_extends : Extends (readWord code) (readWord (code ++ bytes)) :=
  (readAligned_extends code bytes 4).bind fun _ => .refl _

/-- An operation is looked up by its byte, and refused by it, whatever the body is. -/
theorem readOpcode_extends : Extends (readOpcode code) (readOpcode (code ++ bytes)) :=
  (readByte_extends code bytes).bind fun _ => .refl _

/-- A number of lanes is checked by its byte, whatever the body is. -/
theorem readLaneCount_extends : Extends (readLaneCount code) (readLaneCount (code ++ bytes)) :=
  (readByte_extends code bytes).bind fun _ => .refl _

/-- A list ends as reading its count byte and its bytes does. -/
theorem readByteList_extends : Extends (readByteList code) (readByteList (code ++ bytes)) :=
  (readByte_extends code bytes).bind fun _ => readBytes_extends code bytes _

/-- A lane-wide operation ends as reading its byte and its operand does. -/
theorem readLaneOp_extends : Extends (readLaneOp code) (readLaneOp (code ++ bytes)) := by
  refine (readOpcode_extends code bytes).bind fun op => ?_
  cases op with
  | plain op => cases op <;> exact .refl _
  | loadGlobal => exact (readByte_extends code bytes).bind fun _ => .refl _
  | branch | conditionalBranch => exact (readHalf_extends code bytes).bind fun _ => .refl _
  | _ => exact .refl _

/-- The operands of each operation end as the reads that they are made of. -/
theorem readOperands_extends (op : Opcode) :
    Extends (readOperands code op) (readOperands (code ++ bytes) op) := by
  have byte := readByte_extends code bytes
  have half := readHalf_extends code bytes
  have list := readByteList_extends code bytes
  cases op with
  | plain => exact .refl _
  | branch | conditionalBranch => exact half.bind fun _ => .refl _
  | dupDown | loadGlobal | pop | ret => exact byte.bind fun _ => .refl _
  | pushImmediate => exact (readWord_extends code bytes).bind fun _ => .refl _
  | loadSwizzle | storeSwizzle => exact list.bind fun _ => .refl _
  | swizzle => exact byte.bind fun _ => list.bind fun _ => .refl _
  | vector =>
    exact (readLaneCount_extends code bytes).bind fun _ =>
      (readLaneOp_extends code bytes).bind fun _ => .refl _

/-- **Reading is local.** An instruction is read alike from a body and from one with more bytes
behind it, and so is every fault of reading one but running out of bytes. -/
theorem readInstruction_extends :
    Extends (readInstruction code) (readInstruction (code ++ bytes)) :=
  (readOpcode_extends code bytes).bind (readOperands_extends code bytes)

end

end Code

end ShaderMachine
