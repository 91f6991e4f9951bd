import ShaderMachine.Instruction.Listing
import ShaderMachine.Proofs.Assembler.Decoding
import ShaderMachine.Proofs.Assembler.Drafting

/-!
# Which source texts assemble to a body that decodes

`listing_of_assemble` says when an assembled body can be listed: exactly if no statement puts an
operation inside `vector` that has no lane-wide form (`Statement.unwidened?`). If there is such a
statement, the assembler still writes the operation, and decoding refuses it at the first of them.

The walk over the body follows the calls that made it (`fault_of_calls`): padding and instructions
are passed, and what ends it early is what a call of such a statement adds.
-/

namespace ShaderMachine

open Assembler (Call Emission layoutBytes)

/-- The operation that the statement puts inside `vector` though it has no lane-wide form. -/
def Statement.unwidened? : Statement → Option PlainOp
  | vector _ op => if op.laneOp?.isNone then some op else none
  | _ => none

/-- An accepted call adds an instruction if it is not about a label and widens only what has a
lane-wide form. -/
theorem Assembler.Call.exists_instruction {c : Call} (haccepted : c.Accepted)
    (hlabels : ¬ c.Labels) (hwidens : c.Widens) (target : Label → UInt16) :
    ∃ i, c.emission? target = some (.instruction i) ∧ i.Fits := by
  rcases emission?_cases target haccepted with ⟨h, -⟩ | ⟨-, hinstruction⟩ | ⟨h, -⟩
  · exact absurd h hlabels
  · exact hinstruction
  · exact absurd hwidens h

/-- A statement adds an instruction, or the operation that it puts inside `vector` where it has no
lane-wide form. -/
theorem Statement.Makes.emission?_cases {statement : Statement} {c : Call}
    (h : statement.Makes c) (haccepted : c.Accepted) (target : Label → UInt16) :
    (statement.unwidened? = none ∧ ∃ i, c.emission? target = some (.instruction i) ∧ i.Fits) ∨
      ∃ lanes op, statement.unwidened? = some op ∧
        c.emission? target = some (.unwidened lanes op) ∧ op.laneOp? = none := by
  obtain ⟨label, rfl⟩ := h
  cases statement with
  | vector lanes op =>
    obtain ⟨lanes', hlanes⟩ := Option.isSome_iff_exists.1 haccepted.1
    simp only [call, Call.emission?, hlanes, Option.map_some]
    cases hwidened : op.laneOp? with
    | some widened => exact .inl ⟨by simp only [unwidened?, hwidened]; rfl, _, rfl, trivial⟩
    | none => exact .inr ⟨lanes', op, by simp only [unwidened?, hwidened]; rfl, rfl, hwidened⟩
  | _ => exact .inl ⟨rfl, Call.exists_instruction haccepted id trivial target⟩

namespace Code

variable {code : Code} {ip ip' count : Nat}

/-- A walk passes padding. -/
theorem fault_of_nops (h : code.Spans ip (List.replicate count PlainOp.nop.byte) ip') :
    (code.instructionsFrom ip).2 = (code.instructionsFrom ip').2 := by
  induction count generalizing ip with
  | zero =>
    obtain ⟨rfl, -⟩ := spans_nil_iff.1 h
    rfl
  | succ count ih =>
    obtain ⟨hnop, hspan⟩ := spans_cons_iff.1 h
    have hread : code.readInstruction ip = .ok (.plain .nop) (ip + 1) :=
      readInstruction_eq_ok_iff.2 ⟨trivial, trivial, hnop⟩
    rw [instructionsFrom_of_ok hread]
    exact ih hspan

end Code

section
variable {code : Code} {target : Label → UInt16} {read : List Statement} {calls : List Call}

/-- A walk over the bytes of calls ends early at the first operation without a lane-wide form that
their statements put inside `vector`, and at nothing else. -/
theorem fault_of_calls (hmakes : List.Forall₂ Statement.Makes read calls)
    (haccepted : ∀ c ∈ calls, c.Accepted) {position : Nat}
    (hspan : code.Spans position (layoutBytes target position calls) code.size) :
    (code.instructionsFrom position).2.map Fault.kind =
      (read.findSome? Statement.unwidened?).map fun op => .unsupportedLaneOp (.plain op) := by
  induction hmakes generalizing position with
  | nil =>
    obtain ⟨rfl, -⟩ := Code.spans_nil_iff.1 hspan
    rw [code.instructionsFrom_size]
    rfl
  | @cons statement c read calls hstatement _ ih =>
    rw [layoutBytes] at hspan
    obtain ⟨hcall, hrest⟩ := Code.spans_append_iff.1 hspan
    have ih := ih (fun c hc => haccepted c (.tail _ hc)) hrest
    rw [List.findSome?_cons]
    rcases hstatement.emission?_cases (haccepted c (.head _)) target with
      ⟨hnone, i, hi, hfits⟩ | ⟨lanes, op, hsome, hop, hwidened⟩
    · simp only [Call.bytes, hi] at hcall ih
      obtain ⟨hnops, hinstruction⟩ := Code.spans_append_iff.1 hcall
      rw [List.length_replicate] at hnops hinstruction
      have hread := Code.readInstruction_eq_ok_iff.2
        ⟨hfits, i.aligned_padding position, hinstruction⟩
      rw [Code.fault_of_nops hnops]
      simp only [Emission.padding, Code.instructionsFrom_of_ok hread, hnone]
      exact ih
    · simp only [Call.bytes, hop] at hcall
      obtain ⟨ip, hread⟩ := Code.readInstruction_unwidened hwidened hcall
      have hlt : position < code.size :=
        Nat.lt_of_lt_of_le (Nat.lt_add_of_pos_right (Nat.succ_pos 2)) hcall.le_size
      simp only [hsome, Code.instructionsFrom_of_error hlt hread]
      rfl

end

/-- **Which assembled bodies decode.** Those of source texts without an operation inside `vector`
that has no lane-wide form. Decoding any other body is refused for the first such operation. -/
theorem listing_of_assemble {source : String} {code : Code} (h : assemble source = .ok code) :
    ((∃ text, code.listing = .ok text) ↔
        ∀ statement ∈ statements source, statement.unwidened? = none) ∧
      ∀ op, (statements source).findSome? Statement.unwidened? = some op →
        ∃ ip, code.listing = .error ⟨ip, .unsupportedLaneOp (.plain op)⟩ := by
  obtain ⟨calls, target, hmakes, haccepted, hbytes⟩ := exists_calls_of_assemble h
  have hfault : code.instructions.2.map Fault.kind = _ :=
    fault_of_calls hmakes haccepted (hbytes ▸ code.spans_toList)
  rw [← List.findSome?_eq_none_iff]
  unfold Code.listing
  generalize code.instructions = walk at hfault
  obtain ⟨lines, fault⟩ := walk
  cases hop : (statements source).findSome? Statement.unwidened? with
  | none =>
    rw [hop] at hfault
    obtain rfl : fault = none := Option.map_eq_none_iff.1 hfault
    exact ⟨iff_of_true ⟨_, rfl⟩ rfl, nofun⟩
  | some op =>
    rw [hop] at hfault
    obtain ⟨⟨ip, kind⟩, rfl, rfl⟩ := Option.map_eq_some_iff.1 hfault
    refine ⟨iff_of_false nofun nofun, fun op' hop' => ?_⟩
    cases hop'
    exact ⟨ip, rfl⟩

/-- A source text with a `dup` on three lanes, which is no instruction. -/
def widenedDupSource : String := "again: vector 2 addi\nvector 3 dup\nvector 1 branch again\n"

def widenedDupCode : Code := #[55, 2, 1, 55, 3, 26, 37, 55, 1, 4, 0, 0]

/-- The text assembles, and the listing of its body stops at the lane-wide `dup`. -/
theorem listing_of_widenedDupSource :
    assemble widenedDupSource = .ok widenedDupCode ∧
      (statements widenedDupSource).findSome? Statement.unwidened? = some .dup ∧
      ∃ ip, widenedDupCode.listing = .error ⟨ip, .unsupportedLaneOp (.plain .dup)⟩ := by
  have hassemble : assemble widenedDupSource = .ok widenedDupCode := by decide +kernel
  have hop : (statements widenedDupSource).findSome? Statement.unwidened? = some .dup := by
    decide +kernel
  exact ⟨hassemble, hop, (listing_of_assemble hassemble).2 .dup hop⟩

/-- What assembles need not decode. -/
theorem not_forall_listing_of_assemble :
    ¬ ∀ source code, assemble source = .ok code → ∃ text, code.listing = .ok text := by
  intro h
  obtain ⟨text, htext⟩ := h "vector 2 dup\n" #[55, 2, 26] (by decide +kernel)
  have hlisting : Code.listing #[55, 2, 26] =
      .error ⟨some 0, .unsupportedLaneOp (.plain .dup)⟩ := by decide +kernel
  rw [hlisting] at htext
  cases htext

end ShaderMachine
