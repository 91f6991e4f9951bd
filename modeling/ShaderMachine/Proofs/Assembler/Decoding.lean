import ShaderMachine.Proofs.Assembler.Layout
import ShaderMachine.Proofs.Instruction.Tiling

/-!
# A finished body decodes to the calls that built it

`instructions_of_finish` says what a walk over a finished body finds: the instructions of the calls
in their order, each behind the least padding that aligns its wide operand (`Placed.Least`), and
branch targets that are the positions at which the labels were bound. The calls must not widen an
operation that has no lane-wide form; the builder accepts such calls, and reading refuses what they
add (`Code.readInstruction_unwidened`).

The proof follows the calls: `tiles_placed` turns the bytes of the remaining calls into lines of the
walk, for a body that ends where they end.
-/

namespace ShaderMachine

/-- The padding of an operand aligns it, and no shorter padding does. -/
theorem Instruction.WideOperand.padding_least (operand : WideOperand) (h : 0 < operand.width)
    (position : Nat) :
    (position + operand.padding position + operand.header) % operand.width = 0 ∧
      ∀ k < operand.padding position, (position + k + operand.header) % operand.width ≠ 0 := by
  have hlt := Nat.mod_lt (position + operand.header) h
  have hsplit := Nat.div_add_mod (position + operand.header) operand.width
  generalize hr : (position + operand.header) % operand.width = r at hlt hsplit
  generalize (position + operand.header) / operand.width = q at hsplit
  have hmod : ∀ k, (position + k + operand.header) % operand.width = (r + k) % operand.width := by
    intro k
    rw [Nat.add_right_comm, ← hsplit, Nat.add_assoc, Nat.mul_add_mod]
  unfold padding
  rw [hr, hmod]
  rcases Nat.eq_zero_or_pos r with rfl | hpos
  · rw [Nat.sub_zero, Nat.mod_self]
    exact ⟨Nat.zero_mod _, fun k hk => absurd hk (Nat.not_lt_zero k)⟩
  · have hpadding : (operand.width - r) % operand.width = operand.width - r :=
      Nat.mod_eq_of_lt (by omega)
    rw [hpadding]
    refine ⟨by rw [Nat.add_sub_cancel' (Nat.le_of_lt hlt), Nat.mod_self], fun k hk => ?_⟩
    rw [hmod, Nat.mod_eq_of_lt (show r + k < operand.width by omega)]
    omega

/-- An instruction is aligned behind its padding. -/
theorem Instruction.aligned_padding (i : Instruction) (position : Nat) :
    i.Aligned (position + i.padding position) := by
  cases i with
  | branch | conditionalBranch =>
    exact (WideOperand.padding_least ⟨1, 2⟩ (by decide) position).1
  | pushImmediate => exact (WideOperand.padding_least ⟨1, 4⟩ (by decide) position).1
  | vector lanes op =>
    cases op with
    | branch | conditionalBranch =>
      exact (WideOperand.padding_least ⟨3, 2⟩ (by decide) position).1
    | _ => trivial
  | _ => trivial

namespace Assembler

/-! ## Instructions with their padding -/

/-- An instruction of a body and the `nop`s in front of it, which begin at `start`. -/
structure Placed where
  start : Nat
  padding : Nat
  instruction : Instruction

namespace Placed

/-- The lines that a walk finds: the padding and the instruction. -/
def lines (p : Placed) : List (Nat × Instruction) :=
  (List.range' p.start p.padding).map (fun ip => (ip, .plain .nop)) ++
    [(p.start + p.padding, p.instruction)]

/-- The padding is the shortest that aligns the wide operand, and there is none without one. -/
def Least (p : Placed) : Prop :=
  match p.instruction.wideOperand? with
  | some operand =>
    (p.start + p.padding + operand.header) % operand.width = 0 ∧
      ∀ k < p.padding, (p.start + k + operand.header) % operand.width ≠ 0
  | none => p.padding = 0

end Placed

/-- The instructions that calls add from a position on. -/
def placed (target : Label → UInt16) : Nat → List Call → List Placed
  | _, [] => []
  | position, c :: calls =>
    match c.instruction? target with
    | some i =>
      ⟨position, i.padding position, i⟩ ::
        placed target (position + (c.bytes target position).length) calls
    | none => placed target (position + (c.bytes target position).length) calls

/-- The body decodes to the calls, when labels stand for `target`: the walk over it ends without
fault at its end and finds the placed instructions with their padding (`instructions`, `tiles`);
they are those of the calls in order (`order`), and only creating and binding labels adds none
(`silent`); the padding is the least possible (`least`); and a label that is branched to stands for
the position at which it is bound, which there is exactly one of (`targets`). -/
structure Decoded (calls : List Call) (code : Code) (target : Label → UInt16)
    (ps : List Placed) : Prop where
  instructions : code.instructions = (ps.flatMap Placed.lines, none)
  tiles : code.Tiles 0 (ps.flatMap Placed.lines)
  order : ps.map Placed.instruction = calls.filterMap (Call.instruction? target)
  silent : ∀ c ∈ calls, c.instruction? target = none ↔ c.Labels
  least : ∀ p ∈ ps, p.Least
  targets : ∀ c ∈ calls, ∀ label, c.label? = some label →
    (∃ pre post, calls = pre ++ .bind label :: post) ∧
      ∀ pre post, calls = pre ++ .bind label :: post → (target label).toNat = (build pre).position

/-- Placing the instructions of calls loses and reorders none. -/
theorem map_instruction_placed (target : Label → UInt16) (position : Nat) (calls : List Call) :
    (placed target position calls).map Placed.instruction =
      calls.filterMap (Call.instruction? target) := by
  induction calls generalizing position with
  | nil => rfl
  | cons c calls ih =>
    rw [placed, List.filterMap_cons]
    cases c.instruction? target with
    | none => exact ih _
    | some i => exact congrArg (i :: ·) (ih _)

/-- The padding that the builder computes is the least. -/
theorem least_padding (i : Instruction) (position : Nat) :
    Placed.Least ⟨position, i.padding position, i⟩ := by
  cases i with
  | branch | conditionalBranch =>
    exact Instruction.WideOperand.padding_least ⟨1, 2⟩ (by decide) position
  | pushImmediate => exact Instruction.WideOperand.padding_least ⟨1, 4⟩ (by decide) position
  | vector lanes op =>
    cases op with
    | branch | conditionalBranch =>
      exact Instruction.WideOperand.padding_least ⟨3, 2⟩ (by decide) position
    | _ => rfl
  | _ => rfl

/-- Wherever an instruction is placed, the padding in front of it is the least. -/
theorem least_of_mem_placed {target : Label → UInt16} {position : Nat} {calls : List Call}
    {p : Placed} (h : p ∈ placed target position calls) : p.Least := by
  induction calls generalizing position with
  | nil => cases h
  | cons c calls ih =>
    rw [placed] at h
    cases hi : c.instruction? target with
    | none =>
      rw [hi] at h
      exact ih h
    | some i =>
      rw [hi] at h
      rcases List.mem_cons.1 h with rfl | h
      · exact least_padding i position
      · exact ih h

/-- More calls place their instructions behind those of the calls before them. -/
theorem placed_append (target : Label → UInt16) (position : Nat) (calls rest : List Call) :
    placed target position (calls ++ rest) = placed target position calls ++
      placed target (position + (layoutBytes target position calls).length) rest := by
  induction calls generalizing position with
  | nil => rfl
  | cons c calls ih =>
    rw [List.cons_append, placed, placed, ih, layoutBytes, List.length_append, Nat.add_assoc]
    cases c.instruction? target with
    | none => rfl
    | some i => rfl

/-! ## Walking over the calls -/

/-- Padding is walked over `nop` by `nop`. -/
theorem tiles_nops {code : Code} {ip ip' count : Nat} {lines : List (Nat × Instruction)}
    (hspan : code.Spans ip (List.replicate count PlainOp.nop.byte) ip')
    (h : code.Tiles ip' lines) :
    code.Tiles ip ((List.range' ip count).map (fun ip => (ip, .plain .nop)) ++ lines) := by
  induction count generalizing ip with
  | zero =>
    obtain ⟨rfl, -⟩ := Code.spans_nil_iff.1 hspan
    exact h
  | succ count ih =>
    obtain ⟨hnop, hspan⟩ := Code.spans_cons_iff.1 hspan
    have hread : code.readInstruction ip = .ok (.plain .nop) (ip + 1) :=
      Code.readInstruction_eq_ok_iff.2 ⟨trivial, trivial, hnop⟩
    exact .next hread (ih hspan)

/-- The bytes of accepted calls, at the end of a body, are walked over as the placed instructions. -/
theorem tiles_placed {target : Label → UInt16} {code : Code} {position : Nat} {calls : List Call}
    (haccepted : ∀ c ∈ calls, c.Accepted) (hwidens : ∀ c ∈ calls, c.Widens)
    (hspan : code.Spans position (layoutBytes target position calls) code.size) :
    code.Tiles position ((placed target position calls).flatMap Placed.lines) := by
  induction calls generalizing position with
  | nil =>
    obtain ⟨rfl, -⟩ := Code.spans_nil_iff.1 hspan
    exact .done
  | cons c calls ih =>
    rw [layoutBytes] at hspan
    obtain ⟨hcall, hspan⟩ := Code.spans_append_iff.1 hspan
    have ih := ih (fun c hc => haccepted c (.tail _ hc)) (fun c hc => hwidens c (.tail _ hc)) hspan
    rw [placed, Call.instruction?]
    rcases emission?_cases target (haccepted c (.head _)) with
      ⟨-, hnone⟩ | ⟨-, i, hi, hfits⟩ | ⟨hwide, -⟩
    · simp only [hnone, Call.bytes] at ih ⊢
      exact ih
    · simp only [hi, Call.bytes] at hcall ih ⊢
      rw [List.flatMap_cons, Placed.lines, List.append_assoc]
      obtain ⟨hnops, hspan⟩ := Code.spans_append_iff.1 hcall
      rw [List.length_replicate] at hnops hspan
      refine tiles_nops hnops (.next ?_ ih)
      exact Code.readInstruction_eq_ok_iff.2 ⟨hfits, i.aligned_padding position, hspan⟩
    · exact absurd (hwidens c (.head _)) hwide

/-- A label that is branched to is bound, and it stands for the position where it is. -/
theorem LaidOut.targets {calls : List Call} {code : Code} {target : Label → UInt16}
    (h : LaidOut calls code target) {c : Call} (hc : c ∈ calls) {label : Label}
    (hlabel : c.label? = some label) :
    (∃ pre post, calls = pre ++ .bind label :: post) ∧
      ∀ pre post, calls = pre ++ .bind label :: post →
        (target label).toNat = (build pre).position := by
  have hbound := h.bound c hc label hlabel
  obtain ⟨pre, post, hcalls, -⟩ := exists_bind_of_boundAt hbound
  refine ⟨⟨pre, post, hcalls⟩, fun pre post hcalls => ?_⟩
  subst hcalls
  exact Option.some.inj (Option.some.inj (hbound.symm.trans (boundAt_of_bind h.error)))

/-- A body that is laid out from calls that widen only what has a lane-wide form decodes to them. -/
theorem LaidOut.decoded {calls : List Call} {code : Code} {target : Label → UInt16}
    (h : LaidOut calls code target) (hwidens : ∀ c ∈ calls, c.Widens) :
    Decoded calls code target (placed target 0 calls) := by
  have haccepted := fun c hc => accepted_of_build h.error (c := c) hc
  have htiles : code.Tiles 0 ((placed target 0 calls).flatMap Placed.lines) :=
    tiles_placed haccepted hwidens (h.bytes ▸ code.spans_toList)
  refine ⟨(Code.instructionsFrom_eq_iff (Nat.zero_le _)).2 htiles, htiles,
    map_instruction_placed target 0 calls, fun c hc => ?_, fun p hp => least_of_mem_placed hp,
    fun c hc label hlabel => h.targets hc hlabel⟩
  unfold Call.instruction?
  rcases emission?_cases target (haccepted c hc) with ⟨hl, hnone⟩ | ⟨hl, i, hi, -⟩ | ⟨hwide, -⟩
  · simp [hnone, hl]
  · simp [hi, hl]
  · exact absurd (hwidens c hc) hwide

/-- **Decoding undoes building.** A finished body decodes without fault to the instructions of the
calls, in order, each behind the least padding, and with targets where the labels were bound. -/
theorem instructions_of_finish {calls : List Call} {code : Code}
    (hwidens : ∀ c ∈ calls, c.Widens) (h : (build calls).finish = .ok code) :
    ∃ target ps, Decoded calls code target ps :=
  ⟨_, _, (laidOut_of_finish h).decoded hwidens⟩

/-- A loop that ends with a lane-wide branch back, and a branch forward behind it. An immediate and
a target need padding. -/
def loopCalls : List Call :=
  [.newLabel, .newLabel, .op (.plain .dup), .pushImmediate ⟨7⟩, .bind ⟨0⟩,
    .vector 2 (.plain (.binary .addInt)), .vectorBranch 2 .conditionalBranch ⟨0⟩, .branch ⟨1⟩,
    .bind ⟨1⟩, .ret 1]

def loopCode : Code :=
  #[26, 37, 37, 43, 7, 0, 0, 0, 55, 2, 1, 55, 2, 21, 8, 0, 37, 4, 20, 0, 46, 1]

/-- The operations of `loopCalls` on lanes have a lane-wide form. -/
theorem loopCalls_widen : ∀ c ∈ loopCalls, c.Widens := by
  simp [loopCalls, Call.Widens, Opcode.isBinary]

/-- Finishing the builder after `loopCalls` gives the body that is written out. -/
theorem finish_loopCalls : (build loopCalls).finish = .ok loopCode := by rfl

/-- The body of `loopCalls` decodes to them. -/
theorem instructions_loopCode :
    (∀ c ∈ loopCalls, c.Widens) ∧ (build loopCalls).finish = .ok loopCode ∧
      ∃ target ps, Decoded loopCalls loopCode target ps :=
  ⟨loopCalls_widen, finish_loopCalls, instructions_of_finish loopCalls_widen finish_loopCalls⟩

end Assembler

end ShaderMachine
