import ShaderMachine.Proofs.Assembler.Decoding
import ShaderMachine.Proofs.Machine.Invocation

/-!
# An assembled body is executed as it was written

`turns_of_finish` says that a run of a finished body begins each turn at the start of one of its
lines or at its end, so it never reads an operand as an operation. Hence a run does not end in the
faults of a misread body (`Fault.WellRead`): what is left of them is a swizzle that takes too many
words, and running past the end.

What makes this so is `Code.Closed`: the lines tile the body and branches go to where a line starts.
A turn that begins at a boundary ends at one (`Code.Closed.boundary_turn`), whatever the
instruction.
-/

namespace ShaderMachine

/-- The fault is none of a misread body: an operation is never unknown, an operand never misaligned
and an operation never one that cannot be widened; a lane count is refused only at a swizzle that
takes too many words; and the body is overrun only at its end. -/
def Fault.WellRead (code : Code) (lines : List (Nat × Instruction)) (fault : Fault) : Prop :=
  match fault.kind with
  | .unknownOpcode _ | .misaligned _ | .unsupportedLaneOp _ => False
  | .invalidLaneCount sources => maxLanes < sources.toNat ∧
      ∃ ip indices, fault.ip = some ip ∧ (ip, .swizzle sources indices) ∈ lines
  | .codeOverrun => fault.ip = some code.size
  | _ => True

namespace Code

/-- The lines are the whole body, and its branches go to where a line starts or to the end. -/
structure Closed (code : Code) (lines : List (Nat × Instruction)) : Prop where
  tiles : code.Tiles 0 lines
  targets : ∀ ⦃ip i target⦄, (ip, i) ∈ lines → i.target? = some target →
    code.Boundary lines target.toNat

section
variable {code : Code} {lines : List (Nat × Instruction)} {settings : RunSettings} {s s' s₀ : State}

/-- What is read at a boundary is the line there, and what follows it is a boundary. -/
theorem Closed.read (hcode : code.Closed lines) {ip ip' : Nat} {i : Instruction}
    (hip : code.Boundary lines ip) (hread : code.readInstruction ip = .ok i ip') :
    (ip, i) ∈ lines ∧ code.Boundary lines ip' := by
  rcases hcode.tiles.boundary_cases hip with rfl | ⟨i', next, hline, hread', hnext⟩
  · rw [readInstruction_size] at hread
    cases hread
  · rw [hread'] at hread
    cases hread
    exact ⟨hline, hnext⟩

/-- A turn that begins at a boundary ends at one: behind the line it executes, or at its target. -/
theorem Closed.boundary_turn (hcode : code.Closed lines) (hip : code.Boundary lines s.ip)
    (h : turn code settings s = (none, s')) : code.Boundary lines s'.ip := by
  cases turn_iff.2 h with
  | next _ hread hstep =>
    obtain ⟨hline, hnext⟩ := hcode.read hip hread
    rw [State.observed_ip]
    rcases Exec.ip_of_step hstep with ht | ⟨target, htarget, ht⟩
    · exact ht ▸ hnext
    · exact ht ▸ hcode.targets hline htarget

/-- A run begins every turn at a boundary. -/
theorem Closed.boundary (hcode : code.Closed lines) (hip : s₀.ip = 0)
    (h : Reaches code settings s₀ s) : code.Boundary lines s.ip := by
  induction h with
  | start => exact hip ▸ hcode.tiles.boundary_start
  | after _ hturn ih => exact hcode.boundary_turn ih hturn

/-- A fault while a line is executed is well read. -/
theorem wellRead_of_mayFault {ip : Nat} {i : Instruction} (hline : (ip, i) ∈ lines)
    {k : FaultKind} (hk : i.MayFault k) : Fault.WellRead code lines ⟨some ip, k⟩ := by
  rcases hk with hk | ⟨sources, indices, rfl, hlt, rfl⟩
  · cases k with
    | unsupported | stackUnderflow | outOfBounds | divisionByZero => trivial
    | _ => cases hk
  · exact ⟨hlt, ip, indices, rfl, hline⟩

/-- A turn at a boundary ends in no fault of a misread body: what is read there is a line, unless it
is the end. -/
theorem Closed.wellRead_turn (hcode : code.Closed lines) (hip : code.Boundary lines s.ip)
    {fault : Fault} (h : turn code settings s = (some (.error fault), s')) :
    fault.WellRead code lines := by
  cases turn_iff.2 h with
  | spent => trivial
  | unread _ hread =>
    rcases hcode.tiles.boundary_cases hip with hsize | ⟨i, next, -, hread', -⟩
    · rw [hsize, readInstruction_size] at hread
      cases hread
      exact congrArg some hsize
    · rw [hread'] at hread
      cases hread
  | fault _ hread hstep =>
    exact wellRead_of_mayFault (hcode.read hip hread).1 (Exec.mayFault_of_step hstep)

/-- An invocation of a function with the body ends well read if it faults. -/
theorem Closed.wellRead_run (hcode : code.Closed lines) {vm : Interpreter} {f : Function}
    {inv : Invocation} {verbose : Bool} {turns : Nat} {o : Outcome} {fault : Fault}
    (hf : f.code = code) (h : vm.run f inv verbose turns = some o)
    (hfault : o.result = .error fault) : fault.WellRead code lines := by
  subst hf
  rcases Interpreter.result_run h hfault with ⟨-, hkind⟩ | ⟨s₀, s, hip, hexecute⟩
  · obtain ⟨ip, k⟩ := fault
    cases k with
    | outOfBounds | argumentCount | inputCount => trivial
    | _ => cases hkind
  · obtain ⟨s, hreaches, hturn⟩ := exists_reaches_of_execute hexecute
    exact hcode.wellRead_turn (hcode.boundary hip hreaches) hturn

end

end Code

namespace Assembler

/-- The offsets that a label of the call stands for, in two bodies. -/
def Call.Targets (target target' : Label → UInt16) (c : Call) (t t' : UInt16) : Prop :=
  ∃ label, c.label? = some label ∧ t = target label ∧ t' = target' label

/-- The lane-wide form of an operation without inline operands does not branch. -/
theorem target?_of_laneOp? {op : PlainOp} {widened : LaneOp} (h : op.laneOp? = some widened)
    (lanes : LaneCount) : (Instruction.vector lanes widened).target? = none := by
  cases op <;> cases h <;> rfl

/-- What a call adds does not depend on where labels are, but for the offset it branches to. -/
theorem instruction_matches (target target' : Label → UInt16) {c : Call} {i : Instruction}
    (h : c.emission? target = some (.instruction i)) :
    ∃ i', c.emission? target' = some (.instruction i') ∧
      i.Matches (c.Targets target target') i' := by
  cases c with
  | newLabel | bind => cases h
  | op op =>
    cases op with
    | plain =>
      cases h
      exact ⟨_, rfl, .same rfl⟩
    | _ => cases h
  | branch label =>
    cases h
    exact ⟨_, rfl, .branch ⟨label, rfl, rfl, rfl⟩⟩
  | conditionalBranch label =>
    cases h
    exact ⟨_, rfl, .conditionalBranch ⟨label, rfl, rfl, rfl⟩⟩
  | vector lanes op =>
    cases op with
    | plain op =>
      refine ⟨i, h, .same ?_⟩
      simp only [Call.emission?, Option.map_eq_some_iff] at h
      obtain ⟨lanes, -, h⟩ := h
      cases hwidened : op.laneOp? with
      | some widened =>
        simp only [hwidened, Emission.instruction.injEq] at h
        exact h ▸ target?_of_laneOp? hwidened lanes
      | none => simp [hwidened] at h
    | _ => cases h
  | vectorLoadGlobal lanes index =>
    refine ⟨i, h, .same ?_⟩
    simp only [Call.emission?, Option.map_eq_some_iff] at h
    obtain ⟨lanes, -, h⟩ := h
    cases h
    rfl
  | vectorBranch lanes op label =>
    cases op with
    | branch =>
      simp only [Call.emission?, Option.map_eq_some_iff] at h ⊢
      obtain ⟨lanes, hlanes, h⟩ := h
      cases h
      exact ⟨_, ⟨lanes, hlanes, rfl⟩, .vectorBranch ⟨label, rfl, rfl, rfl⟩⟩
    | conditionalBranch =>
      simp only [Call.emission?, Option.map_eq_some_iff] at h ⊢
      obtain ⟨lanes, hlanes, h⟩ := h
      cases h
      exact ⟨_, ⟨lanes, hlanes, rfl⟩, .vectorConditionalBranch ⟨label, rfl, rfl, rfl⟩⟩
    | _ => cases h
  | _ =>
    cases h
    exact ⟨_, rfl, .same rfl⟩

/-- A call adds an instruction that branches only if it names a label, to where that stands. -/
theorem exists_label_of_target? {target : Label → UInt16} {c : Call} {i : Instruction}
    {t : UInt16} (hc : c.emission? target = some (.instruction i)) (ht : i.target? = some t) :
    ∃ label, c.label? = some label ∧ t = target label := by
  obtain ⟨i', -, hi⟩ := instruction_matches target target hc
  cases hi with
  | same hnone => rw [hnone] at ht; cases ht
  | branch htargets | conditionalBranch htargets | vectorBranch htargets
  | vectorConditionalBranch htargets =>
    cases ht
    obtain ⟨label, hlabel, ht, -⟩ := htargets
    exact ⟨label, hlabel, ht⟩

section
variable {calls : List Call} {code : Code} {target : Label → UInt16}

/-- The bytes of the calls behind `pre` begin where `pre` ends. -/
theorem LaidOut.spans {pre post : List Call} (h : LaidOut (pre ++ post) code target) :
    code.Spans (build pre).position (layoutBytes target (build pre).position post) code.size := by
  have hspan := h.bytes ▸ code.spans_toList
  rw [layoutBytes_append, Nat.zero_add, ← position_build (error_build_of_append h.error)] at hspan
  obtain ⟨-, hpost⟩ := Code.spans_append_iff.1 hspan
  rw [Nat.zero_add, ← position_build (error_build_of_append h.error)] at hpost
  exact hpost

/-- Where a label is bound there is a boundary. -/
theorem LaidOut.boundary {pre post : List Call} (h : LaidOut (pre ++ post) code target)
    (hwidens : ∀ c ∈ pre ++ post, c.Widens) :
    code.Boundary ((placed target 0 (pre ++ post)).flatMap Placed.lines)
      (build pre).position := by
  have htiles : code.Tiles (build pre).position
      ((placed target (build pre).position post).flatMap Placed.lines) :=
    tiles_placed (fun c hc => accepted_of_build h.error (List.mem_append_right _ hc))
      (fun c hc => hwidens c (List.mem_append_right _ hc)) h.spans
  refine htiles.boundary_start.mono fun line hline => ?_
  rw [placed_append, List.flatMap_append, Nat.zero_add,
    ← position_build (error_build_of_append h.error)]
  exact List.mem_append_right _ hline

/-- The lines of a finished body are closed under its branches. -/
theorem LaidOut.closed (h : LaidOut calls code target) (hwidens : ∀ c ∈ calls, c.Widens) :
    code.Closed ((placed target 0 calls).flatMap Placed.lines) := by
  refine ⟨(h.decoded hwidens).tiles, fun ip i t hline ht => ?_⟩
  obtain ⟨p, hp, hline⟩ := List.mem_flatMap.1 hline
  rw [Placed.lines, List.mem_append, List.mem_singleton] at hline
  rcases hline with hnop | hline
  · obtain ⟨_, -, hnop⟩ := List.mem_map.1 hnop
    cases hnop
    cases ht
  · cases hline
    have hmem : p.instruction ∈ calls.filterMap (Call.instruction? target) :=
      map_instruction_placed target 0 calls ▸ List.mem_map_of_mem hp
    obtain ⟨c, hc, hi⟩ := List.mem_filterMap.1 hmem
    have hi := Call.instruction?_eq_some_iff.1 hi
    obtain ⟨label, hlabel, rfl⟩ := exists_label_of_target? hi ht
    obtain ⟨⟨pre, post, rfl⟩, htarget⟩ := h.targets hc hlabel
    rw [htarget pre post rfl]
    exact h.boundary hwidens

/-- **Nothing is misread.** Every turn of a run of a finished body begins at the start of an
instruction of the calls or of its padding, or at the end of the body, and a fault of an invocation
is none of a misread body. -/
theorem turns_of_finish (hwidens : ∀ c ∈ calls, c.Widens)
    (h : (build calls).finish = .ok code) :
    ∃ target ps, Decoded calls code target ps ∧
      (∀ settings s₀ s, s₀.ip = 0 → Reaches code settings s₀ s →
        code.Boundary (ps.flatMap Placed.lines) s.ip) ∧
      ∀ (vm : Interpreter) f inv verbose turns o fault, f.code = code →
        vm.run f inv verbose turns = some o → o.result = .error fault →
        fault.WellRead code (ps.flatMap Placed.lines) := by
  have hlaid := laidOut_of_finish h
  have hclosed := hlaid.closed hwidens
  refine ⟨_, _, hlaid.decoded hwidens, fun settings s₀ s => hclosed.boundary, ?_⟩
  intro vm f inv verbose turns o fault
  exact hclosed.wellRead_run

/-- All runs of the body of `loopCalls` stay at its boundaries. -/
theorem turns_of_loopCode :
    (∀ c ∈ loopCalls, c.Widens) ∧ (build loopCalls).finish = .ok loopCode ∧
      ∃ target ps, Decoded loopCalls loopCode target ps ∧
        (∀ settings s₀ s, s₀.ip = 0 → Reaches loopCode settings s₀ s →
          loopCode.Boundary (ps.flatMap Placed.lines) s.ip) ∧
        ∀ (vm : Interpreter) f inv verbose turns o fault, f.code = loopCode →
          vm.run f inv verbose turns = some o → o.result = .error fault →
          fault.WellRead loopCode (ps.flatMap Placed.lines) :=
  ⟨loopCalls_widen, finish_loopCalls, turns_of_finish loopCalls_widen finish_loopCalls⟩

end

end Assembler

end ShaderMachine
