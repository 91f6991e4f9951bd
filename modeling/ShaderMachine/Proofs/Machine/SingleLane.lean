import ShaderMachine.Instruction.Encode
import ShaderMachine.Proofs.Machine.Locality

/-!
# Vectors of one lane

`Exec.step_single_lane` says that `vector` with one lane is the operation outside of `vector`: it
does the same to the same words, up to the fault it ends in if it faults, and it branches where the
operation branches. The two take their operands in different ways, one by one and as groups, so
each way of accessing the stack as a group has an equation for groups of one word.
-/

namespace ShaderMachine

/-- A single lane. -/
def LaneCount.one : LaneCount := ⟨1, by decide, by decide⟩

namespace LaneOp

/-- The operation as an instruction of its own. -/
def scalar : LaneOp → Instruction
  | binary op => .plain (.binary op)
  | unary op => .plain (.unary op)
  | load => .plain .load
  | store => .plain .store
  | loadGlobal index => .loadGlobal index
  | branch target => .branch target
  | conditionalBranch target => .conditionalBranch target

/-- On its own a lane-wide operation has the same opcode. -/
theorem opcode_scalar (op : LaneOp) : op.scalar.opcode = op.opcode := by
  cases op <;> rfl

/-- The bytes behind the number of lanes are those of the instruction. -/
theorem encode_scalar (op : LaneOp) : op.scalar.encode = op.encode := by
  cases op <;> rfl

end LaneOp

/-! ## Groups of one word -/

namespace Stack

/-- A stack has a top word if this word was pushed on another stack. -/
theorem top_eq_ok_iff {s : Stack} {w : Word} :
    s.top = .ok w ↔ ∃ below : Stack, s = below.push w := by
  constructor
  · intro h
    unfold top at h
    split at h
    · cases h
      obtain ⟨below, hbelow⟩ := Array.back?_eq_some_iff.1 ‹_›
      exact ⟨⟨below⟩, congrArg mk hbelow⟩
    · cases h
  · rintro ⟨below, rfl⟩
    simp [top, push]

/-- The topmost group of one word holds the top word. -/
theorem topN_one (s : Stack) : s.topN 1 = s.top.map ([·]) := by
  cases htop : s.top with
  | ok w =>
    obtain ⟨below, rfl⟩ := top_eq_ok_iff.1 htop
    simp [topN, size, push, Except.map]
  | error k =>
    obtain ⟨hsize, rfl⟩ := top_eq_error_iff.1 htop
    exact topN_eq_error_iff.2 ⟨hsize, rfl⟩

/-- The top word put in its own place changes nothing. -/
theorem replaceTop_top {s : Stack} {w : Word} (h : s.top = .ok w) : s.replaceTop [w] = .ok s := by
  obtain ⟨below, rfl⟩ := top_eq_ok_iff.1 h
  simp [replaceTop, size, push]

end Stack

namespace Exec

/-- What follows a look at the stack matters only where that look succeeds. -/
theorem readStack_bind_congr {α β : Type} {look : Stack → Except FaultKind α} {f g : α → Exec β}
    (h : ∀ s a, look s.stack = .ok a → f a s = g a s) :
    (readStack look >>= f) = (readStack look >>= g) := by
  funext s
  simp only [Bind.bind, EStateM.bind, readStack]
  cases hlook : look s.stack with
  | ok a => exact h s a hlook
  | error k => rfl

/-- Popping one word is a pop. -/
theorem popMany_one : popMany 1 = (do let w ← pop; return [w]) := by
  simp only [popMany, pure_bind, List.nil_append]

/-- The one top word is the top. -/
theorem readStack_topN_one :
    readStack (·.topN 1) = (do let w ← readStack (·.top); return [w]) := by
  funext s
  simp only [readStack, Stack.topN_one, Bind.bind, EStateM.bind]
  cases s.stack.top <;> rfl

/-! ## Operations on one lane -/

/-- The only lane faults as the operation does, and a lane that faults keeps its left operand. -/
theorem binaryLanes_one (op : BinaryOp) : binaryLanes 1 op = plain (.binary op) := by
  simp only [binaryLanes, plain, popMany_one, readStack_topN_one, bind_assoc, pure_bind]
  congr 1
  funext right
  refine readStack_bind_congr fun s left htop => ?_
  cases heval : op.eval left right with
  | ok w =>
    have hresult : ofExcept (Except.ok w) = (pure w : Exec Word) := rfl
    simp only [BinaryOp.evalLanes, heval, hresult, pure_bind, bind_pure_unit]
  | error k =>
    have hkept : changeStack (·.replaceTop [left]) s = .ok () s := by
      simp only [changeStack, Stack.replaceTop_top htop]
    simp only [BinaryOp.evalLanes, heval, Bind.bind, EStateM.bind, hkept]
    rfl

/-- On one lane a one-operand operation is evaluated in place, as it is on its own. -/
theorem lanes_one_unary (op : UnaryOp) : lanes 1 (.unary op) = plain (.unary op) := by
  simp only [lanes, plain, readStack_topN_one, bind_assoc, pure_bind, List.map_cons, List.map_nil]

/-- On one lane a load adds nothing to its address. -/
theorem lanes_one_load : lanes 1 .load = plain .load := by
  simp [lanes, plain, gather, List.range_succ]

/-- On one lane a store adds nothing to its address. -/
theorem lanes_one_store : lanes 1 .store = plain .store := by
  simp [lanes, plain, popMany_one]

/-- On one lane a load from the globals adds nothing to its index. -/
theorem lanes_one_loadGlobal (index : UInt8) :
    lanes 1 (.loadGlobal index) = (do let w ← loadGlobal index.toNat; push w) := by
  simp [lanes, List.range_succ]

/-- One lane of an operation is the operation. -/
theorem step_vector_one (op : LaneOp) : step (.vector .one op) = step op.scalar := by
  change (do lanes 1 op; return Flow.next) = step op.scalar
  cases op with
  | binary op => rw [lanes, binaryLanes_one]; rfl
  | unary op => rw [lanes_one_unary]; rfl
  | load => rw [lanes_one_load]; rfl
  | store => rw [lanes_one_store]; rfl
  | loadGlobal index => rw [lanes_one_loadGlobal, bind_assoc]; rfl
  | branch | conditionalBranch => rfl

/-- A scalar operation is no swizzle, so it refuses no lane count. -/
theorem ordinary_of_mayFault {op : LaneOp} {k : FaultKind} (h : op.scalar.MayFault k) :
    k.Ordinary := by
  obtain h | ⟨sources, indices, hswizzle, -⟩ := h
  · exact h
  · cases op <;> cases hswizzle

/-- **One lane.** Wherever the two instructions stand, from the same words `vector` with
one lane and its operation end alike. Both succeed or both end in the same fault, and leave the same
words either way. If they succeed, both go on behind themselves or both at the same target. -/
theorem step_single_lane (op : LaneOp) {s s' : State} (h : s.Agrees s') :
    Alike FaultKind.Ordinary (Continues (fun t t' => op.scalar.target? = some t ∧ t = t') s s') s s'
      (step (.vector .one op) s) (step op.scalar s') := by
  rw [step_vector_one]
  refine (step_alike (Instruction.matches_of_target? fun t ht => ?_) h).mono
    (fun _ => ordinary_of_mayFault) fun _ _ => id
  exact ⟨ht, rfl⟩

/-- A state with a zero on top of a stack. -/
def zeroOnTop (ip : Nat) : State := ⟨ip, 1, ⟨#[⟨9⟩, ⟨0⟩]⟩, {}, #[]⟩

/-- A division that takes its divisor before it faults, where `vector` ends at 4 and the division
itself at 2. -/
theorem step_single_lane_zeroOnTop :
    (zeroOnTop 4).Agrees (zeroOnTop 2) ∧
    Alike FaultKind.Ordinary (Continues (fun _ _ => False) (zeroOnTop 4) (zeroOnTop 2))
      (zeroOnTop 4) (zeroOnTop 2)
      (step (.vector .one (.binary .divideSigned)) (zeroOnTop 4))
      (step (.plain (.binary .divideSigned)) (zeroOnTop 2)) ∧
    step (.vector .one (.binary .divideSigned)) (zeroOnTop 4) =
      .error .divisionByZero { zeroOnTop 4 with stack := ⟨#[⟨9⟩]⟩ } := by
  have hagrees : (zeroOnTop 4).Agrees (zeroOnTop 2) := ⟨rfl, rfl⟩
  refine ⟨hagrees, ?_, rfl⟩
  refine (step_single_lane (.binary .divideSigned) hagrees).mono (fun _ => id) fun n n' h => ?_
  exact h.imp id fun ⟨_, _, ⟨htarget, _⟩, _⟩ => nomatch htarget

end Exec

end ShaderMachine
