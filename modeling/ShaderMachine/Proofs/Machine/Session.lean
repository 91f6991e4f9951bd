import ShaderMachine.Proofs.Instruction.Faults
import ShaderMachine.Proofs.Machine.Invocation

/-!
# Invocations on one interpreter do not see each other

An interpreter keeps the stack and the globals of its last invocation. The next one sees neither: it
is refused for the number of its words before either is looked at (`Interpreter.run_of_refused`), or
runs as on an interpreter that has served none (`Interpreter.run_of_counts`). A fault tells which of
the two it was, because execution never ends in a refusal (`Interpreter.Ends.refused_iff`).
-/

namespace ShaderMachine

/-! ## Refusals -/

/-- Reading an instruction refuses no invocation. -/
theorem FaultKind.Unreadable.not_refusal {k : FaultKind} (h : k.Unreadable) : ¬ k.Refusal := by
  cases k with
  | argumentCount | inputCount => cases h
  | _ => exact id

/-- Executing an instruction refuses no invocation. -/
theorem Instruction.MayFault.not_refusal {i : Instruction} {k : FaultKind} (h : i.MayFault k) :
    ¬ k.Refusal := by
  rcases h with h | ⟨sources, indices, -, -, rfl⟩
  · cases k with
    | argumentCount | inputCount => cases h
    | _ => exact id
  · exact id

/-- Execution ends in no fault that refuses an invocation. -/
theorem not_refusal_of_execute {code : Code} {settings : RunSettings} {turns : Nat} {s t : State}
    {fault : Fault} (h : execute code settings turns s = some (.error fault, t)) :
    ¬ fault.kind.Refusal := by
  obtain ⟨s', -, hturn⟩ := exists_reaches_of_execute h
  cases turn_iff.2 hturn with
  | spent => exact id
  | unread _ hread => exact (Code.unreadable_of_readInstruction hread).not_refusal
  | fault _ _ hstep => exact (Exec.mayFault_of_step hstep).not_refusal

/-- The invocation was refused for the number of words that it supplied. -/
def Outcome.Refused (o : Outcome) : Prop := ∃ fault, o.result = .error fault ∧ fault.kind.Refusal

namespace Interpreter

section
variable {vm : Interpreter} {f : Function} {inv : Invocation} {verbose : Bool} {k : FaultKind}
  {o : Outcome}

/-- A refused invocation changes nothing but the number of instructions. -/
theorem run_of_refused (h : f.checkCounts inv = .error k) (turns : Nat) :
    vm.run f inv verbose turns =
      some ⟨.error ⟨none, k⟩, inv.args, { vm with steps := 0 }, #[]⟩ := by
  unfold run
  rw [h]

/-- With the right number of words an invocation is not refused, however else it faults. -/
theorem not_refused_of_counts (hcounts : f.checkCounts inv = .ok ())
    (h : vm.Ends f inv verbose o) : ¬ o.Refused := by
  rintro ⟨fault, hfault, hrefusal⟩
  obtain ⟨turns, hrun⟩ := h
  rcases run_eq_some_iff.1 hrun with hsetup | ⟨globals, stop, s, -, hexecute, rfl⟩
  · simp only [setup, hcounts] at hsetup
    split at hsetup
    · rename_i kind globals hstart
      cases hsetup
      cases hfault
      obtain ⟨index, rfl⟩ := Globals.exists_outOfBounds_of_fill (congrArg Prod.fst hstart)
      exact hrefusal
    · cases hsetup
  · rcases result_conclude hfault with rfl | ⟨slot, rfl⟩
    · exact not_refusal_of_execute hexecute hrefusal
    · exact hrefusal

/-- An invocation is refused exactly if the number of its words is not the right one. -/
theorem Ends.refused_iff (h : vm.Ends f inv verbose o) :
    o.Refused ↔ ∃ k, f.checkCounts inv = .error k := by
  cases hcounts : f.checkCounts inv with
  | ok => exact iff_of_false (not_refused_of_counts hcounts h) (by simp)
  | error k =>
    obtain ⟨turns, hrun⟩ := h
    rw [run_of_refused hcounts] at hrun
    cases hrun
    exact iff_of_true ⟨_, rfl, Function.refusal_of_checkCounts hcounts⟩ ⟨k, rfl⟩

/-! ## Independence -/

/-- An interpreter that has served no invocation. -/
def fresh (options : Options) : Interpreter := { options }

/-- What the interpreter holds makes no difference to an invocation with the right number of
words. -/
theorem run_of_counts (h : f.checkCounts inv = .ok ()) (turns : Nat) :
    vm.run f inv verbose turns = (fresh vm.options).run f inv verbose turns := by
  unfold run
  rw [h]
  rfl

/-- An interpreter keeps its options. -/
theorem Ends.options (h : vm.Ends f inv verbose o) : o.interpreter.options = vm.options := by
  obtain ⟨turns, hrun⟩ := h
  rcases run_eq_some_iff.1 hrun with hsetup | ⟨globals, stop, s, -, -, rfl⟩
  · exact (untouched_of_setup hsetup).options
  · rw [interpreter_conclude]

/-- An invocation takes as many turns on an interpreter as on a fresh one. -/
theorem exists_run_iff (turns : Nat) :
    (∃ o, vm.run f inv verbose turns = some o) ↔
      ∃ o, (fresh vm.options).run f inv verbose turns = some o := by
  cases hcounts : f.checkCounts inv with
  | ok => rw [run_of_counts hcounts]
  | error k =>
    exact iff_of_true ⟨_, run_of_refused hcounts turns⟩ ⟨_, run_of_refused hcounts turns⟩

/-- An invocation ends on an interpreter if it does on a fresh one. -/
theorem exists_ends_iff :
    (∃ o, vm.Ends f inv verbose o) ↔ ∃ o, (fresh vm.options).Ends f inv verbose o := by
  unfold Ends
  rw [exists_comm, exists_comm (α := Outcome)]
  exact exists_congr exists_run_iff

end

end Interpreter

/-- The outcome of an invocation on the interpreter is the one that it has on a fresh one. Only if
the invocation was refused does the memory differ: it is then still what the interpreter held. -/
structure Outcome.Unaffected (o : Outcome) (vm : Interpreter) (o' : Outcome) : Prop where
  result : o.result = o'.result
  args : o.args = o'.args
  steps : o.interpreter.steps = o'.interpreter.steps
  memory : ¬ o.Refused → o.interpreter.stack = o'.interpreter.stack ∧
    o.interpreter.globals = o'.interpreter.globals
  refused : o.Refused → o.interpreter.stack = vm.stack ∧ o.interpreter.globals = vm.globals

namespace Interpreter

/-- The second interpreter is what is left of the first one after invocations that have ended, each
with a result or with a fault. -/
inductive Serves : Interpreter → List (Function × Invocation) → Interpreter → Prop
  | none {vm : Interpreter} : Serves vm [] vm
  | next {vm vm' : Interpreter} {f : Function} {inv : Invocation} {verbose : Bool} {o : Outcome}
      {calls : List (Function × Invocation)} : vm.Ends f inv verbose o →
      Serves o.interpreter calls vm' → Serves vm ((f, inv) :: calls) vm'

section
variable {start vm : Interpreter} {f : Function} {inv : Invocation} {verbose : Bool}
  {calls : List (Function × Invocation)} {o o' : Outcome}

/-- One invocation is unaffected by what the interpreter holds. -/
theorem Ends.unaffected (h : vm.Ends f inv verbose o)
    (h' : (fresh vm.options).Ends f inv verbose o') : o.Unaffected vm o' := by
  cases hcounts : f.checkCounts inv with
  | ok =>
    have hrefused := not_refused_of_counts hcounts h
    obtain ⟨turns, hrun⟩ := h
    rw [run_of_counts hcounts] at hrun
    obtain rfl := Ends.unique ⟨turns, hrun⟩ h'
    exact ⟨rfl, rfl, rfl, fun _ => ⟨rfl, rfl⟩, fun hrefused' => absurd hrefused' hrefused⟩
  | error k =>
    have hrefused := h.refused_iff.2 ⟨k, hcounts⟩
    obtain rfl := h.unique ⟨0, run_of_refused hcounts 0⟩
    obtain rfl := h'.unique ⟨0, run_of_refused hcounts 0⟩
    exact ⟨rfl, rfl, rfl, fun hnot => absurd hrefused hnot, fun _ => ⟨rfl, rfl⟩⟩

/-- Options stay as they are, whatever invocations are served. -/
theorem Serves.options (h : start.Serves calls vm) : vm.options = start.options := by
  induction h with
  | none => rfl
  | next hends _ ih => exact ih.trans hends.options

/-- **No leak between invocations.** After any history, an invocation ends on the interpreter if it
does on a fresh one with the same options, and its outcome is unaffected by the history. -/
theorem ends_after_serving (h : start.Serves calls vm) (f : Function) (inv : Invocation)
    (verbose : Bool) :
    ((∃ o, vm.Ends f inv verbose o) ↔ ∃ o, (fresh start.options).Ends f inv verbose o) ∧
      ∀ o o', vm.Ends f inv verbose o → (fresh start.options).Ends f inv verbose o' →
        o.Unaffected vm o' := by
  rw [← h.options]
  exact ⟨exists_ends_iff, fun o o' => Ends.unaffected⟩

end

/-- A function that pushes a word and then comes to a byte that is no opcode. -/
def strayFunction : Function := ⟨"stray", [⟨1, false⟩], 1, #[26, 255], ⟨2, [0]⟩⟩

def strayInvocation : Invocation := ⟨#[⟨7⟩], #[⟨8⟩]⟩

/-- A function that hands back its local, which it has not written. -/
def revealFunction : Function := ⟨"reveal", [⟨1, true⟩], 1, #[46, 1], ⟨1, []⟩⟩

/-- The interpreter is left with words on its stack by a function that faults. The next invocation
does not notice them, and one that is refused leaves them there. -/
theorem ends_after_serving_strayFunction :
    ∃ vm, (fresh {}).Serves [(strayFunction, strayInvocation)] vm ∧ vm.stack.size = 3 ∧
      vm.globals.size = 2 ∧
      (∃ o o', vm.Ends revealFunction ⟨#[⟨5⟩], #[]⟩ false o ∧
        (fresh {}).Ends revealFunction ⟨#[⟨5⟩], #[]⟩ false o' ∧ ¬ o.Refused ∧
        o.Unaffected vm o') ∧
      ∃ o o', vm.Ends revealFunction ⟨#[], #[]⟩ false o ∧
        (fresh {}).Ends revealFunction ⟨#[], #[]⟩ false o' ∧ o.Refused ∧ o.Unaffected vm o' := by
  obtain ⟨stray, hrun, hstack, hglobals⟩ : ∃ stray,
      (fresh {}).run strayFunction strayInvocation false 2 = some stray ∧
        stray.interpreter.stack.size = 3 ∧ stray.interpreter.globals.size = 2 :=
    ⟨_, rfl, rfl, rfl⟩
  have hserves : (fresh {}).Serves [(strayFunction, strayInvocation)] stray.interpreter :=
    .next ⟨2, hrun⟩ .none
  refine ⟨_, hserves, hstack, hglobals, ?_, ?_⟩
  · obtain ⟨hiff, h⟩ := ends_after_serving hserves revealFunction ⟨#[⟨5⟩], #[]⟩ false
    obtain ⟨o', hends'⟩ : ∃ o', (fresh {}).Ends revealFunction ⟨#[⟨5⟩], #[]⟩ false o' :=
      ⟨_, 1, rfl⟩
    obtain ⟨o, hends⟩ := hiff.2 ⟨o', hends'⟩
    exact ⟨o, o', hends, hends', not_refused_of_counts rfl hends, h o o' hends hends'⟩
  · obtain ⟨hiff, h⟩ := ends_after_serving hserves revealFunction ⟨#[], #[]⟩ false
    obtain ⟨o', hends'⟩ : ∃ o', (fresh {}).Ends revealFunction ⟨#[], #[]⟩ false o' := ⟨_, 0, rfl⟩
    obtain ⟨o, hends⟩ := hiff.2 ⟨o', hends'⟩
    exact ⟨o, o', hends, hends', hends.refused_iff.2 ⟨_, rfl⟩, h o o' hends hends'⟩

end Interpreter

end ShaderMachine
