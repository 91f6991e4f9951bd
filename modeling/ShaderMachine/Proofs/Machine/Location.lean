import ShaderMachine.Proofs.Machine.Budget
import ShaderMachine.Proofs.Machine.Convention

/-!
# Where faults are located

The offset of a fault is meant to tell where an invocation ended (`Interpreter.Located`): there is
none if the invocation was not executed at all, and otherwise it is that of the instruction at which
execution stopped. `Interpreter.located_iff` says that this holds of every fault but one kind. When
a body has returned on a stack that lacks a slot of an `out` parameter, the fault of copying it back
has no offset either, although the body was executed (`Interpreter.unlocated_of_return`).
-/

namespace ShaderMachine

/-- A fault in which a turn ends is located at its instruction. -/
theorem ip_of_turn {code : Code} {settings : RunSettings} {s t : State} {fault : Fault}
    (h : turn code settings s = (some (.error fault), t)) : fault.ip = some s.ip := by
  cases turn_iff.2 h with
  | spent | unread | fault => rfl

namespace Interpreter

section
variable {vm : Interpreter} {f : Function} {inv : Invocation} {verbose : Bool} {count : Nat}
  {stack : Stack} {o : Outcome} {fault : Fault}

/-- The offset tells where the invocation ended. Without one it was refused before its first
instruction; if it was executed, the offset is that of the turn in which execution stopped. -/
structure Located (vm : Interpreter) (f : Function) (inv : Invocation) (verbose : Bool)
    (o : Outcome) (fault : Fault) : Prop where
  refused : fault.ip = none → ¬ f.Accepts inv ∧ o.interpreter.steps = 0
  stopped : f.Accepts inv → ∃ s stop t,
    Reaches f.code ⟨vm.options.budget, verbose⟩
      (startState f inv verbose (f.layout.start inv.inputs).2) s ∧
    turn f.code ⟨vm.options.budget, verbose⟩ s = (some stop, t) ∧ fault.ip = some s.ip

/-- An invocation that is not set up has not been accepted. -/
theorem not_accepts_of_setup (h : vm.setup f inv = .error o) : ¬ f.Accepts inv := by
  intro haccepts
  rw [setup_eq_ok_iff.2 ⟨haccepts, rfl⟩] at h
  cases h

/-- The fault of an invocation that is refused is located. -/
theorem located_of_setup (h : vm.setup f inv = .error o) : vm.Located f inv verbose o fault :=
  ⟨fun _ => ⟨not_accepts_of_setup h, (untouched_of_setup h).steps⟩,
    fun haccepts => absurd haccepts (not_accepts_of_setup h)⟩

/-- The fault in which an execution stops is located. -/
theorem located_of_execute {turns : Nat} {s : State}
    (h : ShaderMachine.execute f.code ⟨vm.options.budget, verbose⟩ turns
      (startState f inv verbose (f.layout.start inv.inputs).2) = some (.error fault, s)) :
    vm.Located f inv verbose o fault := by
  obtain ⟨s, hreaches, hturn⟩ := exists_reaches_of_execute h
  have hip := ip_of_turn hturn
  refine ⟨fun hnone => ?_, fun _ => ⟨s, _, _, hreaches, hturn, hip⟩⟩
  rw [hip] at hnone
  cases hnone

/-- An invocation whose body returns is executed and concluded. -/
theorem StopsAtReturn.eq_conclude (hreturn : vm.StopsAtReturn f inv verbose count stack)
    (h : vm.Ends f inv verbose o) :
    ∃ s, stack.returnToBottom count = .ok s.stack ∧ 0 < s.steps ∧
      o = conclude vm.options f verbose inv.args (.ok count) s := by
  obtain ⟨turns, s, hexecute, hstack⟩ := hreturn.execute
  obtain ⟨s', -, hturn⟩ := exists_reaches_of_execute hexecute
  have hsteps : 0 < s.steps := by
    cases hspent : spentBudget? vm.options.budget s'.steps with
    | none => exact Nat.lt_of_lt_of_eq (Nat.succ_pos _) ((turn_iff.2 hturn).steps hspent).symm
    | some limit =>
      rw [(Turn.spent hspent).eq] at hturn
      cases hturn
  refine ⟨s, hstack, hsteps, h.unique ⟨turns, run_eq_some_iff.2 (.inr ?_)⟩⟩
  exact ⟨_, _, s, setup_eq_ok_iff.2 ⟨hreturn.1, rfl⟩, hexecute, rfl⟩

/-- The fault of an invocation whose body returns is that of a slot of an `out` parameter which the
stack lacks. It has no offset, although instructions were executed. -/
theorem unlocated_of_return (hreturn : vm.StopsAtReturn f inv verbose count stack)
    (h : vm.Ends f inv verbose o) (hfault : o.result = .error fault) :
    fault.ip = none ∧ 0 < o.interpreter.steps ∧
      ∃ slot, f.OutSlot slot ∧ stack.size ≤ slot ∧
        fault.kind = .outOfBounds .stack slot stack.size := by
  obtain ⟨s, hstack, hsteps, rfl⟩ := hreturn.eq_conclude h
  have hafter : (conclude vm.options f verbose inv.args (.ok count) s).AfterReturn f inv count
      stack := afterReturn_conclude hreturn.1.args hstack
  have hsize := hafter.size
  cases hafter.copyBack with
  | complete _ hresult =>
    rw [hresult] at hfault
    cases hfault
  | missing slot hslot hmissing _ hresult =>
    rw [hresult] at hfault
    cases hfault
    rw [interpreter_conclude] at hsize hmissing ⊢
    exact ⟨rfl, hsteps, slot, hslot, hsize ▸ hmissing, by rw [hsize]⟩

/-- **Where faults are located.** The offset of a fault tells where the invocation ended, unless the
body has returned: then copying back has faulted, and the fault has no offset. -/
theorem located_iff (h : vm.Ends f inv verbose o) (hfault : o.result = .error fault) :
    (vm.Located f inv verbose o fault ↔
      ∀ count stack, ¬ vm.StopsAtReturn f inv verbose count stack) ∧
    ∀ count stack, vm.StopsAtReturn f inv verbose count stack →
      fault.ip = none ∧ 0 < o.interpreter.steps ∧
        ∃ slot, f.OutSlot slot ∧ stack.size ≤ slot ∧
          fault.kind = .outOfBounds .stack slot stack.size := by
  refine ⟨⟨fun hlocated count stack hreturn => ?_, fun hnever => ?_⟩,
    fun count stack hreturn => unlocated_of_return hreturn h hfault⟩
  · obtain ⟨hip, -⟩ := unlocated_of_return hreturn h hfault
    exact (hlocated.refused hip).1 hreturn.1
  · obtain ⟨turns, hrun⟩ := h
    rcases run_eq_some_iff.1 hrun with hsetup | ⟨globals, stop, s, hsetup, hexecute, rfl⟩
    · exact located_of_setup hsetup
    · obtain ⟨haccepts, rfl⟩ := setup_eq_ok_iff.1 hsetup
      cases stop with
      | error fault' =>
        cases hfault
        exact located_of_execute hexecute
      | ok count =>
        obtain ⟨stack, hreturn⟩ := stopsAtReturn_of_execute haccepts hexecute
        exact absurd hreturn (hnever count stack)

end

/-- A function that drops its `out` parameter and returns nothing. -/
def dropFunction : Function := ⟨"drop", [⟨1, true⟩], 0, #[42, 1, 46, 0], ⟨0, []⟩⟩

/-- A function that drops more words than its parameter has, behind a `nop`. -/
def overdrawFunction : Function := ⟨"overdraw", [⟨1, true⟩], 0, #[37, 42, 2], ⟨0, []⟩⟩

/-- The function never gets to a `return`, and its fault has the offset of the instruction behind
the `nop`. -/
theorem located_iff_overdrawFunction :
    ∃ o, ({} : Interpreter).Ends overdrawFunction ⟨#[⟨5⟩], #[]⟩ false o ∧
      o.result = .error ⟨some 1, .stackUnderflow⟩ ∧
      ({} : Interpreter).Located overdrawFunction ⟨#[⟨5⟩], #[]⟩ false o
        ⟨some 1, .stackUnderflow⟩ := by
  obtain ⟨o, hends, hresult⟩ : ∃ o,
      ({} : Interpreter).Ends overdrawFunction ⟨#[⟨5⟩], #[]⟩ false o ∧
        o.result = .error ⟨some 1, .stackUnderflow⟩ := ⟨_, ⟨2, rfl⟩, rfl⟩
  refine ⟨o, hends, hresult, (located_iff hends hresult).1.2 fun count stack hreturn => ?_⟩
  cases ((located_iff hends hresult).2 count stack hreturn).1

/-- Copying back faults without an offset after two instructions. -/
theorem not_located_dropFunction :
    ∃ o, ({} : Interpreter).Ends dropFunction ⟨#[⟨5⟩], #[]⟩ false o ∧
      o.result = .error ⟨none, .outOfBounds .stack 0 0⟩ ∧ o.interpreter.steps = 2 ∧
      dropFunction.Accepts ⟨#[⟨5⟩], #[]⟩ ∧
      ¬ ({} : Interpreter).Located dropFunction ⟨#[⟨5⟩], #[]⟩ false o
        ⟨none, .outOfBounds .stack 0 0⟩ := by
  have haccepts : dropFunction.Accepts ⟨#[⟨5⟩], #[]⟩ := ⟨by decide, rfl, nofun⟩
  exact ⟨_, ⟨2, rfl⟩, rfl, rfl, haccepts, fun hlocated => (hlocated.refused rfl).1 haccepts⟩

end Interpreter

end ShaderMachine
