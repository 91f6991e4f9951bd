import ShaderMachine.Proofs.Machine.Invocation
import ShaderMachine.Proofs.Machine.Prefix

/-!
# A budget only cuts runs short

Turns that a budget allows are the turns of a run without one (`turn_limited`), and each counts one
instruction (`Turn.steps`). So both runs go through the same states until the budget is spent
(`stateAfter_limited`). A run that stops by then stops alike (`execute_limited`); any other one is
cut off in the state after as many instructions as the budget allows (`execute_spent`).
`Interpreter.ends_withBudget` says the same of whole invocations.
-/

namespace ShaderMachine

section
variable {code : Code} {settings : RunSettings} {verbose : Bool} {limit n : Nat} {s t : State}
  {stop : Stop}

/-! ## Turns -/

@[simp] theorem State.observed_steps (s : State) (verbose : Bool) (ip : Nat) (i : Instruction) :
    (s.observed verbose ip i).steps = s.steps := by
  cases verbose <;> rfl

/-- A turn that the budget allows counts one instruction, however it ends. -/
theorem Turn.steps {r : Option Stop × State} (h : Turn code settings s r)
    (hspent : spentBudget? settings.budget s.steps = none) : r.2.steps = s.steps + 1 := by
  cases h with
  | spent hspent' =>
    rw [hspent] at hspent'
    cases hspent'
  | unread => rfl
  | fault _ _ hstep => exact Exec.steps_of_step_error hstep
  | next _ _ hstep | finish _ _ hstep =>
    rw [State.observed_steps]
    exact Exec.steps_of_step_ok hstep

/-- A turn makes no difference between a budget that allows it and none. -/
theorem turn_limited (h : s.steps < limit) :
    turn code ⟨some limit, verbose⟩ s = turn code ⟨none, verbose⟩ s := by
  have hspent : spentBudget? (some limit) s.steps = none := if_neg (Nat.not_le.2 h)
  have hspent' : spentBudget? none s.steps = none := rfl
  simp only [turn, hspent, hspent']

/-- A turn that the budget does not allow stops the run, in the state it begins in. -/
theorem turn_spent (h : limit ≤ s.steps) :
    turn code ⟨some limit, verbose⟩ s =
      (some (.error ⟨some s.ip, .budgetExhausted limit⟩), s) := by
  have hspent : spentBudget? (some limit) s.steps = some limit := if_pos h
  exact (Turn.spent hspent).eq

/-- Every turn of a run without a budget counts one instruction. -/
theorem steps_of_turn {stop? : Option Stop} (h : turn code ⟨none, verbose⟩ s = (stop?, t)) :
    t.steps = s.steps + 1 :=
  (turn_iff.2 h).steps rfl

/-! ## Runs -/

/-- Without a budget as many instructions are counted as turns are taken. -/
theorem steps_stateAfter (h : stateAfter code ⟨none, verbose⟩ n s = some t) :
    t.steps = s.steps + n := by
  induction n generalizing s with
  | zero =>
    cases h
    rfl
  | succ n ih =>
    rcases hturn : turn code ⟨none, verbose⟩ s with ⟨_ | stop, s₁⟩
    · rw [stateAfter_of_next hturn] at h
      have hs₁ := steps_of_turn hturn
      have ht := ih h
      omega
    · rw [stateAfter_of_stop hturn] at h
      cases h

/-- As long as the budget lasts, a run goes through the states of the run without one. -/
theorem stateAfter_limited (h : s.steps + n ≤ limit) :
    stateAfter code ⟨some limit, verbose⟩ n s = stateAfter code ⟨none, verbose⟩ n s := by
  induction n generalizing s with
  | zero => rfl
  | succ n ih =>
    have hlimited : turn code ⟨some limit, verbose⟩ s = turn code ⟨none, verbose⟩ s :=
      turn_limited (by omega)
    rcases hturn : turn code ⟨none, verbose⟩ s with ⟨_ | stop, s₁⟩
    · have hs₁ := steps_of_turn hturn
      rw [stateAfter_of_next hturn, stateAfter_of_next (hlimited.trans hturn)]
      exact ih (by omega)
    · rw [stateAfter_of_stop hturn, stateAfter_of_stop (hlimited.trans hturn)]

/-- A run that stops within the budget stops as it does without one. -/
theorem execute_limited {turns : Nat}
    (h : execute code ⟨none, verbose⟩ turns s = some (stop, t)) (hle : t.steps ≤ limit) :
    execute code ⟨some limit, verbose⟩ turns s = some (stop, t) := by
  obtain ⟨n, hn, u, hu, hturn⟩ := execute_eq_some_iff.1 h
  have husteps := steps_stateAfter hu
  have htsteps := steps_of_turn hturn
  refine execute_eq_some_iff.2 ⟨n, hn, u, ?_, ?_⟩
  · exact (stateAfter_limited (by omega)).trans hu
  · exact (turn_limited (by omega)).trans hturn

/-- A run that does not stop within `n` instructions is in the state after them. -/
theorem exists_stateAfter
    (h : ∀ turns stop t, execute code ⟨none, verbose⟩ turns s = some (stop, t) →
      s.steps + n < t.steps) :
    ∃ u, stateAfter code ⟨none, verbose⟩ n s = some u := by
  refine execute_eq_none_iff.1 ?_
  by_contra hstops
  obtain ⟨⟨stop, t⟩, hstops⟩ := Option.ne_none_iff_exists'.1 hstops
  have hlt := h n stop t hstops
  obtain ⟨m, hm, u, hu, hturn⟩ := execute_eq_some_iff.1 hstops
  have husteps := steps_stateAfter hu
  have htsteps := steps_of_turn hturn
  omega

/-- A run is cut off in the state after as many instructions as the budget allows. -/
theorem execute_spent (h : stateAfter code ⟨none, verbose⟩ n s = some t)
    (hlimit : s.steps + n = limit) :
    execute code ⟨some limit, verbose⟩ (n + 1) s =
      some (.error ⟨some t.ip, .budgetExhausted limit⟩, t) := by
  refine execute_eq_some_iff.2 ⟨n, Nat.lt_succ_self n, t, ?_, ?_⟩
  · exact (stateAfter_limited (Nat.le_of_eq hlimit)).trans h
  · exact turn_spent (Nat.le_of_eq (hlimit.symm.trans (steps_stateAfter h).symm))

end

/-! ## Invocations -/

/-- The interpreter with a budget. -/
def Interpreter.withBudget (vm : Interpreter) (limit : Nat) : Interpreter :=
  { vm with options := vm.options.withBudget limit }

/-- The outcome, had the interpreter had a budget. -/
def Outcome.withBudget (o : Outcome) (limit : Nat) : Outcome :=
  { o with interpreter := o.interpreter.withBudget limit }

/-- The budget cut the invocation off before the instruction at which the state stands: the fault
names it, the arguments are those supplied, and the state is left for inspection. -/
structure Outcome.CutAt (o : Outcome) (inv : Invocation) (limit : Nat) (s : State) : Prop where
  result : o.result = .error ⟨some s.ip, .budgetExhausted limit⟩
  args : o.args = inv.args
  stack : o.interpreter.stack = s.stack
  globals : o.interpreter.globals = s.globals
  steps : o.interpreter.steps = limit

namespace Interpreter

/-- The state of an invocation after so many instructions, unless it stops before. -/
def stateAfter (vm : Interpreter) (f : Function) (inv : Invocation) (verbose : Bool) (n : Nat) :
    Option State :=
  match vm.setup f inv with
  | .error _ => none
  | .ok globals =>
    ShaderMachine.stateAfter f.code ⟨vm.options.budget, verbose⟩ n
      (startState f inv verbose globals)

section
variable {vm : Interpreter} {f : Function} {inv : Invocation} {verbose : Bool} {limit : Nat}
  {o : Outcome}

/-- A frame is set up, or refused, whatever the budget is. -/
theorem setup_withBudget (vm : Interpreter) (f : Function) (inv : Invocation) (limit : Nat) :
    (vm.withBudget limit).setup f inv = (vm.setup f inv).mapError (·.withBudget limit) := by
  unfold setup
  cases f.checkCounts inv with
  | error k => rfl
  | ok =>
    dsimp only
    rcases f.layout.start inv.inputs with ⟨_ | k, globals⟩ <;> rfl

/-- An execution is concluded in the same way whatever the budget is. -/
theorem conclude_withBudget (options : Options) (f : Function) (verbose : Bool)
    (args : Array Word) (stop : Stop) (s : State) (limit : Nat) :
    conclude (options.withBudget limit) f verbose args stop s =
      (conclude options f verbose args stop s).withBudget limit := by
  unfold conclude
  cases stop with
  | error fault => rfl
  | ok count =>
    dsimp only
    rcases copyOut s.stack 0 f.parameters args with ⟨_ | k, args⟩ <;> rfl

/-- An invocation that ends within the budget ends as it does without one. -/
theorem Ends.withBudget (hbudget : vm.options.budget = none) (h : vm.Ends f inv verbose o)
    (hle : o.interpreter.steps ≤ limit) :
    (vm.withBudget limit).Ends f inv verbose (o.withBudget limit) := by
  obtain ⟨turns, hrun⟩ := h
  refine ⟨turns, run_eq_some_iff.2 ?_⟩
  rw [setup_withBudget]
  rcases run_eq_some_iff.1 hrun with hsetup | ⟨globals, stop, s, hsetup, hexecute, rfl⟩
  · exact .inl (by rw [hsetup]; rfl)
  · rw [interpreter_conclude] at hle
    rw [hbudget] at hexecute
    exact .inr ⟨globals, stop, s, by rw [hsetup]; rfl, execute_limited hexecute hle,
      conclude_withBudget ..⟩

/-- An invocation that does not end within the budget is cut off in the state that it is in after
as many instructions. -/
theorem exists_cutAt (hbudget : vm.options.budget = none)
    (h : ∀ o, vm.Ends f inv verbose o → limit < o.interpreter.steps) :
    ∃ s o, vm.stateAfter f inv verbose limit = some s ∧
      (vm.withBudget limit).Ends f inv verbose o ∧ o.CutAt inv limit s := by
  cases hsetup : vm.setup f inv with
  | error o =>
    have hlt := h o ⟨0, run_eq_some_iff.2 (.inl hsetup)⟩
    rw [(untouched_of_setup hsetup).steps] at hlt
    cases hlt
  | ok globals =>
    have hstart : (startState f inv verbose globals).steps = 0 := rfl
    obtain ⟨s, hs⟩ : ∃ s, ShaderMachine.stateAfter f.code ⟨none, verbose⟩ limit
        (startState f inv verbose globals) = some s := by
      refine exists_stateAfter fun turns stop t hexecute => ?_
      rw [← hbudget] at hexecute
      have hlt := h _ ⟨turns, run_eq_some_iff.2 (.inr ⟨globals, stop, t, hsetup, hexecute, rfl⟩)⟩
      rw [interpreter_conclude] at hlt
      rwa [hstart, Nat.zero_add]
    have hsteps := steps_stateAfter hs
    rw [hstart, Nat.zero_add] at hsteps
    have hlimit : (startState f inv verbose globals).steps + limit = limit := Nat.zero_add limit
    have hspent := execute_spent hs hlimit
    refine ⟨s, _, ?_, ⟨limit + 1, run_eq_some_iff.2 (.inr ⟨globals, _, s, ?_, hspent, rfl⟩)⟩, ?_⟩
    · rw [stateAfter, hsetup, hbudget]
      exact hs
    · rw [setup_withBudget, hsetup]
      rfl
    · exact ⟨rfl, rfl, rfl, rfl, hsteps⟩

/-- **A budget only cuts runs short.** An invocation that ends without a budget ends alike under
every budget that is no smaller than the number of its instructions. Under a smaller budget, and
under every budget if it does not end, it is cut off in the state that it reaches after as many
instructions as the budget allows. -/
theorem ends_withBudget (vm : Interpreter) (hbudget : vm.options.budget = none) (f : Function)
    (inv : Invocation) (verbose : Bool) (limit : Nat) :
    (∀ o, vm.Ends f inv verbose o →
      (o.interpreter.steps ≤ limit →
        (vm.withBudget limit).Ends f inv verbose (o.withBudget limit)) ∧
      (limit < o.interpreter.steps →
        ∃ s o', vm.stateAfter f inv verbose limit = some s ∧
          (vm.withBudget limit).Ends f inv verbose o' ∧ o'.CutAt inv limit s)) ∧
    ((∀ o, ¬ vm.Ends f inv verbose o) →
      ∃ s o', vm.stateAfter f inv verbose limit = some s ∧
        (vm.withBudget limit).Ends f inv verbose o' ∧ o'.CutAt inv limit s) := by
  refine ⟨fun o hends => ⟨hends.withBudget hbudget, fun hlt => ?_⟩, fun hnever => ?_⟩
  · refine exists_cutAt hbudget fun o' hends' => ?_
    rw [hends'.unique hends]
    exact hlt
  · exact exists_cutAt hbudget fun o hends => absurd hends (hnever o)

end

/-- A function that returns its argument if that is zero, and otherwise tests it for ever. -/
def spinFunction : Function := ⟨"spin", [⟨1, false⟩], 0, #[26, 21, 0, 0, 46, 1], ⟨0, []⟩⟩

def spinInvocation (w : Word) : Invocation := ⟨#[w], #[]⟩

/-- From the start of the loop or from its branch, a run does not stop. -/
theorem execute_spinFunction (turns : Nat) {s : State}
    (hs : s.ip = 0 ∧ s.stack = ⟨#[⟨1⟩]⟩ ∨ s.ip = 1 ∧ s.stack = ⟨#[⟨1⟩, ⟨1⟩]⟩) :
    execute spinFunction.code ⟨none, false⟩ turns s = none := by
  induction turns generalizing s with
  | zero => rfl
  | succ turns ih =>
    obtain ⟨ip, steps, stack, globals, events⟩ := s
    rcases hs with ⟨rfl, rfl⟩ | ⟨rfl, rfl⟩
    · have hturn : turn spinFunction.code ⟨none, false⟩ ⟨0, steps, ⟨#[⟨1⟩]⟩, globals, events⟩ =
          (none, ⟨1, steps + 1, ⟨#[⟨1⟩, ⟨1⟩]⟩, globals, events⟩) := rfl
      rw [execute_of_next hturn]
      exact ih (.inr ⟨rfl, rfl⟩)
    · have hread : spinFunction.code.readInstruction 1 = .ok (.conditionalBranch 0) 4 := rfl
      have hstep : Exec.step (.conditionalBranch 0)
          (State.entered ⟨1, steps, ⟨#[⟨1⟩, ⟨1⟩]⟩, globals, events⟩ 4) =
          .ok .next ⟨0, steps + 1, ⟨#[⟨1⟩]⟩, globals, events⟩ := rfl
      have hturn : turn spinFunction.code ⟨none, false⟩
          ⟨1, steps, ⟨#[⟨1⟩, ⟨1⟩]⟩, globals, events⟩ =
          (none, ⟨0, steps + 1, ⟨#[⟨1⟩]⟩, globals, events⟩) := (Turn.next rfl hread hstep).eq
      rw [execute_of_next hturn]
      exact ih (.inl ⟨rfl, rfl⟩)

/-- The function ends after three instructions on one argument, and never on the other. Budgets that
are enough, and budgets that are not, cover both. -/
theorem ends_withBudget_spinFunction :
    ({} : Interpreter).options.budget = none ∧
      (∃ o, ({} : Interpreter).Ends spinFunction (spinInvocation ⟨0⟩) false o ∧
        o.interpreter.steps = 3 ∧
        (({} : Interpreter).withBudget 3).Ends spinFunction (spinInvocation ⟨0⟩) false
          (o.withBudget 3) ∧
        ∃ s o', ({} : Interpreter).stateAfter spinFunction (spinInvocation ⟨0⟩) false 2 = some s ∧
          (({} : Interpreter).withBudget 2).Ends spinFunction (spinInvocation ⟨0⟩) false o' ∧
          o'.CutAt (spinInvocation ⟨0⟩) 2 s) ∧
      (∀ o, ¬ ({} : Interpreter).Ends spinFunction (spinInvocation ⟨1⟩) false o) ∧
        ∃ s o', ({} : Interpreter).stateAfter spinFunction (spinInvocation ⟨1⟩) false 7 = some s ∧
          (({} : Interpreter).withBudget 7).Ends spinFunction (spinInvocation ⟨1⟩) false o' ∧
          o'.CutAt (spinInvocation ⟨1⟩) 7 s := by
  obtain ⟨o, hrun, hsteps⟩ : ∃ o, ({} : Interpreter).run spinFunction (spinInvocation ⟨0⟩) false
      3 = some o ∧ o.interpreter.steps = 3 := ⟨_, rfl, rfl⟩
  have hends : ({} : Interpreter).Ends spinFunction (spinInvocation ⟨0⟩) false o := ⟨3, hrun⟩
  have hnever : ∀ o, ¬ ({} : Interpreter).Ends spinFunction (spinInvocation ⟨1⟩) false o := by
    rintro o ⟨turns, hrun⟩
    rcases run_eq_some_iff.1 hrun with hsetup | ⟨globals, stop, s, hsetup, hexecute, -⟩
    · cases hsetup
    · cases hsetup
      rw [execute_spinFunction turns (.inl ⟨rfl, rfl⟩)] at hexecute
      cases hexecute
  have h := ends_withBudget {} rfl spinFunction
  refine ⟨rfl, ⟨o, hends, hsteps, ?_, ?_⟩, hnever, ?_⟩
  · exact ((h (spinInvocation ⟨0⟩) false 3).1 o hends).1 (Nat.le_of_eq hsteps)
  · exact ((h (spinInvocation ⟨0⟩) false 2).1 o hends).2 (hsteps ▸ by decide)
  · exact (h (spinInvocation ⟨1⟩) false 7).2 hnever

end Interpreter

end ShaderMachine
