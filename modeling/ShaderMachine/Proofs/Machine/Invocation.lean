import ShaderMachine.Proofs.Machine.Frame
import ShaderMachine.Proofs.Machine.Run

/-!
# Where the fault of an invocation comes from

An invocation faults because its body does, or without an offset, before the body runs or after it
has returned. Faults of the second kind are about the number of words or about slots that do not
exist (`FaultKind.Framing`).
-/

namespace ShaderMachine

/-- The kinds of faults that setting up and leaving a frame can end in. -/
def FaultKind.Framing : FaultKind → Prop
  | outOfBounds .. | argumentCount .. | inputCount .. => True
  | _ => False

/-- Wrong numbers of words are found in setting up a frame. -/
theorem Function.framing_of_checkCounts {f : Function} {inv : Invocation} {k : FaultKind}
    (h : f.checkCounts inv = .error k) : k.Framing := by
  have hk := refusal_of_checkCounts h
  cases k with
  | argumentCount | inputCount => trivial
  | _ => cases hk

/-- An input whose slot does not exist is found in setting up a frame. -/
theorem Globals.framing_of_fill {inputs : List (UInt64 × Word)} {g : Globals} {k : FaultKind}
    (h : (fill inputs g).1 = some k) : k.Framing := by
  obtain ⟨index, rfl⟩ := exists_outOfBounds_of_fill h
  trivial

namespace Interpreter

/-- The globals with which the body starts, or the outcome of an invocation that does not get there. -/
def setup (vm : Interpreter) (f : Function) (inv : Invocation) : Except Outcome Globals :=
  match f.checkCounts inv with
  | .error kind => .error ⟨.error ⟨none, kind⟩, inv.args, { vm with steps := 0 }, #[]⟩
  | .ok () =>
    match f.layout.start inv.inputs with
    | (some kind, globals) =>
      .error ⟨.error ⟨none, kind⟩, inv.args, ⟨vm.options, f.frame inv.args, globals, 0⟩, #[]⟩
    | (none, globals) => .ok globals

/-- The state in which the body starts. -/
def startState (f : Function) (inv : Invocation) (verbose : Bool) (globals : Globals) : State :=
  ⟨0, 0, f.frame inv.args, globals, openingEvents f verbose⟩

/-- An invocation is set up, executed and concluded. -/
theorem run_eq (vm : Interpreter) (f : Function) (inv : Invocation) (verbose : Bool)
    (turns : Nat) :
    vm.run f inv verbose turns =
      match vm.setup f inv with
      | .error o => some o
      | .ok globals =>
        (execute f.code ⟨vm.options.budget, verbose⟩ turns (startState f inv verbose globals)).map
          fun r => conclude vm.options f verbose inv.args r.1 r.2 := by
  unfold run setup
  cases f.checkCounts inv with
  | error k => rfl
  | ok =>
    dsimp only
    cases f.layout.start inv.inputs with
    | mk k globals =>
      cases k with
      | some k => rfl
      | none =>
        dsimp only [startState]
        cases execute f.code ⟨vm.options.budget, verbose⟩ turns
          ⟨0, 0, f.frame inv.args, globals, openingEvents f verbose⟩ <;> rfl

/-- What an invocation can come to: it is not set up, or it is executed and then concluded. -/
theorem run_eq_some_iff {vm : Interpreter} {f : Function} {inv : Invocation} {verbose : Bool}
    {turns : Nat} {o : Outcome} :
    vm.run f inv verbose turns = some o ↔
      vm.setup f inv = .error o ∨ ∃ globals stop s, vm.setup f inv = .ok globals ∧
        execute f.code ⟨vm.options.budget, verbose⟩ turns (startState f inv verbose globals) =
          some (stop, s) ∧ conclude vm.options f verbose inv.args stop s = o := by
  rw [run_eq]
  cases vm.setup f inv with
  | error o' => simp
  | ok globals => simp

/-- What is left for inspection when an execution is concluded. -/
@[simp] theorem interpreter_conclude (options : Options) (f : Function) (verbose : Bool)
    (args : Array Word) (stop : Stop) (s : State) :
    (conclude options f verbose args stop s).interpreter =
      ⟨options, s.stack, s.globals, s.steps⟩ := by
  unfold conclude
  cases stop with
  | error fault => rfl
  | ok count =>
    dsimp only
    split <;> rfl

/-- Invocations that the function accepts are set up. -/
theorem setup_eq_ok_iff {vm : Interpreter} {f : Function} {inv : Invocation} {globals : Globals} :
    vm.setup f inv = .ok globals ↔
      f.Accepts inv ∧ (f.layout.start inv.inputs).2 = globals := by
  rw [Function.accepts_iff, setup]
  cases f.checkCounts inv with
  | error k => simp
  | ok =>
    rcases f.layout.start inv.inputs with ⟨_ | k, globals⟩
    · simp
    · simp

/-- The outcome is a fault before the first instruction. -/
structure Untouched (vm : Interpreter) (inv : Invocation) (o : Outcome) : Prop where
  fault : ∃ fault, o.result = .error fault
  args : o.args = inv.args
  steps : o.interpreter.steps = 0
  options : o.interpreter.options = vm.options

/-- An invocation that is not set up leaves the arguments alone. -/
theorem untouched_of_setup {vm : Interpreter} {f : Function} {inv : Invocation} {o : Outcome}
    (h : vm.setup f inv = .error o) : vm.Untouched inv o := by
  unfold setup at h
  split at h
  · cases h
    exact ⟨⟨_, rfl⟩, rfl, rfl, rfl⟩
  · split at h
    · cases h
      exact ⟨⟨_, rfl⟩, rfl, rfl, rfl⟩
    · cases h

/-- An invocation that is not set up faults without an offset. -/
theorem framing_of_setup {vm : Interpreter} {f : Function} {inv : Invocation} {o : Outcome}
    {fault : Fault} (h : vm.setup f inv = .error o) (hfault : o.result = .error fault) :
    fault.ip = none ∧ fault.kind.Framing := by
  unfold setup at h
  cases hcounts : f.checkCounts inv with
  | error k =>
    simp only [hcounts, Except.error.injEq] at h
    subst h
    cases hfault
    exact ⟨rfl, Function.framing_of_checkCounts hcounts⟩
  | ok =>
    simp only [hcounts] at h
    split at h
    · rename_i hstart
      cases h
      cases hfault
      exact ⟨rfl, Globals.framing_of_fill (congrArg Prod.fst hstart)⟩
    · cases h

/-- Concluding an execution adds only the fault of a slot that the stack does not have. -/
theorem result_conclude {options : Options} {f : Function} {verbose : Bool} {args : Array Word}
    {stop : Stop} {s : State} {fault : Fault}
    (h : (conclude options f verbose args stop s).result = .error fault) :
    stop = .error fault ∨
      ∃ slot : Nat, fault = ⟨none, .outOfBounds .stack slot s.stack.size⟩ := by
  unfold conclude at h
  split at h
  · exact .inl (congrArg _ (Except.error.inj h))
  · split at h
    · rename_i hcopy
      cases h
      rw [copyOut_eq] at hcopy
      obtain ⟨slot, rfl⟩ := exists_outOfBounds_of_copyAll (congrArg Prod.fst hcopy)
      exact .inr ⟨slot, rfl⟩
    · cases h

/-- The fault of an invocation is a fault of its body or has no offset. -/
theorem result_run {vm : Interpreter} {f : Function} {inv : Invocation} {verbose : Bool}
    {turns : Nat} {o : Outcome} {fault : Fault} (h : vm.run f inv verbose turns = some o)
    (hfault : o.result = .error fault) :
    fault.ip = none ∧ fault.kind.Framing ∨ ∃ s₀ s, s₀.ip = 0 ∧
      execute f.code ⟨vm.options.budget, verbose⟩ turns s₀ = some (.error fault, s) := by
  rcases run_eq_some_iff.1 h with hsetup | ⟨globals, stop, s, -, hexecute, rfl⟩
  · exact .inl (framing_of_setup hsetup hfault)
  · rcases result_conclude hfault with rfl | ⟨slot, rfl⟩
    · exact .inr ⟨_, _, rfl, hexecute⟩
    · exact .inl ⟨rfl, trivial⟩

end Interpreter

/-! ## What an invocation comes to -/

/-- The results of an invocation or the kind of its fault, and the words it leaves. Offsets, the
number of instructions and events are no part of it. -/
structure Effect where
  result : Except FaultKind (List Word)
  args : Array Word
  stack : Stack
  globals : Globals

def Outcome.effect (o : Outcome) : Effect :=
  ⟨o.result.mapError Fault.kind, o.args, o.interpreter.stack, o.interpreter.globals⟩

namespace Interpreter

/-- The invocation ends with the outcome. -/
def Ends (vm : Interpreter) (f : Function) (inv : Invocation) (verbose : Bool) (o : Outcome) :
    Prop :=
  ∃ turns, vm.run f inv verbose turns = some o

/-- The invocation ends, and with the effect. -/
def Yields (vm : Interpreter) (f : Function) (inv : Invocation) (verbose : Bool) (e : Effect) :
    Prop :=
  ∃ turns o, vm.run f inv verbose turns = some o ∧ o.effect = e

section
variable {vm : Interpreter} {f f' : Function} {inv : Invocation} {verbose : Bool} {e e' : Effect}

/-- Executions that stopped alike are concluded alike. -/
theorem effect_conclude {options : Options} {args : Array Word} {stop stop' : Stop} {t t' : State}
    (hparameters : f.parameters = f'.parameters) (hkind : stop.kind = stop'.kind)
    (h : t.Agrees t') :
    (conclude options f verbose args stop t).effect =
      (conclude options f' verbose args stop' t').effect := by
  cases stop with
  | error fault =>
    cases stop' with
    | ok => cases hkind
    | error fault' =>
      have hkind : fault.kind = fault'.kind := Except.error.inj hkind
      simp only [conclude, Outcome.effect, h.stack, h.globals, Except.mapError, hkind]
  | ok count =>
    cases stop' with
    | error => cases hkind
    | ok count' =>
      cases hkind
      simp only [conclude, h.stack, hparameters]
      cases copyOut t'.stack 0 f'.parameters args with
      | mk k args => cases k <;> simp only [Outcome.effect, h.globals]

/-- An invocation has one outcome, however many turns it is given. -/
theorem run_unique {turns turns' : Nat} {o o' : Outcome}
    (h : vm.run f inv verbose turns = some o) (h' : vm.run f inv verbose turns' = some o') :
    o = o' := by
  rw [run_eq] at h h'
  cases hsetup : vm.setup f inv with
  | error =>
    rw [hsetup] at h h'
    exact Option.some.inj (h.symm.trans h')
  | ok globals =>
    rw [hsetup] at h h'
    obtain ⟨r, hr, rfl⟩ := Option.map_eq_some_iff.1 h
    obtain ⟨r', hr', rfl⟩ := Option.map_eq_some_iff.1 h'
    rw [execute_unique hr hr']

/-- An invocation ends in one way at most. -/
theorem Ends.unique {o o' : Outcome} (h : vm.Ends f inv verbose o) (h' : vm.Ends f inv verbose o') :
    o = o' := by
  obtain ⟨turns, hrun⟩ := h
  obtain ⟨turns', hrun'⟩ := h'
  exact run_unique hrun hrun'

/-- An invocation has one effect at most. -/
theorem Yields.unique (h : vm.Yields f inv verbose e) (h' : vm.Yields f inv verbose e') :
    e = e' := by
  obtain ⟨turns, o, hrun, rfl⟩ := h
  obtain ⟨turns', o', hrun', rfl⟩ := h'
  rw [run_unique hrun hrun']

/-- If the executions of one body stop as those of another do, so do the invocations. -/
theorem Yields.of_execute {code code' : Code}
    (hexecute : ∀ (s s' : State) {turns : Nat} {stop : Stop} {t : State}, s.ip = 0 → s'.ip = 0 →
      s.Agrees s' → execute code ⟨vm.options.budget, verbose⟩ turns s = some (stop, t) →
      ∃ turns' stop' t', execute code' ⟨vm.options.budget, verbose⟩ turns' s' = some (stop', t') ∧
        stop.kind = stop'.kind ∧ t.Agrees t')
    (h : vm.Yields { f with code := code } inv verbose e) :
    vm.Yields { f with code := code' } inv verbose e := by
  obtain ⟨turns, o, hrun, rfl⟩ := h
  rcases run_eq_some_iff.1 hrun with hsetup | ⟨globals, stop, t, hsetup, hr, rfl⟩
  · exact ⟨turns, o, run_eq_some_iff.2 (.inl hsetup), rfl⟩
  · obtain ⟨turns', stop', t', hr', hkind, ht⟩ :=
      hexecute (startState { f with code := code } inv verbose globals)
        (startState { f with code := code' } inv verbose globals) rfl rfl ⟨rfl, rfl⟩ hr
    refine ⟨turns', _, ?_, (effect_conclude rfl hkind ht).symm⟩
    exact run_eq_some_iff.2 (.inr ⟨globals, stop', t', hsetup, hr', rfl⟩)

end

end Interpreter

end ShaderMachine
