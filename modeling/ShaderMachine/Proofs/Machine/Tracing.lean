import ShaderMachine.Proofs.Instruction.Faults
import ShaderMachine.Proofs.Machine.Budget
import ShaderMachine.Proofs.Machine.Coincidence
import ShaderMachine.Proofs.Machine.Footprint

/-!
# Tracing a run

A verbose run does what every run does, and its events tell what it has executed. `executions` lists
the instructions that a run executes without a fault, each with the word that it prints and the
stack that it leaves; it does not look at events. The events of a run are those of its executions,
one behind the other (`events_of_execute`), and every instruction that was counted is among them,
except one at which the run faults (`steps_of_execute`). `Interpreter.trace_of_run` says what
follows for invocations.
-/

namespace ShaderMachine

/-! ## What is reported -/

/-- The event reports a word that the body prints. -/
def Event.isPrint : Event → Bool
  | debugPrint _ => true
  | _ => false

/-- The offset of the instruction that the event reports as executed. -/
def Event.stepIp? : Event → Option Nat
  | step ip _ _ => some ip
  | _ => none

/-- The word that an instruction prints in a state: the top one, if it is a `debugPrint`. -/
def State.printed? (s : State) : Instruction → Option Word
  | .plain .debugPrint => s.stack.slots.back?
  | _ => none

/-- An instruction that has been executed without a fault. -/
structure Execution where
  ip : Nat
  instruction : Instruction
  /-- The word that it has printed, if it prints one. -/
  printed : Option Word
  /-- The stack that it has left. -/
  stack : Stack

/-- What is reported of an instruction: the word that it prints, and behind that, in a verbose run,
that it has been executed. -/
def Execution.events (verbose : Bool) (e : Execution) : List Event :=
  e.printed.toList.map .debugPrint ++
    if verbose then [.step e.ip e.instruction.opcode e.stack.toList] else []

/-- Without the reports of a verbose run only what is printed is left. -/
theorem Execution.filter_isPrint_events (e : Execution) :
    (e.events true).filter Event.isPrint = e.events false := by
  unfold events
  cases e.printed <;> rfl

/-- A verbose run reports each instruction once, at its offset. -/
theorem Execution.filterMap_stepIp?_events (e : Execution) :
    (e.events true).filterMap Event.stepIp? = [e.ip] := by
  unfold events
  cases e.printed <;> rfl

/-- Without the reports of a verbose run only what is printed is left, in the same order. -/
theorem filter_isPrint_executions (es : List Execution) :
    (es.flatMap (·.events true)).filter Event.isPrint = es.flatMap (·.events false) := by
  simp only [List.filter_flatMap, Execution.filter_isPrint_events]

/-- A verbose run reports the offsets of what it executes, in the same order. -/
theorem filterMap_stepIp?_executions (es : List Execution) :
    (es.flatMap (·.events true)).filterMap Event.stepIp? = es.map Execution.ip := by
  simp only [List.filterMap_flatMap, Execution.filterMap_stepIp?_events, List.map_eq_flatMap]

/-- The instruction is the one at the offset of the state, and it has printed the word that it prints
there, which exactly a `debugPrint` does. -/
structure Execution.At (e : Execution) (code : Code) (s : State) : Prop where
  ip : e.ip = s.ip
  read : ∃ next, code.readInstruction s.ip = .ok e.instruction next
  printed : e.printed = s.printed? e.instruction
  prints : e.printed.isSome ↔ e.instruction = .plain .debugPrint

/-! ## One instruction -/

namespace Exec

/-- The events show neither the stack nor the offset. -/
theorem beside_events : State.Beside State.events := ⟨fun _ _ => rfl, fun _ _ => rfl⟩

/-- Every other instruction leaves the events alone. -/
theorem keepsEvents_step {i : Instruction} (h : i ≠ .plain .debugPrint) :
    Keeps State.events (step i) := by
  by_cases hstore : i = .plain .storeGlobal
  · rw [hstore]
    have hpop : Keeps State.events pop := keeps_pop beside_events
    have hset : ∀ index w, Keeps State.events (storeGlobal index w) := by
      intro index w s
      unfold storeGlobal
      cases s.globals.set index w <;> rfl
    exact (hpop.bind fun _ => hpop.bind fun _ => hset _ _).next
  · exact keeps_step beside_events hstore h

section
variable {i : Instruction} {s t : State} {flow : Flow} {k : FaultKind}

/-- An instruction that succeeds reports the word that it prints. -/
theorem events_of_step_ok (h : step i s = .ok flow t) :
    t.events.toList = s.events.toList ++ (s.printed? i).toList.map .debugPrint := by
  by_cases hi : i = .plain .debugPrint
  · subst hi
    simp only [step, plain, pop, record, Stack.pop, Bind.bind, EStateM.bind] at h
    cases hback : s.stack.slots.back? with
    | none =>
      rw [hback] at h
      cases h
    | some w =>
      rw [hback] at h
      cases h
      rw [State.printed?, hback]
      exact Array.toList_push
  · have hkeeps := keepsEvents_step hi s
    have hprinted : s.printed? i = none := by
      unfold State.printed?
      split
      · exact absurd rfl hi
      · rfl
    rw [h] at hkeeps
    rw [hprinted, show t.events = s.events from hkeeps]
    exact (List.append_nil _).symm

/-- One that faults reports nothing. -/
theorem events_of_step_error (h : step i s = .error k t) : t.events = s.events := by
  by_cases hi : i = .plain .debugPrint
  · subst hi
    simp only [step, plain, pop, record, Stack.pop, Bind.bind, EStateM.bind] at h
    cases hback : s.stack.slots.back? with
    | none =>
      rw [hback] at h
      cases h
      rfl
    | some w =>
      rw [hback] at h
      cases h
  · have hkeeps := keepsEvents_step hi s
    rw [h] at hkeeps
    exact hkeeps

/-- A `debugPrint` that succeeds has printed a word. -/
theorem isSome_printed? (h : step i s = .ok flow t) :
    (s.printed? i).isSome ↔ i = .plain .debugPrint := by
  constructor
  · intro hprinted
    unfold State.printed? at hprinted
    split at hprinted
    · rfl
    · cases hprinted
  · rintro rfl
    simp only [step, plain, pop, Stack.pop, Bind.bind, EStateM.bind] at h
    cases hback : s.stack.slots.back? with
    | none =>
      rw [hback] at h
      cases h
    | some w => rw [State.printed?, hback, Option.isSome_some]

end

end Exec

/-- A verbose run reports an instruction behind what it has printed, and other runs report
nothing. -/
theorem State.events_observed (s : State) (verbose : Bool) (ip : Nat) (i : Instruction) :
    (s.observed verbose ip i).events.toList =
      s.events.toList ++ if verbose then [.step ip i.opcode s.stack.toList] else [] := by
  cases verbose with
  | false => exact (List.append_nil _).symm
  | true => exact Array.toList_push

/-! ## How a run stopped -/

/-- The number of instructions that a run which stops with such a fault has begun and not completed:
none if the budget did not let it begin another, and otherwise the one at which it faults. -/
def FaultKind.uncompleted : FaultKind → Nat
  | budgetExhausted _ => 0
  | _ => 1

/-- The number of instructions that a run which stops in this way has begun and not completed. -/
def Stop.uncompleted : Stop → Nat
  | .ok _ => 0
  | .error fault => fault.kind.uncompleted

/-- An instruction that cannot be read has been counted and not completed. -/
theorem FaultKind.Unreadable.uncompleted {k : FaultKind} (h : k.Unreadable) :
    k.uncompleted = 1 := by
  cases k with
  | budgetExhausted => cases h
  | _ => rfl

/-- An instruction that faults has been counted and not completed. -/
theorem Instruction.MayFault.uncompleted {i : Instruction} {k : FaultKind} (h : i.MayFault k) :
    k.uncompleted = 1 := by
  rcases h with h | ⟨sources, indices, -, -, rfl⟩
  · cases k with
    | budgetExhausted => cases h
    | _ => rfl
  · rfl

/-! ## Turns -/

/-- What a turn executes without a fault. -/
def turnExecution? (code : Code) (settings : RunSettings) (s : State) : Option Execution :=
  match code.readInstruction s.ip, turn code settings s with
  | .ok i _, (none, t) | .ok i _, (some (.ok _), t) => some ⟨s.ip, i, s.printed? i, t.stack⟩
  | _, _ => none

/-- What a run executes without a fault in so many turns, one after the other. -/
def executions (code : Code) (settings : RunSettings) : Nat → State → List Execution
  | 0, _ => []
  | turns + 1, s =>
    (turnExecution? code settings s).toList ++
      match turn code settings s with
      | (none, s) => executions code settings turns s
      | (some _, _) => []

section
variable {code : Code} {settings settings' : RunSettings} {s s' t : State} {stop : Stop}
  {turns : Nat}

/-- What a turn executes stands in front of what the turns behind it do. -/
theorem executions_of_next (h : turn code settings s = (none, t)) (turns : Nat) :
    executions code settings (turns + 1) s =
      (turnExecution? code settings s).toList ++ executions code settings turns t := by
  rw [executions, h]

/-- What the turn that stops the run executes is the last of it. -/
theorem executions_of_stop (h : turn code settings s = (some stop, t)) (turns : Nat) :
    executions code settings (turns + 1) s = (turnExecution? code settings s).toList := by
  rw [executions, h, List.append_nil]

/-- A turn that stops with a fault has executed nothing. -/
theorem turnExecution?_of_error {fault : Fault} (h : turn code settings s = (some (.error fault), t)) :
    turnExecution? code settings s = none := by
  rw [turnExecution?, h]
  cases code.readInstruction s.ip <;> rfl

/-- A turn in which an instruction succeeds has executed that. -/
theorem turnExecution?_of_step {i : Instruction} {next : Nat} {flow : Flow}
    (hspent : spentBudget? settings.budget s.steps = none)
    (hread : code.readInstruction s.ip = .ok i next)
    (hstep : Exec.step i (s.entered next) = .ok flow t) :
    turnExecution? code settings s = some ⟨s.ip, i, s.printed? i, t.stack⟩ := by
  have hstack := (t.observed_agrees settings.verbose s.ip i).stack
  cases flow with
  | next =>
    rw [turnExecution?, hread, (Turn.next hspent hread hstep).eq]
    dsimp only
    rw [hstack]
  | finish count =>
    rw [turnExecution?, hread, (Turn.finish hspent hread hstep).eq]
    dsimp only
    rw [hstack]

/-- What a turn has executed is the instruction at its offset. -/
theorem turnExecution?_eq_some {e : Execution} (h : turnExecution? code settings s = some e) :
    e.At code s := by
  rcases hturn : turn code settings s with ⟨stop?, t⟩
  cases turn_iff.2 hturn with
  | spent | unread | fault =>
    rw [turnExecution?_of_error hturn] at h
    cases h
  -- The instruction runs in the entered state, which holds the words of `s`: it prints the same.
  | @next i next _ hspent hread hstep | @finish i next _ _ hspent hread hstep =>
    rw [turnExecution?_of_step hspent hread hstep] at h
    cases h
    exact ⟨rfl, ⟨next, hread⟩, rfl, Exec.isSome_printed? (s := s.entered next) hstep⟩

/-- A turn after which execution goes on has executed something. -/
theorem exists_turnExecution (h : turn code settings s = (none, t)) :
    ∃ e, turnExecution? code settings s = some e := by
  cases turn_iff.2 h with
  | next hspent hread hstep => exact ⟨_, turnExecution?_of_step hspent hread hstep⟩

/-- **One turn.** It reports what it executes. -/
theorem events_of_turn {stop? : Option Stop} (h : turn code settings s = (stop?, t)) :
    t.events.toList = s.events.toList ++
      (turnExecution? code settings s).toList.flatMap (·.events settings.verbose) := by
  cases turn_iff.2 h with
  | spent | unread =>
    rw [turnExecution?_of_error h]
    exact (List.append_nil _).symm
  | fault _ _ hstep =>
    rw [turnExecution?_of_error h, Exec.events_of_step_error hstep]
    exact (List.append_nil _).symm
  | next hspent hread hstep | finish hspent hread hstep =>
    have hevents := Exec.events_of_step_ok hstep
    rw [turnExecution?_of_step hspent hread hstep, State.events_observed, hevents,
      List.append_assoc]
    exact congrArg _ (List.append_nil _).symm

/-- It counts what it executes, and the instruction at which it faults. -/
theorem counted_of_turn {stop? : Option Stop} (h : turn code settings s = (stop?, t)) :
    t.steps = s.steps + ((turnExecution? code settings s).toList.length +
      stop?.elim 0 Stop.uncompleted) := by
  cases turn_iff.2 h with
  | spent =>
    rw [turnExecution?_of_error h]
    rfl
  | unread hspent hread =>
    have hk := (Code.unreadable_of_readInstruction hread).uncompleted
    rw [turnExecution?_of_error h, Option.elim_some, Stop.uncompleted, hk]
    rfl
  | fault hspent hread hstep =>
    have hk := (Exec.mayFault_of_step hstep).uncompleted
    rw [turnExecution?_of_error h, Option.elim_some, Stop.uncompleted, hk]
    exact Exec.steps_of_step_error hstep
  | next hspent hread hstep | finish hspent hread hstep =>
    rw [turnExecution?_of_step hspent hread hstep]
    exact (turn_iff.2 h).steps hspent

/-- Turns that end in the same way have executed the same. -/
theorem turnExecution?_coincide (h : s.Coincides s') (hip : s.ip = s'.ip)
    (hturn : TurnsCoincide (turn code settings s) (turn code settings' s')) :
    turnExecution? code settings s = turnExecution? code settings' s' := by
  have hprinted : ∀ i, s.printed? i = s'.printed? i := by
    intro i
    unfold State.printed?
    rw [h.stack]
  unfold turnExecution?
  rw [← hip]
  generalize turn code settings s = r at hturn ⊢
  generalize turn code settings' s' = r' at hturn ⊢
  cases code.readInstruction s.ip with
  | error => cases hturn <;> rfl
  | ok i next =>
    cases hturn with
    | next ht => simp only [hprinted, ht.stack]
    | @stop stop _ _ ht =>
      cases stop with
      | error => rfl
      | ok => simp only [hprinted, ht.stack]

/-! ## Runs -/

/-- A run that stops has reported its executions behind the events it began with. The induction is
on the turns, and each adds what it executes. -/
theorem events_of_execute (h : execute code settings turns s = some (stop, t)) :
    t.events.toList = s.events.toList ++
      (executions code settings turns s).flatMap (·.events settings.verbose) := by
  induction turns generalizing s with
  | zero => cases h
  | succ turns ih =>
    rcases execute_cases h with hturn | ⟨s', hturn, h⟩
    · rw [executions_of_stop hturn, events_of_turn hturn]
    · rw [executions_of_next hturn, List.flatMap_append, ← List.append_assoc,
        ← events_of_turn hturn, ih h]

/-- A run that stops has counted its executions, and the instruction at which it faults if there is
one. -/
theorem steps_of_execute (h : execute code settings turns s = some (stop, t)) :
    t.steps = s.steps + ((executions code settings turns s).length + stop.uncompleted) := by
  induction turns generalizing s with
  | zero => cases h
  | succ turns ih =>
    rcases execute_cases h with hturn | ⟨s', hturn, h⟩
    · rw [executions_of_stop hturn, counted_of_turn hturn]
      rfl
    · have hs' : s'.steps = s.steps + (turnExecution? code settings s).toList.length :=
        counted_of_turn hturn
      rw [executions_of_next hturn, List.length_append, ih h, hs']
      omega

/-- The turn after so many others has executed what is listed at that place. -/
theorem getElem?_executions {n : Nat} {e : Execution}
    (h : (executions code settings turns s)[n]? = some e) :
    ∃ u, stateAfter code settings n s = some u ∧ e.At code u := by
  induction turns generalizing s n with
  | zero => cases h
  | succ turns ih =>
    rcases hturn : turn code settings s with ⟨_ | stop, t⟩
    · obtain ⟨e₀, he₀⟩ := exists_turnExecution hturn
      rw [executions_of_next hturn, he₀] at h
      cases n with
      | zero =>
        cases h
        exact ⟨s, rfl, turnExecution?_eq_some he₀⟩
      | succ n =>
        rw [stateAfter_of_next hturn]
        exact ih h
    · rw [executions_of_stop hturn] at h
      cases he₀ : turnExecution? code settings s with
      | none =>
        rw [he₀] at h
        cases h
      | some e₀ =>
        rw [he₀] at h
        cases n with
        | zero =>
          cases h
          exact ⟨s, rfl, turnExecution?_eq_some he₀⟩
        | succ n => cases h

/-- Runs of one body under one budget execute the same, however they are observed. -/
theorem executions_coincide {budget : Option Nat} (verbose verbose' : Bool) (h : s.Coincides s')
    (hip : s.ip = s'.ip) (turns : Nat) :
    executions code ⟨budget, verbose⟩ turns s = executions code ⟨budget, verbose'⟩ turns s' := by
  induction turns generalizing s s' with
  | zero => rfl
  | succ turns ih =>
    have hturn : TurnsCoincide (turn code ⟨budget, verbose⟩ s) (turn code ⟨budget, verbose'⟩ s') :=
      turn_coincide h hip rfl fun _ => rfl
    rw [executions, executions, turnExecution?_coincide h hip hturn]
    generalize turn code ⟨budget, verbose⟩ s = r at hturn ⊢
    generalize turn code ⟨budget, verbose'⟩ s' = r' at hturn ⊢
    cases hturn with
    | stop => rfl
    | next ht hip => exact congrArg _ (ih ht hip)

end

/-! ## Invocations -/

/-- The outcome without the events that only a verbose run reports. -/
def Outcome.untraced (o : Outcome) : Outcome := { o with events := o.events.filter Event.isPrint }

/-- Outcomes that differ in events at most are equal once these are. -/
theorem Outcome.Coincides.eq_untraced {o o' : Outcome} (h : o.Coincides o')
    (hevents : o.events.toList = o'.events.toList.filter Event.isPrint) : o = o'.untraced := by
  obtain ⟨result, args, interpreter, events⟩ := o
  obtain ⟨hresult, hargs, hinterpreter⟩ := h
  dsimp only at hresult hargs hinterpreter hevents
  subst hresult hargs hinterpreter
  have hfilter : events = o'.events.filter Event.isPrint :=
    Array.toList_inj.1 (hevents.trans Array.toList_filter.symm)
  rw [hfilter]
  rfl

/-- The event with which a verbose run reports the end of an invocation whose execution has stopped.
There is none if the words of `out` parameters cannot be copied back. -/
def Outcome.closingEvent? (o : Outcome) (f : Function) (stop : Stop) : Option Event :=
  match stop, o.result with
  | .error fault, _ => some (.invocationFaulted f.name fault o.interpreter.steps)
  | .ok count, .ok _ => some (.invocationFinished f.name count o.interpreter.steps)
  | .ok _, .error _ => none

/-- A verbose run of the function that has stopped in this way reports what it has executed. -/
structure Outcome.Traces (o : Outcome) (f : Function) (stop : Stop) (executions : List Execution) :
    Prop where
  /-- The events of the executed instructions stand between those of the invocation. -/
  events : o.events.toList = (Interpreter.openingEvents f true).toList ++
    executions.flatMap (·.events true) ++ (o.closingEvent? f stop).toList
  /-- The instructions are reported with their offsets, in the order of their execution. -/
  offsets : o.events.toList.filterMap Event.stepIp? = executions.map Execution.ip
  /-- Every instruction that was counted is reported, except one at which the run faults. -/
  steps : (o.events.toList.filterMap Event.stepIp?).length + stop.uncompleted = o.interpreter.steps

namespace Interpreter

section
variable {vm : Interpreter} {f : Function} {inv : Invocation} {turns : Nat} {o : Outcome}

/-- Runs of both kinds begin in the same state but for the events. -/
theorem startState_coincides (f : Function) (inv : Invocation) (globals : Globals) :
    (startState f inv false globals).Coincides (startState f inv true globals) :=
  ⟨⟨rfl, rfl⟩, rfl⟩

/-- An invocation that does not get to its body reports nothing. -/
theorem events_of_setup (h : vm.setup f inv = .error o) : o.events = #[] := by
  unfold setup at h
  split at h
  · cases h
    rfl
  · split at h
    · cases h
      rfl
    · cases h

/-- Leaving a frame adds the report of how the execution stopped, in a verbose run. -/
theorem events_conclude (options : Options) (f : Function) (verbose : Bool) (args : Array Word)
    (stop : Stop) (s : State) :
    let o := conclude options f verbose args stop s
    o.events.toList = s.events.toList ++
      if verbose then (o.closingEvent? f stop).toList else [] := by
  cases stop with
  | error fault =>
    cases verbose with
    | false => exact (List.append_nil _).symm
    | true => exact Array.toList_push
  | ok count =>
    unfold conclude
    dsimp only
    rcases copyOut s.stack 0 f.parameters args with ⟨_ | k, args⟩
    · cases verbose with
      | false => exact (List.append_nil _).symm
      | true => exact Array.toList_push
    · cases verbose <;> exact (List.append_nil _).symm

/-- Nothing is printed before the body runs. -/
theorem filter_isPrint_openingEvents (f : Function) :
    (openingEvents f true).toList.filter Event.isPrint = [] := by
  unfold openingEvents
  rw [if_pos rfl]
  dsimp only
  split <;> rfl

/-- No instruction is reported before the body runs. -/
theorem filterMap_stepIp?_openingEvents (f : Function) :
    (openingEvents f true).toList.filterMap Event.stepIp? = [] := by
  unfold openingEvents
  rw [if_pos rfl]
  dsimp only
  split <;> rfl

/-- Nothing is printed after the body has run. -/
theorem filter_isPrint_closingEvent? (o : Outcome) (f : Function) (stop : Stop) :
    (o.closingEvent? f stop).toList.filter Event.isPrint = [] := by
  unfold Outcome.closingEvent?
  split <;> rfl

/-- No instruction is reported after the body has run. -/
theorem filterMap_stepIp?_closingEvent? (o : Outcome) (f : Function) (stop : Stop) :
    (o.closingEvent? f stop).toList.filterMap Event.stepIp? = [] := by
  unfold Outcome.closingEvent?
  split <;> rfl

section
variable {globals : Globals} {stop : Stop} {t t' : State}

/-- A run that is not verbose reports the words that it prints. -/
theorem events_of_quiet (h : execute f.code ⟨vm.options.budget, false⟩ turns
      (startState f inv false globals) = some (stop, t)) :
    (conclude vm.options f false inv.args stop t).events.toList =
      (executions f.code ⟨vm.options.budget, false⟩ turns
        (startState f inv false globals)).flatMap (·.events false) := by
  rw [events_conclude, events_of_execute h]
  exact List.append_nil _

/-- A verbose run reports all that it executes, between the beginning of the invocation and its
end. -/
theorem traces_of_verbose (h : execute f.code ⟨vm.options.budget, true⟩ turns
      (startState f inv true globals) = some (stop, t)) :
    (conclude vm.options f true inv.args stop t).Traces f stop
      (executions f.code ⟨vm.options.budget, true⟩ turns (startState f inv true globals)) := by
  have hevents := events_of_execute h
  have hsteps := steps_of_execute h
  generalize executions f.code ⟨vm.options.budget, true⟩ turns (startState f inv true globals) = es
    at hevents hsteps ⊢
  generalize ho : conclude vm.options f true inv.args stop t = o
  have hconclude : o.events.toList = t.events.toList ++ (o.closingEvent? f stop).toList := by
    rw [← ho]
    exact events_conclude ..
  have hcounted : o.interpreter.steps = es.length + stop.uncompleted := by
    rw [← ho, interpreter_conclude, hsteps]
    exact Nat.zero_add _
  rw [hevents] at hconclude
  have hoffsets : o.events.toList.filterMap Event.stepIp? = es.map Execution.ip := by
    have hopening : (startState f inv true globals).events.toList.filterMap Event.stepIp? = [] :=
      filterMap_stepIp?_openingEvents f
    rw [hconclude, List.filterMap_append, List.filterMap_append, hopening,
      filterMap_stepIp?_executions, filterMap_stepIp?_closingEvent?, List.append_nil,
      List.nil_append]
  exact ⟨hconclude, hoffsets, by rw [hoffsets, List.length_map, hcounted]⟩

/-- Without the events that only a verbose run reports, its outcome is that of any other run. -/
theorem conclude_untraced (h : execute f.code ⟨vm.options.budget, false⟩ turns
      (startState f inv false globals) = some (stop, t))
    (h' : execute f.code ⟨vm.options.budget, true⟩ turns
      (startState f inv true globals) = some (stop, t')) (ht : t.Coincides t') :
    conclude vm.options f false inv.args stop t =
      (conclude vm.options f true inv.args stop t').untraced := by
  have hexecutions : executions f.code ⟨vm.options.budget, false⟩ turns
      (startState f inv false globals) = executions f.code ⟨vm.options.budget, true⟩ turns
        (startState f inv true globals) :=
    executions_coincide false true (startState_coincides f inv globals) rfl turns
  refine (conclude_coincide rfl ht).eq_untraced ?_
  rw [events_of_quiet h, (traces_of_verbose h').events, List.filter_append, List.filter_append,
    filter_isPrint_openingEvents, filter_isPrint_executions, filter_isPrint_closingEvent?,
    List.append_nil, List.nil_append, hexecutions]

end

/-- Without the events that only a verbose run reports it is as any other run. -/
theorem run_untraced (vm : Interpreter) (f : Function) (inv : Invocation) (turns : Nat) :
    vm.run f inv false turns = (vm.run f inv true turns).map Outcome.untraced := by
  rw [run_eq, run_eq]
  cases hsetup : vm.setup f inv with
  | error o =>
    have hevents : o.events.toList = o.events.toList.filter Event.isPrint := by
      rw [events_of_setup hsetup]
      rfl
    exact congrArg some (Outcome.Coincides.eq_untraced ⟨rfl, rfl, rfl⟩ hevents)
  | ok globals =>
    have hexecute : Option.Rel StopsCoincide
        (execute f.code ⟨vm.options.budget, false⟩ turns (startState f inv false globals))
        (execute f.code ⟨vm.options.budget, true⟩ turns (startState f inv true globals)) :=
      execute_coincide false true (startState_coincides f inv globals) rfl turns
    dsimp only
    generalize hquiet : execute f.code ⟨vm.options.budget, false⟩ turns
      (startState f inv false globals) = r at hexecute ⊢
    generalize hverbose : execute f.code ⟨vm.options.budget, true⟩ turns
      (startState f inv true globals) = r' at hexecute ⊢
    cases hexecute with
    | none => rfl
    | @some stopped stopped' h =>
      obtain ⟨stop, t⟩ := stopped
      obtain ⟨stop', t'⟩ := stopped'
      obtain ⟨rfl, ht⟩ := h
      exact congrArg some (conclude_untraced hquiet hverbose ht)

/-- **Tracing only observes.** An invocation comes to the same whether it is verbose or not, and
prints the same words. If it is verbose and the body runs, then its events are those of the
instructions executed without a fault, one behind the other, each a `step` event and immediately
before that the word that the instruction prints. These are as many as were counted, but for one at
which the body faults, and the one after `n` others is that at the offset of the state after `n`
turns. -/
theorem trace_of_run (vm : Interpreter) (f : Function) (inv : Invocation) (turns : Nat) :
    vm.run f inv false turns = (vm.run f inv true turns).map Outcome.untraced ∧
    ∀ o, vm.run f inv true turns = some o → f.Accepts inv →
      let settings : RunSettings := ⟨vm.options.budget, true⟩
      let start := startState f inv true (f.layout.start inv.inputs).2
      let es := executions f.code settings turns start
      ∃ stop t, execute f.code settings turns start = some (stop, t) ∧
        o = conclude vm.options f true inv.args stop t ∧ o.Traces f stop es ∧
        ∀ n e, es[n]? = some e →
          ∃ s, ShaderMachine.stateAfter f.code settings n start = some s ∧ e.At f.code s := by
  refine ⟨run_untraced vm f inv turns, fun o ho haccepts => ?_⟩
  intro settings start es
  rcases run_eq_some_iff.1 ho with hsetup | ⟨globals, stop, t, hsetup, hexecute, rfl⟩
  · rw [setup_eq_ok_iff.2 ⟨haccepts, rfl⟩] at hsetup
    cases hsetup
  · obtain ⟨-, rfl⟩ := setup_eq_ok_iff.1 hsetup
    exact ⟨stop, t, hexecute, rfl, traces_of_verbose hexecute, fun n e => getElem?_executions⟩

end

/-- A function that prints its parameter twice, and then faults for want of a word to be printed. -/
def echoFunction : Function := ⟨"echo", [⟨1, false⟩], 0, #[26, 22, 22, 22], ⟨0, []⟩⟩

/-- Three instructions are reported of four that are counted, for the last one faults. -/
theorem trace_of_echoFunction :
    echoFunction.Accepts ⟨#[⟨7⟩], #[]⟩ ∧
      ∃ o, ({} : Interpreter).run echoFunction ⟨#[⟨7⟩], #[]⟩ true 4 = some o ∧
        ({} : Interpreter).run echoFunction ⟨#[⟨7⟩], #[]⟩ false 4 = some o.untraced ∧
        o.events.toList.filterMap Event.stepIp? = [0, 1, 2] ∧ o.interpreter.steps = 4 := by
  have haccepts : echoFunction.Accepts ⟨#[⟨7⟩], #[]⟩ := ⟨by decide, rfl, nofun⟩
  obtain ⟨huntraced, htrace⟩ := trace_of_run {} echoFunction ⟨#[⟨7⟩], #[]⟩ 4
  obtain ⟨o, ho⟩ : ∃ o, ({} : Interpreter).run echoFunction ⟨#[⟨7⟩], #[]⟩ true 4 = some o :=
    Option.isSome_iff_exists.1 (by decide +kernel)
  obtain ⟨stop, t, hexecute, -, htraces, -⟩ := htrace o ho haccepts
  have hstop : (execute echoFunction.code ⟨none, true⟩ 4
      (startState echoFunction ⟨#[⟨7⟩], #[]⟩ true {})).map Prod.fst =
        some (.error ⟨some 3, .stackUnderflow⟩) := by
    decide +kernel
  have hips : (executions echoFunction.code ⟨none, true⟩ 4
      (startState echoFunction ⟨#[⟨7⟩], #[]⟩ true {})).map Execution.ip = [0, 1, 2] := by
    decide +kernel
  obtain rfl : stop = .error ⟨some 3, .stackUnderflow⟩ :=
    Option.some.inj ((congrArg (Option.map Prod.fst) hexecute).symm.trans hstop)
  have hoffsets : o.events.toList.filterMap Event.stepIp? = [0, 1, 2] := htraces.offsets.trans hips
  have hsteps := htraces.steps
  rw [hoffsets] at hsteps
  exact ⟨haccepts, o, ho, huntraced.trans (congrArg _ ho), hoffsets, hsteps.symm⟩

end Interpreter

end ShaderMachine
