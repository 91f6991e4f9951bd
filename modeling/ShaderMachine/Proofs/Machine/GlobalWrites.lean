import ShaderMachine.Proofs.Machine.Footprint
import ShaderMachine.Proofs.Machine.Invocation
import ShaderMachine.Proofs.Machine.Prefix
import ShaderMachine.Proofs.Memory.Writes

/-!
# Who writes to the globals

Only `storeGlobal` changes the global table, and only if it succeeds. `Exec.globalEffect_step` says
this of every instruction. A run therefore leaves the table with which it began, with the writes of
its `storeGlobal` instructions replayed on it in the order of their execution
(`Interpreter.globals_of_run`): no other instruction, no fault and no copying back of `out`
parameters shows in the globals.
-/

namespace ShaderMachine

/-- The write to the globals that an instruction makes in a state: `storeGlobal` writes the top word
to the slot that the word beneath it names, if there are both words and the slot. -/
def State.globalWrite? (s : State) : Instruction → Option (Nat × Word)
  | .plain .storeGlobal =>
    match s.stack.peek 0, s.stack.peek 1 with
    | .ok w, .ok address =>
      if Slots.InBounds s.globals.slots address.toInt then some (address.toInt.toNat, w) else none
    | _, _ => none
  | _ => none

/-- No other instruction writes to the globals. -/
theorem State.globalWrite?_of_ne {i : Instruction} (h : i ≠ .plain .storeGlobal) (s : State) :
    s.globalWrite? i = none := by
  unfold globalWrite?
  split
  · exact absurd rfl h
  · rfl

namespace Stack

section
variable {s below : Stack} {w : Word} {k : FaultKind}

/-- What was popped stood on top of the rest. -/
theorem eq_push_of_pop (h : s.pop = .ok (w, below)) : s = below.push w := by
  unfold pop at h
  split at h
  · cases h
    obtain ⟨slots, hslots⟩ := Array.back?_eq_some_iff.1 ‹_›
    rw [hslots, Array.pop_push]
    exact congrArg mk hslots
  · cases h

/-- Where nothing can be popped there is no top word. -/
theorem peek_zero_of_pop_error (h : s.pop = .error k) : s.peek 0 = .error k :=
  peek_eq_error_iff.2 (pop_eq_error_iff.1 h)

/-- The word that is popped is the one on top. -/
theorem peek_zero_of_pop (h : s.pop = .ok (w, below)) : s.peek 0 = .ok w := by
  rw [eq_push_of_pop h]
  simp [peek, push]

/-- What stands beneath the top is found in the rest. -/
theorem peek_succ_of_pop (h : s.pop = .ok (w, below)) (depth : Nat) :
    s.peek (depth + 1) = below.peek depth := by
  rw [eq_push_of_pop h, peek, peek]
  have hsize : (below.push w).slots.size = below.slots.size + 1 := Array.size_push w
  by_cases hdepth : depth < below.slots.size
  · have hindex : below.slots.size + 1 - (depth + 1) - 1 = below.slots.size - depth - 1 := by omega
    simp only [hsize, Nat.add_lt_add_iff_right, dif_pos hdepth, hindex]
    exact congrArg _ (Array.getElem_push_lt _)
  · simp only [hsize, Nat.add_lt_add_iff_right, dif_neg hdepth]

end

end Stack

namespace Exec

/-- What an instruction does to the globals: nothing, whether it succeeds or not, unless it is a
`storeGlobal` that succeeds. -/
inductive GlobalEffect (i : Instruction) (s : State) : EStateM.Result FaultKind State Flow → Prop
  | kept {flow t} : i ≠ .plain .storeGlobal → t.globals = s.globals →
      GlobalEffect i s (.ok flow t)
  | stored {flow t write} : i = .plain .storeGlobal → s.globalWrite? i = some write →
      t.globals = s.globals.written [write] → GlobalEffect i s (.ok flow t)
  | faulted {k t} : s.globalWrite? i = none → t.globals = s.globals →
      GlobalEffect i s (.error k t)

/-- However the computation ends, the globals are as they were. -/
def KeepsGlobals {α : Type} (x : Exec α) : Prop :=
  ∀ s, match x s with
    | .ok _ t | .error _ t => t.globals = s.globals

/-- The globals show neither the stack nor the offset. -/
theorem beside_globals : State.Beside State.globals := ⟨fun _ _ => rfl, fun _ _ => rfl⟩

/-- Every other instruction leaves the globals alone, `debugPrint` included. -/
theorem keepsGlobals_step {i : Instruction} (h : i ≠ .plain .storeGlobal) :
    KeepsGlobals (step i) := by
  by_cases hprint : i = .plain .debugPrint
  · rw [hprint]
    have hpop : Keeps State.globals pop := keeps_pop beside_globals
    exact Keeps.next (hpop.bind fun _ _ => rfl)
  · exact keeps_step beside_globals h hprint

/-! ## The write of an instruction -/

/-- A `storeGlobal` lacks a word, or the slot, or else it makes its write. -/
theorem globalEffect_storeGlobal (s : State) :
    GlobalEffect (.plain .storeGlobal) s (step (.plain .storeGlobal) s) := by
  simp only [step, plain, pop, storeGlobal, Bind.bind, EStateM.bind]
  cases hpop : s.stack.pop with
  | error k =>
    have hword := Stack.peek_zero_of_pop_error hpop
    exact .faulted (by simp only [State.globalWrite?, hword]) rfl
  | ok popped =>
    obtain ⟨w, below⟩ := popped
    have hword := Stack.peek_zero_of_pop hpop
    have hbelow := Stack.peek_succ_of_pop hpop 0
    dsimp only
    cases hpop' : below.pop with
    | error k =>
      have haddress := hbelow.trans (Stack.peek_zero_of_pop_error hpop')
      exact .faulted (by simp only [State.globalWrite?, hword, haddress]) rfl
    | ok popped =>
      obtain ⟨address, rest⟩ := popped
      have haddress := hbelow.trans (Stack.peek_zero_of_pop hpop')
      dsimp only
      cases hset : s.globals.set address.toInt w with
      | error k =>
        refine .faulted ?_ rfl
        simp only [State.globalWrite?, hword, haddress]
        exact if_neg (Globals.set_eq_error_iff.1 hset).1
      | ok globals =>
        obtain ⟨hbounds, hglobals⟩ := Globals.set_eq_ok_iff.1 hset
        refine .stored rfl ?_ hglobals
        simp only [State.globalWrite?, hword, haddress]
        exact if_pos hbounds

/-- **One instruction.** A `storeGlobal` that succeeds makes its write; nothing else shows in the
globals. -/
theorem globalEffect_step (i : Instruction) (s : State) : GlobalEffect i s (step i s) := by
  by_cases hi : i = .plain .storeGlobal
  · rw [hi]
    exact globalEffect_storeGlobal s
  · have hkeeps := keepsGlobals_step hi s
    generalize step i s = r at hkeeps
    cases r with
    | ok flow t => exact .kept hi hkeeps
    | error k t => exact .faulted (State.globalWrite?_of_ne hi s) hkeeps

section
variable {i : Instruction} {s t : State} {flow : Flow} {k : FaultKind}

/-- An instruction that succeeds leaves the globals with its write made, if it has one. -/
theorem globals_of_step_ok (h : step i s = .ok flow t) :
    t.globals = s.globals.written (s.globalWrite? i).toList := by
  have heffect := globalEffect_step i s
  rw [h] at heffect
  cases heffect with
  | kept hi hglobals => rw [hglobals, State.globalWrite?_of_ne hi]; rfl
  | stored _ hwrite hglobals => rw [hglobals, hwrite]; rfl

/-- An instruction that faults has no write to make. -/
theorem globals_of_step_error (h : step i s = .error k t) :
    t.globals = s.globals.written (s.globalWrite? i).toList := by
  have heffect := globalEffect_step i s
  rw [h] at heffect
  cases heffect with
  | faulted hwrite hglobals => rw [hglobals, hwrite]; rfl

end

end Exec

/-! ## Runs -/

/-- The write to the globals that a turn makes. -/
def turnWrite? (code : Code) (settings : RunSettings) (s : State) : Option (Nat × Word) :=
  match spentBudget? settings.budget s.steps, code.readInstruction s.ip with
  | none, .ok i _ => s.globalWrite? i
  | _, _ => none

/-- The writes to the globals that a run makes in so many turns, one after the other. -/
def globalWrites (code : Code) (settings : RunSettings) : Nat → State → List (Nat × Word)
  | 0, _ => []
  | turns + 1, s =>
    (turnWrite? code settings s).toList ++
      match turn code settings s with
      | (none, s) => globalWrites code settings turns s
      | (some _, _) => []

section
variable {code : Code} {settings : RunSettings} {turns : Nat} {s t : State} {stop : Stop}

/-- The write of a turn that goes on stands in front of the writes that follow. -/
theorem globalWrites_of_next (h : turn code settings s = (none, t)) (turns : Nat) :
    globalWrites code settings (turns + 1) s =
      (turnWrite? code settings s).toList ++ globalWrites code settings turns t := by
  rw [globalWrites, h]

/-- The write of a turn that stops the run is the last one. -/
theorem globalWrites_of_stop (h : turn code settings s = (some stop, t)) (turns : Nat) :
    globalWrites code settings (turns + 1) s = (turnWrite? code settings s).toList := by
  rw [globalWrites, h, List.append_nil]

/-- **One turn.** It makes its write and leaves the globals alone otherwise. -/
theorem globals_of_turn {stop? : Option Stop} (h : turn code settings s = (stop?, t)) :
    t.globals = s.globals.written (turnWrite? code settings s).toList := by
  cases turn_iff.2 h with
  | spent hspent => simp only [turnWrite?, hspent]; rfl
  | unread hspent hread => simp only [turnWrite?, hspent, hread]; rfl
  -- The instruction runs in the entered state, which holds the words of `s`: its write is the same.
  | @fault i next k t hspent hread hstep =>
    simp only [turnWrite?, hspent, hread]
    exact Exec.globals_of_step_error (s := s.entered next) hstep
  | @next i next t hspent hread hstep | @finish i next _ t hspent hread hstep =>
    simp only [turnWrite?, hspent, hread]
    rw [(t.observed_agrees settings.verbose s.ip i).globals]
    exact Exec.globals_of_step_ok (s := s.entered next) hstep

/-- After so many turns the globals are those at the start with the writes of these turns. The
induction is on the turns, from the first of them on. -/
theorem globals_of_stateAfter (h : stateAfter code settings turns s = some t) :
    t.globals = s.globals.written (globalWrites code settings turns s) := by
  induction turns generalizing s with
  | zero =>
    cases h
    rfl
  | succ turns ih =>
    obtain ⟨s', hturn, h⟩ := exists_next_of_stateAfter h
    rw [globalWrites_of_next hturn, Globals.written_append, ← globals_of_turn hturn, ih h]

/-- A run that stops leaves the globals with its writes, the one of its last turn included. -/
theorem globals_of_execute (h : execute code settings turns s = some (stop, t)) :
    t.globals = s.globals.written (globalWrites code settings turns s) := by
  induction turns generalizing s with
  | zero => cases h
  | succ turns ih =>
    rcases execute_cases h with hturn | ⟨s', hturn, h⟩
    · rw [globalWrites_of_stop hturn, globals_of_turn hturn]
    · rw [globalWrites_of_next hturn, Globals.written_append, ← globals_of_turn hturn, ih h]

end

namespace Interpreter

/-- **The globals of a run.** A `storeGlobal` that succeeds writes to the slot on the stack, and no
other instruction and no fault changes the globals. A run begins with uninitialized globals to which
the inputs have been written, where the last input of a slot counts. In every state of the run,
where it stops and where the invocation has been concluded, the globals are these with the writes of
the instructions executed so far. -/
theorem globals_of_run :
    (∀ (i : Instruction) (s : State), Exec.GlobalEffect i s (Exec.step i s)) ∧
    ∀ (vm : Interpreter) (f : Function) (inv : Invocation) (verbose : Bool), f.Accepts inv →
      let settings : RunSettings := ⟨vm.options.budget, verbose⟩
      let start := startState f inv verbose (f.layout.start inv.inputs).2
      start.globals =
        (Globals.filled f.layout.globalCount .uninitialized).written (f.inputWrites inv) ∧
      (∀ slot < f.layout.globalCount, start.globals.slots[slot]? =
        some (((f.inputWrites inv).reverse.lookup slot).getD .uninitialized)) ∧
      ∀ turns,
        let table := start.globals.written (globalWrites f.code settings turns start)
        table.size = f.layout.globalCount ∧
        (∀ s, ShaderMachine.stateAfter f.code settings turns start = some s → s.globals = table) ∧
        (∀ stop s, execute f.code settings turns start = some (stop, s) → s.globals = table) ∧
        ∀ o, vm.run f inv verbose turns = some o → o.interpreter.globals = table := by
  refine ⟨Exec.globalEffect_step, fun vm f inv verbose haccepts => ?_⟩
  intro settings start
  have hstart : start.globals =
      (Globals.filled f.layout.globalCount .uninitialized).written (f.inputWrites inv) :=
    Function.globals_start haccepts
  have hfilled : (Globals.filled f.layout.globalCount .uninitialized).size = f.layout.globalCount :=
    Array.size_replicate
  refine ⟨hstart, fun slot hslot => ?_, fun turns => ?_⟩
  · have huninitialized : (Globals.filled f.layout.globalCount .uninitialized).slots[slot]? =
        some .uninitialized := Array.getElem?_replicate.trans (if_pos hslot)
    rw [hstart, Globals.getElem?_written (hfilled.symm ▸ hslot), huninitialized]
    cases (f.inputWrites inv).reverse.lookup slot <;> rfl
  · intro table
    refine ⟨?_, fun s => globals_of_stateAfter, fun stop s => globals_of_execute, fun o ho => ?_⟩
    · rw [Globals.size_written, hstart, Globals.size_written, hfilled]
    · rcases run_eq_some_iff.1 ho with hsetup | ⟨globals, stop, s, hsetup, hexecute, rfl⟩
      · rw [setup_eq_ok_iff.2 ⟨haccepts, rfl⟩] at hsetup
        cases hsetup
      · obtain ⟨-, rfl⟩ := setup_eq_ok_iff.1 hsetup
        -- Copying back writes to the arguments only.
        rw [interpreter_conclude]
        exact globals_of_execute hexecute

/-- A function whose two inputs have one slot. It stores the word that it finds there to the slot
that its parameter names, and then faults as it stores it to the slot that it names itself. -/
def publishFunction : Function :=
  ⟨"publish", [⟨1, false⟩], 0, #[30, 1, 49, 30, 1, 26, 49], ⟨2, [1, 1]⟩⟩

/-- The last of two inputs for one slot is what the body finds there, and the store that faults
leaves no trace. -/
theorem globals_of_publishFunction :
    publishFunction.Accepts ⟨#[⟨0⟩], #[⟨8⟩, ⟨5⟩]⟩ ∧
      publishFunction.inputWrites ⟨#[⟨0⟩], #[⟨8⟩, ⟨5⟩]⟩ = [(1, ⟨8⟩), (1, ⟨5⟩)] ∧
      ∃ o, ({} : Interpreter).run publishFunction ⟨#[⟨0⟩], #[⟨8⟩, ⟨5⟩]⟩ false 5 = some o ∧
        o.result = .error ⟨some 6, .outOfBounds .globals 5 2⟩ ∧
        o.interpreter.globals = (Globals.filled 2 .uninitialized).written
          ([(1, ⟨8⟩), (1, ⟨5⟩)] ++ [(0, ⟨5⟩)]) := by
  have haccepts : publishFunction.Accepts ⟨#[⟨0⟩], #[⟨8⟩, ⟨5⟩]⟩ :=
    Function.accepts_iff.2 ⟨rfl, rfl⟩
  obtain ⟨hstart, -, hrun⟩ := globals_of_run.2 {} publishFunction _ false haccepts
  have hwrites : globalWrites publishFunction.code ⟨none, false⟩ 5
      (startState publishFunction ⟨#[⟨0⟩], #[⟨8⟩, ⟨5⟩]⟩ false
        (publishFunction.layout.start #[⟨8⟩, ⟨5⟩]).2) = [(0, ⟨5⟩)] := by
    decide +kernel
  obtain ⟨o, ho, hresult⟩ : ∃ o,
      ({} : Interpreter).run publishFunction ⟨#[⟨0⟩], #[⟨8⟩, ⟨5⟩]⟩ false 5 = some o ∧
        o.result = .error ⟨some 6, .outOfBounds .globals 5 2⟩ := ⟨_, rfl, rfl⟩
  refine ⟨haccepts, rfl, o, ho, hresult, ?_⟩
  obtain ⟨-, -, -, hglobals⟩ := hrun 5
  rw [Globals.written_append, hglobals o ho, hwrites, hstart]
  rfl

end Interpreter

end ShaderMachine
