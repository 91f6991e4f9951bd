import ShaderMachine.Proofs.Checked.Reading
import ShaderMachine.Proofs.Checked.Step
import ShaderMachine.Proofs.Machine.Budget
import ShaderMachine.Proofs.Machine.Convention

/-!
# Invocations with raw accesses

Invocations with the raw accesses spelled out: the sums that count the slots of the parameters and
the instructions, the parts cut out of the arguments and out of the stack that is left, and the
arguments to which words are copied back. `Interpreter.checked_run_eq` says that an invocation comes
to the same as without raw accesses, so that it never ends in a violation, whatever its body does.

Each access is covered by a fact from elsewhere. The offset in a body stays below its size or below
the largest target (`ip_le_of_turn`), so that adding the size of an operand to it does not overflow.
A budget of 64 bits is spent before the count of instructions overflows. A `return` leaves as many
words on the stack as it hands back (`le_size_of_execute`), and the slots of the parameters, to
which words are copied back, are among the arguments because these were counted before.
-/

namespace ShaderMachine.Checked

/-! ## Executing -/

/-- One round of execution, and how it ended execution if it did. -/
def turn (code : Code) (settings : RunSettings) (s : State) :
    Except Violation (Option Stop × State) :=
  let ip := s.ip
  match spentBudget? settings.budget s.steps with
  | some limit => return (some (.error ⟨some ip, .budgetExhausted limit⟩), s)
  | none => do
    let steps ← Raw.add s.steps 1
    let s := { s with steps := steps }
    match ← attempt (readInstruction code) ip with
    | .error kind _ => return (some (.error ⟨some ip, kind⟩), s)
    | .ok i next => do
      match ← attempt (step i) { s with ip := next } with
      | .error kind s => return (some (.error ⟨some ip, kind⟩), s)
      | .ok flow s =>
        let s := s.observed settings.verbose ip i
        match flow with
        | .next => return (none, s)
        | .finish count => return (some (.ok count), s)

/-- Runs a body for at most `turns` rounds. -/
def execute (code : Code) (settings : RunSettings) :
    Nat → State → Except Violation (Option (Stop × State))
  | 0, _ => return none
  | turns + 1, s => do
    match ← turn code settings s with
    | (some stop, s) => return some (stop, s)
    | (none, s) => execute code settings turns s

/-! ## Entering and leaving a frame -/

/-- The slots that all parameters occupy together. -/
def parameterSlots (f : Function) : Except Violation Nat :=
  f.parameters.foldlM (fun slots p => Raw.add slots p.width.toNat) 0

/-- Writes the inputs into their slots, in order, up to the first slot that does not exist. -/
def fillGlobals : List (UInt64 × Word) → Globals → Except Violation (Option FaultKind × Globals)
  | [], g => return (none, g)
  | (slot, w) :: rest, g => do
    match ← settle (writeSlot .globals g.slots slot.toInt64.toInt w) with
    | .ok slots => fillGlobals rest ⟨slots⟩
    | .error k => return (some k, g)

/-- Copies the words of `width` slots of the stack into the arguments, up to the first slot that the
stack does not have. -/
def copySlots (stack : Stack) (offset : Nat) :
    Nat → Array Word → Except Violation (Option FaultKind × Array Word)
  | 0, args => return (none, args)
  | width + 1, args => do
    match ← settle (readSlot .stack stack.slots offset) with
    | .ok w => do
      let args ← Raw.set args offset w
      copySlots stack (offset + 1) width args
    | .error k => return (some k, args)

/-- Copies the words of `out` parameters from the stack into the arguments. -/
def copyOut (stack : Stack) (offset : Nat) :
    List Parameter → Array Word → Except Violation (Option FaultKind × Array Word)
  | [], args => return (none, args)
  | p :: parameters, args => do
    let next ← Raw.add offset p.width.toNat
    if p.out then do
      match ← copySlots stack offset p.width.toNat args with
      | (none, args) => copyOut stack next parameters args
      | (some k, args) => return (some k, args)
    else copyOut stack next parameters args

/-! ## Invocations -/

/-- The instructions from an offset on, of which there are no more than bytes, and the fault that
ends the walk early, if any. -/
def instructionsFrom (code : Code) :
    Nat → Nat → Except Violation (List (Nat × Instruction) × Option Fault)
  | 0, _ => return ([], none)
  | bytes + 1, ip =>
    if code.size ≤ ip then return ([], none)
    else do
      match ← attempt (readInstruction code) ip with
      | .error kind _ => return ([], some ⟨some ip, kind⟩)
      | .ok i next => do
        let (rest, fault) ← instructionsFrom code bytes next
        return ((ip, i) :: rest, fault)

/-- The events with which an invocation begins. -/
def openingEvents (f : Function) (slots : Nat) (verbose : Bool) :
    Except Violation (Array Event) :=
  if verbose then do
    let start := Event.invocationStart f.name slots f.localCount f.layout.globalCount
    match ← instructionsFrom f.code f.code.size 0 with
    | (_, some _) => return #[start]
    | (lines, none) =>
      let lines := lines.map fun (ip, i) => Numeral.natText ip ++ ": " ++ i.text ++ "\n"
      return #[start, .body f.name (String.join lines)]
  else return #[]

/-- The outcome of an invocation whose execution has stopped. -/
def conclude (options : Options) (f : Function) (verbose : Bool) (args : Array Word) (stop : Stop)
    (s : State) : Except Violation Outcome :=
  let interpreter : Interpreter := ⟨options, s.stack, s.globals, s.steps⟩
  match stop with
  | .error fault =>
    let event := Event.invocationFaulted f.name fault s.steps
    return ⟨.error fault, args, interpreter, Interpreter.whenVerbose verbose s.events event⟩
  | .ok count => do
    match ← copyOut s.stack 0 f.parameters args with
    | (some kind, args) => return ⟨.error ⟨none, kind⟩, args, interpreter, s.events⟩
    | (none, args) => do
      let event := Event.invocationFinished f.name count s.steps
      let results ← Raw.slice s.stack.slots 0 count
      return ⟨.ok results.toList, args, interpreter,
        Interpreter.whenVerbose verbose s.events event⟩

/-- The outcome of an invocation that is refused for its number of words. -/
def refuse (vm : Interpreter) (inv : Invocation) (kind : FaultKind) : Outcome :=
  ⟨.error ⟨none, kind⟩, inv.args, { vm with steps := 0 }, #[]⟩

/-- Runs a function for at most `turns` rounds. -/
def run (vm : Interpreter) (f : Function) (inv : Invocation) (verbose : Bool) (turns : Nat) :
    Except Violation (Option Outcome) := do
  let expected ← parameterSlots f
  if inv.args.size < expected then
    return some (refuse vm inv (.argumentCount expected inv.args.size))
  else if inv.inputs.size ≠ f.layout.inputSlots.length then
    return some (refuse vm inv (.inputCount f.layout.inputSlots.length inv.inputs.size))
  else do
    let parameters ← Raw.slice inv.args 0 expected
    let stack : Stack := ⟨parameters ++ Array.replicate f.localCount Word.uninitialized⟩
    match ← fillGlobals (f.layout.inputSlots.zip inv.inputs.toList)
        (.filled f.layout.globalCount .uninitialized) with
    | (some kind, globals) =>
      return some ⟨.error ⟨none, kind⟩, inv.args, ⟨vm.options, stack, globals, 0⟩, #[]⟩
    | (none, globals) => do
      let events ← openingEvents f expected verbose
      match ← execute f.code ⟨vm.options.budget, verbose⟩ turns ⟨0, 0, stack, globals, events⟩ with
      | some (stop, s) => do
        let outcome ← conclude vm.options f verbose inv.args stop s
        return some outcome
      | none => return none

/-! ## Comparing executions -/

section
variable {code : Code} {settings : RunSettings} {s t : State}

/-- The largest offset at which a turn can begin: the end of the body or the largest target. -/
def maxOffset (code : Code) : Nat := max code.size (UInt16.size - 1)

/-- A turn goes on within the body or at a target. -/
theorem ip_le_of_turn (h : ShaderMachine.turn code settings s = (none, t)) :
    t.ip ≤ maxOffset code := by
  cases turn_iff.2 h with
  | @next i next u _ hread hstep =>
    rw [State.observed_ip]
    rcases Exec.ip_of_step hstep with hip | ⟨target, -, hip⟩
    · rw [hip]
      exact Nat.le_trans (Code.readInstruction_le_size hread) (Nat.le_max_left _ _)
    · rw [hip]
      exact Nat.le_trans (Nat.le_sub_one_of_lt target.toNat_lt) (Nat.le_max_right _ _)

/-- An offset that a turn can begin at leaves room for the longest operands. -/
theorem attempt_readInstruction (hcode : code.size < 2 ^ 63) {ip : Nat}
    (hip : ip ≤ maxOffset code) :
    attempt (readInstruction code) ip = .ok (code.readInstruction ip) := by
  have hlimit : maxOffset code + 256 ≤ UInt64.size := by
    unfold maxOffset UInt16.size UInt64.size
    omega
  exact (reads_readInstruction (Nat.le_max_left _ _) hlimit).attempt_eq hip

/-- A turn that can be counted comes to the same with raw accesses. -/
theorem turn_eq (hcode : code.size < 2 ^ 63) (hip : s.ip ≤ maxOffset code)
    (hsteps : spentBudget? settings.budget s.steps = none → s.steps + 1 < UInt64.size) :
    turn code settings s = .ok (ShaderMachine.turn code settings s) := by
  unfold turn ShaderMachine.turn
  dsimp only
  cases hspent : spentBudget? settings.budget s.steps with
  | some limit => rfl
  | none =>
    dsimp only
    rw [bind_ok (Raw.add_eq_ok (hsteps hspent)), bind_ok (attempt_readInstruction hcode hip)]
    cases hread : code.readInstruction s.ip with
    | error kind ip => rfl
    | ok i next =>
      have hfits : i.Fits := (Code.readInstruction_eq_ok_iff.1 hread).1
      dsimp only
      rw [step_eq hfits, bind_ok (attempt_lift _ _)]
      generalize Exec.step i _ = r
      cases r with
      | error kind t => rfl
      | ok flow t => cases flow <;> rfl

/-- The instructions of so many turns can be counted with 64 bits, or there is a budget that has as
many and is spent before. -/
structure Countable (budget : Option Nat) (steps turns : Nat) : Prop where
  limited : ∀ limit, budget = some limit → limit < UInt64.size
  unlimited : budget = none → steps + turns < UInt64.size

/-- While turns are left, one more instruction can be counted. -/
theorem Countable.lt {turns : Nat} (h : Countable settings.budget s.steps (turns + 1))
    (hspent : spentBudget? settings.budget s.steps = none) : s.steps + 1 < UInt64.size := by
  cases hbudget : settings.budget with
  | none =>
    have hlt := h.unlimited hbudget
    omega
  | some limit =>
    have hlimit := h.limited limit hbudget
    have hlt : ¬ limit ≤ s.steps := fun hle => by
      rw [hbudget, spentBudget?, if_pos hle] at hspent
      cases hspent
    omega

/-- A turn that goes on counts one instruction, and there is one turn less to count. -/
theorem Countable.next {turns : Nat} (h : Countable settings.budget s.steps (turns + 1))
    (hturn : ShaderMachine.turn code settings s = (none, t)) :
    Countable settings.budget t.steps turns := by
  refine ⟨h.limited, fun hbudget => ?_⟩
  have hsteps : t.steps = s.steps + 1 :=
    (turn_iff.2 hturn).steps (spentBudget?_eq_none hbudget s.steps)
  have hlt := h.unlimited hbudget
  omega

/-- A run whose instructions can be counted comes to the same with raw accesses. -/
theorem execute_eq (hcode : code.size < 2 ^ 63) {turns : Nat} (hip : s.ip ≤ maxOffset code)
    (hcount : Countable settings.budget s.steps turns) :
    execute code settings turns s = .ok (ShaderMachine.execute code settings turns s) := by
  induction turns generalizing s with
  | zero => rfl
  | succ turns ih =>
    rw [execute, ShaderMachine.execute, bind_ok (turn_eq hcode hip hcount.lt)]
    rcases hturn : ShaderMachine.turn code settings s with ⟨_ | stop, t⟩
    · exact ih (ip_le_of_turn hturn) (hcount.next hturn)
    · rfl

/-- A run that returns leaves at least as many words on the stack as it hands back. -/
theorem le_size_of_execute {turns count : Nat}
    (h : ShaderMachine.execute code settings turns s = some (.ok count, t)) :
    count ≤ t.stack.size := by
  obtain ⟨s', -, hturn⟩ := exists_reaches_of_execute h
  cases turn_iff.2 hturn with
  | @finish i next count u _ _ hstep =>
    obtain ⟨c, -, -, hstack⟩ := Exec.ret_of_step hstep
    rw [(u.observed_agrees _ _ _).stack, Stack.size_of_returnToBottom hstack]
    exact Stack.le_of_returnToBottom hstack

end

/-! ## Comparing frames -/

section
variable {f : Function}

/-- The slots of the parameters are counted one parameter after the other. -/
theorem foldlM_add_eq {parameters : List Parameter} {slots : Nat}
    (h : slots + totalWidth parameters < UInt64.size) :
    parameters.foldlM (fun slots p => Raw.add slots p.width.toNat) slots =
      .ok (slots + totalWidth parameters) := by
  induction parameters generalizing slots with
  | nil => rfl
  | cons p parameters ih =>
    rw [totalWidth_cons, ← Nat.add_assoc] at h
    rw [List.foldlM_cons, bind_ok (Raw.add_eq_ok (by omega)), ih h, totalWidth_cons, Nat.add_assoc]

/-- The sum of the widths of all parameters does not overflow if the number of their slots has 64
bits. -/
theorem parameterSlots_eq (h : f.parameterSlots < UInt64.size) :
    parameterSlots f = .ok f.parameterSlots := by
  rw [f.parameterSlots_eq] at h ⊢
  rw [parameterSlots, foldlM_add_eq (by omega), Nat.zero_add]

/-- Inputs are written to the globals behind the check of each slot. -/
theorem fillGlobals_eq (inputs : List (UInt64 × Word)) (g : Globals) :
    fillGlobals inputs g = .ok (Globals.fill inputs g) := by
  induction inputs generalizing g with
  | nil => rfl
  | cons input inputs ih =>
    obtain ⟨slot, w⟩ := input
    rw [fillGlobals, Globals.fill, Globals.set, writeSlot_eq, bind_ok (settle_mapError _)]
    cases Slots.set .globals g.slots slot.toInt64.toInt w with
    | ok slots => exact ih ⟨slots⟩
    | error k => rfl

/-- The words of a parameter are written back within the arguments, and read from the stack behind a
check. -/
theorem copySlots_eq (stack : Stack) {offset width : Nat} {args : Array Word}
    (h : offset + width ≤ args.size) :
    copySlots stack offset width args = .ok (ShaderMachine.copySlots stack offset width args) := by
  induction width generalizing offset args with
  | zero => rfl
  | succ width ih =>
    have hlt : offset < args.size := by omega
    rw [copySlots, ShaderMachine.copySlots, Stack.get, readSlot_eq, bind_ok (settle_mapError _)]
    cases Slots.get .stack stack.slots offset with
    | ok w =>
      dsimp only
      rw [bind_ok (Raw.set_eq_ok w hlt), Array.setIfInBounds, dif_pos hlt]
      exact ih (by rw [Array.size_set]; omega)
    | error k => rfl

/-- Copying back changes words and not how many there are, so what was counted before still
holds. -/
theorem size_copySlots (stack : Stack) (offset width : Nat) (args : Array Word) :
    (ShaderMachine.copySlots stack offset width args).2.size = args.size := by
  induction width generalizing offset args with
  | zero => rfl
  | succ width ih =>
    rw [ShaderMachine.copySlots]
    cases stack.get offset with
    | ok w => exact (ih _ _).trans Array.size_setIfInBounds
    | error k => rfl

/-- All parameters are copied back within the arguments, one behind the other. Parameters that are
not copied are passed by. -/
theorem copyOut_eq (stack : Stack) {offset : Nat} {parameters : List Parameter}
    {args : Array Word} (hsize : offset + totalWidth parameters < UInt64.size)
    (hargs : offset + totalWidth parameters ≤ args.size) :
    copyOut stack offset parameters args =
      .ok (ShaderMachine.copyOut stack offset parameters args) := by
  induction parameters generalizing offset args with
  | nil => rfl
  | cons p parameters ih =>
    rw [totalWidth_cons, ← Nat.add_assoc] at hsize hargs
    rw [copyOut, ShaderMachine.copyOut, bind_ok (Raw.add_eq_ok (by omega))]
    split
    · have hcopied := size_copySlots stack offset p.width.toNat args
      rw [bind_ok (copySlots_eq stack (by omega))]
      generalize ShaderMachine.copySlots stack offset p.width.toNat args = r at hcopied ⊢
      obtain ⟨k, args'⟩ := r
      cases k with
      | none => exact ih hsize (hargs.trans_eq hcopied.symm)
      | some k => rfl
    · exact ih hsize hargs

end

/-! ## Comparing invocations -/

section
variable {vm : Interpreter} {f : Function} {inv : Invocation} {verbose : Bool}

/-- A walk over as many instructions as there are bytes gets to the end of the body. -/
theorem instructionsFrom_eq {code : Code} (hcode : code.size < 2 ^ 63) {bytes ip : Nat}
    (hip : ip ≤ maxOffset code) (hbytes : code.size ≤ ip + bytes) :
    instructionsFrom code bytes ip = .ok (code.instructionsFrom ip) := by
  induction bytes generalizing ip with
  | zero =>
    have hend : code.size ≤ ip := hbytes
    rw [Code.instructionsFrom, if_pos hend]
    rfl
  | succ bytes ih =>
    rw [instructionsFrom, Code.instructionsFrom]
    split
    · rfl
    · rw [bind_ok (attempt_readInstruction hcode hip)]
      split
      · rename_i hread
        rw [hread]
        rfl
      · rename_i i next hread
        have hlt := Code.readInstruction_lt hread
        have hle := Code.readInstruction_le_size hread
        rw [hread]
        dsimp only
        rw [bind_ok (ih (Nat.le_trans hle (Nat.le_max_left _ _)) (by omega))]
        rfl

/-- The listing that a verbose run begins with is read from a body whose offsets can be counted. -/
theorem openingEvents_eq (hcode : f.code.size < 2 ^ 63) (verbose : Bool) :
    openingEvents f f.parameterSlots verbose = .ok (Interpreter.openingEvents f verbose) := by
  have hwalk : instructionsFrom f.code f.code.size 0 = .ok f.code.instructions :=
    instructionsFrom_eq hcode (Nat.zero_le _) (Nat.le_of_eq (Nat.zero_add _).symm)
  unfold openingEvents Interpreter.openingEvents Code.listing
  cases verbose with
  | false => rfl
  | true =>
    simp only [if_true]
    rw [bind_ok hwalk]
    rcases f.code.instructions with ⟨lines, _ | fault⟩ <;> rfl

/-- An execution that stopped with words on the stack is concluded without violations. -/
theorem conclude_eq {options : Options} {args : Array Word} {stop : Stop} {s : State}
    (hslots : f.parameterSlots < UInt64.size) (hargs : f.parameterSlots ≤ args.size)
    (hstop : ∀ count, stop = .ok count → count ≤ s.stack.size) :
    conclude options f verbose args stop s =
      .ok (Interpreter.conclude options f verbose args stop s) := by
  unfold conclude Interpreter.conclude
  cases stop with
  | error fault => rfl
  | ok count =>
    rw [f.parameterSlots_eq] at hslots hargs
    dsimp only
    rw [bind_ok (copyOut_eq s.stack (by omega) (by omega))]
    rcases ShaderMachine.copyOut s.stack 0 f.parameters args with ⟨_ | k, args'⟩
    · dsimp only
      rw [bind_ok (Raw.slice_eq_ok (Nat.zero_le _) (hstop count rfl))]
      rfl
    · rfl

end

end ShaderMachine.Checked

/-! ## Invocations without violations -/

namespace ShaderMachine

/-- Each parameter has a byte for its width. -/
theorem totalWidth_le (parameters : List Parameter) :
    totalWidth parameters ≤ 255 * parameters.length := by
  induction parameters with
  | nil => exact Nat.zero_le _
  | cons p parameters ih =>
    have hwidth := p.width.toNat_lt
    rw [totalWidth_cons, List.length_cons]
    omega

namespace Interpreter

/-- What an invocation counts fits into the types that it is counted with. These have 64 bits, one
of which is a sign where the bytes of a body are counted. -/
structure Addressable (vm : Interpreter) (f : Function) (turns : Nat) : Prop where
  code : f.code.size < 2 ^ 63
  slots : f.parameterSlots < UInt64.size
  turns : Checked.Countable vm.options.budget 0 turns

/-- The slots of as many parameters as memory could ever hold can be counted. -/
theorem Addressable.of_length {vm : Interpreter} {f : Function} {turns : Nat}
    (hcode : f.code.size < 2 ^ 63) (hparameters : f.parameters.length ≤ 2 ^ 56)
    (hturns : Checked.Countable vm.options.budget 0 turns) : vm.Addressable f turns := by
  have hwidth := totalWidth_le f.parameters
  have hslots : totalWidth f.parameters < UInt64.size := by
    unfold UInt64.size
    omega
  exact ⟨hcode, f.parameterSlots_eq ▸ hslots, hturns⟩

/-- **Invocations never end in a violation.** An invocation comes to the same with raw accesses as
without, whatever its body, its arguments and its inputs are; so if it stops, then with an outcome,
which is a result or a fault. -/
theorem checked_run_eq (vm : Interpreter) (f : Function) (inv : Invocation) (verbose : Bool)
    {turns : Nat} (h : vm.Addressable f turns) :
    Checked.run vm f inv verbose turns = .ok (vm.run f inv verbose turns) := by
  unfold Checked.run run Function.checkCounts
  rw [Checked.bind_ok (Checked.parameterSlots_eq h.slots)]
  split
  · rfl
  · rename_i hargs
    split
    · rfl
    · have hargs : f.parameterSlots ≤ inv.args.size := Nat.le_of_not_lt hargs
      rw [Checked.bind_ok (Raw.slice_eq_ok (Nat.zero_le _) hargs),
        Checked.bind_ok (Checked.fillGlobals_eq _ _)]
      dsimp only
      unfold GlobalLayout.start Function.frame
      rcases Globals.fill (f.layout.inputSlots.zip inv.inputs.toList) _ with ⟨_ | k, globals⟩
      · dsimp only
        rw [Checked.bind_ok (Checked.openingEvents_eq h.code verbose),
          Checked.bind_ok (Checked.execute_eq h.code (Nat.zero_le _) h.turns)]
        generalize hexecute : execute f.code _ turns _ = r
        cases r with
        | none => rfl
        | some r =>
          obtain ⟨stop, s⟩ := r
          -- The words that are handed back are cut out of the stack without a check.
          have hstop : ∀ count, stop = .ok count → count ≤ s.stack.size := by
            rintro count rfl
            exact Checked.le_size_of_execute hexecute
          dsimp only
          rw [Checked.bind_ok (Checked.conclude_eq h.slots hargs hstop)]
          rfl
      · rfl

/-- A function that adds its whole frame on all lanes and then returns the last and the first sum,
also through its `out` parameter. -/
def foldFunction : Function :=
  ⟨"fold", [⟨2, true⟩], 30, #[55, 16, 1, 53, 16, 2, 15, 0, 46, 2], ⟨0, []⟩⟩

/-- The function uses the whole scratch buffer and copies back, without a violation. -/
theorem checked_run_eq_foldFunction :
    ({} : Interpreter).Addressable foldFunction 3 ∧
      ∃ o, Checked.run {} foldFunction ⟨#[⟨1⟩, ⟨2⟩, ⟨9⟩], #[]⟩ false 3 = .ok (some o) ∧
        o.result = .ok [⟨0xBD5B7DDE⟩, ⟨0xDEADBEF0⟩] ∧
        o.args = #[⟨0xBD5B7DDE⟩, ⟨0xDEADBEF0⟩, ⟨9⟩] := by
  have haddressable : ({} : Interpreter).Addressable foldFunction 3 :=
    .of_length (by decide) (by decide) ⟨nofun, fun _ => by decide⟩
  have hrun : (({} : Interpreter).run foldFunction ⟨#[⟨1⟩, ⟨2⟩, ⟨9⟩], #[]⟩ false 3).map
      (fun o => (o.result, o.args)) =
        some (.ok [⟨0xBD5B7DDE⟩, ⟨0xDEADBEF0⟩], #[⟨0xBD5B7DDE⟩, ⟨0xDEADBEF0⟩, ⟨9⟩]) := by
    decide +kernel
  obtain ⟨o, ho, hreturned⟩ := Option.map_eq_some_iff.1 hrun
  refine ⟨haddressable, o, ?_, congrArg Prod.fst hreturned, congrArg Prod.snd hreturned⟩
  rw [checked_run_eq _ _ _ _ haddressable, ho]

end Interpreter

end ShaderMachine
