import ShaderMachine.Proofs.Machine.Invocation
import ShaderMachine.Proofs.Machine.Prefix

/-!
# The calling convention

An invocation hands back the top words of the stack on which its body returns, and the words of the
`out` parameters, which the body leaves at the bottom of that stack. `Interpreter.ends_returning`
says what an invocation comes to when its body returns (`Outcome.AfterReturn`), and that it faults
with its arguments as they were when the body does not.
-/

namespace ShaderMachine

/-! ## Moving the results to the bottom -/

namespace Stack

section
variable {s t : Stack} {count : Nat}

/-- Only words that are there are returned. -/
theorem le_of_returnToBottom (h : s.returnToBottom count = .ok t) : count ≤ s.size := by
  unfold returnToBottom at h
  split at h
  · assumption
  · cases h

/-- Words that are there can be returned. -/
theorem exists_returnToBottom (h : count ≤ s.size) : ∃ t, s.returnToBottom count = .ok t :=
  ⟨_, if_pos h⟩

/-- The results replace as many words at the bottom, also where the two overlap. -/
theorem toList_of_returnToBottom (h : s.returnToBottom count = .ok t) :
    t.toList = s.toList.drop (s.size - count) ++ s.toList.drop count := by
  have hextract : ∀ start, (s.slots.extract start s.size).toList = s.toList.drop start := by
    intro start
    rw [Array.toList_extract, List.extract_eq_take_drop]
    exact List.take_of_length_le (by simp [size])
  rw [returnToBottom, if_pos (le_of_returnToBottom h)] at h
  cases h
  simp only [toList, Array.toList_append] at hextract ⊢
  rw [hextract, hextract]

/-- Returning leaves the height of the stack as it is. -/
theorem size_of_returnToBottom (h : s.returnToBottom count = .ok t) : t.size = s.size := by
  have hle := le_of_returnToBottom h
  have hlength := congrArg List.length (toList_of_returnToBottom h)
  simp only [toList, List.length_append, List.length_drop, Array.length_toList] at hlength
  simp only [size] at hle hlength ⊢
  omega

/-- What is returned is read at the bottom, where the results have been moved. -/
theorem extract_of_returnToBottom (h : s.returnToBottom count = .ok t) :
    (t.slots.extract 0 count).toList = s.toList.drop (s.size - count) := by
  have hle := le_of_returnToBottom h
  have hlength : (s.toList.drop (s.size - count)).length = count := by
    simp only [toList, size, List.length_drop, Array.length_toList] at hle ⊢
    omega
  have htake : (t.slots.extract 0 count).toList = t.toList.take count := by simp [toList]
  rw [htake, toList_of_returnToBottom h, List.take_left' hlength]

end

end Stack

namespace Exec

/-- The computation never ends execution by itself. -/
def Passes (x : Exec Flow) : Prop := ∀ ⦃s flow t⦄, x s = .ok flow t → flow = .next

/-- Saying that execution goes on does not end it. -/
theorem Passes.pure : Passes (pure .next) := by
  intro s flow t h
  cases h
  rfl

/-- What comes last decides whether execution goes on. -/
theorem Passes.bind {α : Type} {x : Exec α} {f : α → Exec Flow} (hf : ∀ a, Passes (f a)) :
    Passes (x >>= f) := by
  intro s flow t h
  simp only [Bind.bind, EStateM.bind] at h
  split at h
  · exact hf _ h
  · cases h

/-- Execution goes on after every instruction but a `return`. -/
theorem passes_step {i : Instruction} (hi : ∀ count, i ≠ .ret count) : Passes (step i) := by
  cases i with
  | ret count => exact absurd rfl (hi count)
  | loadGlobal => exact .bind fun _ => .bind fun _ => .pure
  | _ => exact .bind fun _ => .pure

section
variable {s t : State} {i : Instruction} {count : Nat}

/-- Execution ends with a `return`, whose words have been moved to the bottom of the stack. -/
theorem ret_of_step (h : step i s = .ok (.finish count) t) :
    ∃ c : UInt8, i = .ret c ∧ c.toNat = count ∧ s.stack.returnToBottom count = .ok t.stack := by
  by_cases hi : ∃ c, i = .ret c
  · obtain ⟨c, rfl⟩ := hi
    simp only [step, changeStack, Bind.bind, EStateM.bind] at h
    cases hstack : s.stack.returnToBottom c.toNat with
    | ok stack =>
      rw [hstack] at h
      cases h
      exact ⟨c, rfl, rfl, hstack⟩
    | error k =>
      rw [hstack] at h
      cases h
  · have hflow := passes_step (fun c hc => hi ⟨c, hc⟩) h
    cases hflow

/-- A `return` ends execution with its words moved to the bottom of the stack. -/
theorem step_ret {c : UInt8} {stack : Stack} (h : s.stack.returnToBottom c.toNat = .ok stack) :
    step (.ret c) s = .ok (.finish c.toNat) { s with stack := stack } := by
  simp only [step, changeStack, Bind.bind, EStateM.bind, h]
  rfl

end

end Exec

/-! ## Runs that return -/

namespace Interpreter

/-- The function accepts the invocation, and its execution gets to a `return` of so many words on
the stack, which holds as many. -/
def StopsAtReturn (vm : Interpreter) (f : Function) (inv : Invocation) (verbose : Bool)
    (count : Nat) (stack : Stack) : Prop :=
  f.Accepts inv ∧ ∃ s c next,
    Reaches f.code ⟨vm.options.budget, verbose⟩
      (startState f inv verbose (f.layout.start inv.inputs).2) s ∧
    spentBudget? vm.options.budget s.steps = none ∧
    f.code.readInstruction s.ip = .ok (.ret c) next ∧ c.toNat = count ∧ s.stack = stack ∧
    count ≤ stack.size

section
variable {vm : Interpreter} {f : Function} {inv : Invocation} {verbose : Bool} {count : Nat}
  {stack : Stack} {o : Outcome}

/-- A run that gets to a `return` stops there, with the words moved to the bottom. -/
theorem StopsAtReturn.execute (h : vm.StopsAtReturn f inv verbose count stack) :
    ∃ turns t, ShaderMachine.execute f.code ⟨vm.options.budget, verbose⟩ turns
        (startState f inv verbose (f.layout.start inv.inputs).2) = some (.ok count, t) ∧
      stack.returnToBottom count = .ok t.stack := by
  obtain ⟨-, s, c, next, hreaches, hspent, hread, rfl, rfl, hle⟩ := h
  obtain ⟨stack, hstack⟩ := Stack.exists_returnToBottom hle
  have hturn : turn f.code ⟨vm.options.budget, verbose⟩ s = (some (.ok c.toNat), _) :=
    (Turn.finish hspent hread (Exec.step_ret hstack)).eq
  obtain ⟨turns, hexecute⟩ := hreaches.execute 1 (execute_of_stop hturn 0)
  refine ⟨turns, _, hexecute, ?_⟩
  rw [hstack, (State.observed_agrees _ _ _ _).stack]

/-- A run that stops with words got to a `return` of as many. -/
theorem stopsAtReturn_of_execute (haccepts : f.Accepts inv) {turns : Nat} {t : State}
    (h : ShaderMachine.execute f.code ⟨vm.options.budget, verbose⟩ turns
      (startState f inv verbose (f.layout.start inv.inputs).2) = some (.ok count, t)) :
    ∃ stack, vm.StopsAtReturn f inv verbose count stack := by
  obtain ⟨s, hreaches, hturn⟩ := exists_reaches_of_execute h
  cases turn_iff.2 hturn with
  | finish hspent hread hstep =>
    obtain ⟨c, rfl, hcount, hstack⟩ := Exec.ret_of_step hstep
    exact ⟨s.stack, haccepts, s, c, _, hreaches, hspent, hread, hcount, rfl,
      Stack.le_of_returnToBottom hstack⟩

end

end Interpreter

/-! ## Invocations that return -/

/-- The slot belongs to an `out` parameter: it lies within the width of one, behind the slots of all
parameters before. -/
def Function.OutSlot (f : Function) (slot : Nat) : Prop :=
  ∃ before p after, f.parameters = before ++ p :: after ∧ p.out = true ∧
    totalWidth before ≤ slot ∧ slot < totalWidth before + p.width.toNat

/-- The slots of `out` parameters are those that are visited to copy them back. -/
theorem Function.outSlot_iff {f : Function} {slot : Nat} :
    f.OutSlot slot ↔ slot ∈ outSlots 0 f.parameters := by
  simp only [mem_outSlots_iff, Nat.zero_add, OutSlot]

/-- How an invocation ends whose body returned the words: if the stack that is left has all slots of
`out` parameters, it returns the words, and these slots are copied to the arguments. Otherwise the
first one that is missing is the fault, and those before it are copied. -/
inductive Outcome.CopyBack (o : Outcome) (f : Function) (inv : Invocation) (results : List Word) :
    Prop
  | complete : (∀ slot, f.OutSlot slot → slot < o.interpreter.stack.size) →
      o.result = .ok results → Copied o.interpreter.stack f.OutSlot inv.args o.args →
      CopyBack o f inv results
  | missing (slot : Nat) : f.OutSlot slot → o.interpreter.stack.size ≤ slot →
      (∀ slot', f.OutSlot slot' → slot' < slot → slot' < o.interpreter.stack.size) →
      o.result = .error ⟨none, .outOfBounds .stack slot o.interpreter.stack.size⟩ →
      Copied o.interpreter.stack (fun slot' => f.OutSlot slot' ∧ slot' < slot) inv.args o.args →
      CopyBack o f inv results

/-- What is left of an invocation whose body returned so many words on the stack: they have been
moved to the bottom, over what was there, and the `out` parameters have been copied back. -/
structure Outcome.AfterReturn (o : Outcome) (f : Function) (inv : Invocation) (count : Nat)
    (stack : Stack) : Prop where
  moved : o.interpreter.stack.toList =
    stack.toList.drop (stack.size - count) ++ stack.toList.drop count
  size : o.interpreter.stack.size = stack.size
  copyBack : o.CopyBack f inv (stack.toList.drop (stack.size - count))

namespace Interpreter

section
variable {vm : Interpreter} {f : Function} {inv : Invocation} {verbose : Bool} {count : Nat}
  {stack : Stack} {o : Outcome}

/-- Concluding an execution that returned copies the `out` parameters back. -/
theorem afterReturn_conclude (hargs : f.parameterSlots ≤ inv.args.size) {s : State}
    (hstack : stack.returnToBottom count = .ok s.stack) :
    (conclude vm.options f verbose inv.args (.ok count) s).AfterReturn f inv count stack := by
  have hslots : ∀ slot ∈ outSlots 0 f.parameters, slot < inv.args.size := by
    intro slot hslot
    have hlt := lt_of_mem_outSlots hslot
    rw [f.parameterSlots_eq] at hargs
    omega
  have hout : f.OutSlot = (· ∈ outSlots 0 f.parameters) := funext fun _ => propext f.outSlot_iff
  refine ⟨?_, ?_, ?_⟩
  · rw [interpreter_conclude]
    exact Stack.toList_of_returnToBottom hstack
  · rw [interpreter_conclude]
    exact Stack.size_of_returnToBottom hstack
  · by_cases hall : ∀ slot ∈ outSlots 0 f.parameters, slot < s.stack.size
    · obtain ⟨args, hcopy, hcopied⟩ := copyAll_of_forall_lt hall hslots
      rw [← copyOut_eq] at hcopy
      rw [← Stack.extract_of_returnToBottom hstack]
      simp only [conclude, hcopy]
      exact .complete (hout ▸ hall) rfl (hout ▸ hcopied)
    · obtain ⟨slot, hslot, hmissing, hfirst⟩ := exists_first_missing hall
      obtain ⟨args, hcopy, hcopied⟩ :=
        copyAll_of_missing (pairwise_outSlots 0 _) hslot hmissing hfirst hslots
      rw [← copyOut_eq] at hcopy
      simp only [conclude, hcopy]
      exact .missing slot (hout ▸ hslot) hmissing (hout ▸ hfirst) rfl (hout ▸ hcopied)

/-- **The calling convention.** If the body returns, the results have been moved to the bottom of
the stack and the `out` parameters are copied back, as far as the stack has their slots. In every
other case the invocation faults and the arguments are those supplied. -/
theorem ends_returning (vm : Interpreter) (f : Function) (inv : Invocation) (verbose : Bool) :
    (∀ count stack, vm.StopsAtReturn f inv verbose count stack →
      ∃ o, vm.Ends f inv verbose o ∧ o.AfterReturn f inv count stack) ∧
    ∀ o, vm.Ends f inv verbose o →
      (∀ count stack, ¬ vm.StopsAtReturn f inv verbose count stack) →
      (∃ fault, o.result = .error fault) ∧ o.args = inv.args := by
  refine ⟨fun count stack hreturn => ?_, fun o hends hnever => ?_⟩
  · obtain ⟨turns, s, hexecute, hstack⟩ := hreturn.execute
    refine ⟨_, ⟨turns, run_eq_some_iff.2 (.inr ⟨_, _, s, ?_, hexecute, rfl⟩)⟩,
      afterReturn_conclude hreturn.1.args hstack⟩
    exact setup_eq_ok_iff.2 ⟨hreturn.1, rfl⟩
  · obtain ⟨turns, hrun⟩ := hends
    rcases run_eq_some_iff.1 hrun with hsetup | ⟨globals, stop, s, hsetup, hexecute, rfl⟩
    · have huntouched := untouched_of_setup hsetup
      exact ⟨huntouched.fault, huntouched.args⟩
    · obtain ⟨haccepts, rfl⟩ := setup_eq_ok_iff.1 hsetup
      cases stop with
      | error fault => exact ⟨⟨fault, rfl⟩, rfl⟩
      | ok count =>
        obtain ⟨stack, hreturn⟩ := stopsAtReturn_of_execute haccepts hexecute
        exact absurd hreturn (hnever count stack)

end

/-- A function that returns its three parameter slots shifted down by one. Its `out` parameters are
one without slots and one of the last two slots. -/
def shiftFunction : Function :=
  ⟨"shift", [⟨1, false⟩, ⟨0, true⟩, ⟨2, true⟩], 0, #[26, 46, 3], ⟨0, []⟩⟩

/-- A function that drops the second slot of its `out` parameter and returns nothing. -/
def shrinkFunction : Function := ⟨"shrink", [⟨2, true⟩], 0, #[42, 1, 46, 0], ⟨0, []⟩⟩

def shiftInvocation : Invocation := ⟨#[⟨1⟩, ⟨2⟩, ⟨3⟩, ⟨9⟩], #[]⟩

/-- Results that overlap with where they are moved, a stack that has lost the slot of an `out`
parameter, and an invocation that is refused: one case for each way to end. -/
theorem ends_returning_shiftFunction :
    ({} : Interpreter).StopsAtReturn shiftFunction shiftInvocation false 3
        ⟨#[⟨1⟩, ⟨2⟩, ⟨3⟩, ⟨3⟩]⟩ ∧
      (∃ o, ({} : Interpreter).Ends shiftFunction shiftInvocation false o ∧
        o.AfterReturn shiftFunction shiftInvocation 3 ⟨#[⟨1⟩, ⟨2⟩, ⟨3⟩, ⟨3⟩]⟩ ∧
        o.result = .ok [⟨2⟩, ⟨3⟩, ⟨3⟩] ∧ o.args = #[⟨1⟩, ⟨3⟩, ⟨3⟩, ⟨9⟩]) ∧
      ({} : Interpreter).StopsAtReturn shrinkFunction shiftInvocation false 0 ⟨#[⟨1⟩]⟩ ∧
      (∃ o, ({} : Interpreter).Ends shrinkFunction shiftInvocation false o ∧
        o.AfterReturn shrinkFunction shiftInvocation 0 ⟨#[⟨1⟩]⟩ ∧
        o.result = .error ⟨none, .outOfBounds .stack 1 1⟩) ∧
      (∀ count stack, ¬ ({} : Interpreter).StopsAtReturn shiftFunction ⟨#[⟨1⟩], #[]⟩ false count
        stack) ∧
      ∃ o, ({} : Interpreter).Ends shiftFunction ⟨#[⟨1⟩], #[]⟩ false o ∧
        (∃ fault, o.result = .error fault) ∧ o.args = #[⟨1⟩] := by
  have hshift : ({} : Interpreter).StopsAtReturn shiftFunction shiftInvocation false 3
      ⟨#[⟨1⟩, ⟨2⟩, ⟨3⟩, ⟨3⟩]⟩ :=
    ⟨⟨by decide, rfl, nofun⟩, _, 3, 3, .after .start rfl, rfl, rfl, rfl, rfl, by decide⟩
  have hshrink : ({} : Interpreter).StopsAtReturn shrinkFunction shiftInvocation false 0
      ⟨#[⟨1⟩]⟩ :=
    ⟨⟨by decide, rfl, nofun⟩, _, 0, 4, .after .start rfl, rfl, rfl, rfl, rfl, by decide⟩
  have hrefused : ∀ count stack, ¬ ({} : Interpreter).StopsAtReturn shiftFunction ⟨#[⟨1⟩], #[]⟩
      false count stack :=
    fun count stack h => absurd h.1.args (by decide)
  refine ⟨hshift, ?_, hshrink, ?_, hrefused, ?_⟩
  · have hrun : (({} : Interpreter).run shiftFunction shiftInvocation false 2).map
        (fun o => (o.result, o.args)) =
          some (.ok [⟨2⟩, ⟨3⟩, ⟨3⟩], #[⟨1⟩, ⟨3⟩, ⟨3⟩, ⟨9⟩]) := by decide +kernel
    obtain ⟨o, hends, hafter⟩ := (ends_returning {} shiftFunction shiftInvocation false).1 _ _ hshift
    obtain ⟨o', hrun', hreturned⟩ := Option.map_eq_some_iff.1 hrun
    obtain rfl := hends.unique ⟨2, hrun'⟩
    exact ⟨o, hends, hafter, congrArg Prod.fst hreturned, congrArg Prod.snd hreturned⟩
  · have hrun : (({} : Interpreter).run shrinkFunction shiftInvocation false 2).map
        Outcome.result = some (.error ⟨none, .outOfBounds .stack 1 1⟩) := by decide
    obtain ⟨o, hends, hafter⟩ :=
      (ends_returning {} shrinkFunction shiftInvocation false).1 _ _ hshrink
    obtain ⟨o', hrun', hresult⟩ := Option.map_eq_some_iff.1 hrun
    obtain rfl := hends.unique ⟨2, hrun'⟩
    exact ⟨o, hends, hafter, hresult⟩
  · have hends : ({} : Interpreter).Ends shiftFunction ⟨#[⟨1⟩], #[]⟩ false _ := ⟨0, rfl⟩
    exact ⟨_, hends, (ends_returning {} shiftFunction ⟨#[⟨1⟩], #[]⟩ false).2 _ hends hrefused⟩

end Interpreter

end ShaderMachine
