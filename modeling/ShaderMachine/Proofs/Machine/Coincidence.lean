import ShaderMachine.Proofs.Machine.Invocation

/-!
# Runs that go the same way

Two runs that go the same way may still report different events: one of them is verbose, or the
listings of their bodies differ. So runs are compared up to events: `State.Coincides` and
`Outcome.Coincides` leave them out, and `turn_coincide` says that a turn keeps two runs together as
long as they read the same instruction.
-/

namespace ShaderMachine

/-- The states hold the same words, and as many instructions have been counted in them. -/
structure State.Coincides (s s' : State) : Prop extends s.Agrees s' where
  steps : s.steps = s'.steps

/-- The outcomes differ in events at most. -/
structure Outcome.Coincides (o o' : Outcome) : Prop where
  result : o.result = o'.result
  args : o.args = o'.args
  interpreter : o.interpreter = o'.interpreter

/-- Two turns ended in the same way: execution stopped with the same result or fault, or it goes on
at the same offset. -/
inductive TurnsCoincide : Option Stop × State → Option Stop × State → Prop
  | stop {stop t t'} : t.Coincides t' → TurnsCoincide (some stop, t) (some stop, t')
  | next {t t'} : t.Coincides t' → t.ip = t'.ip → TurnsCoincide (none, t) (none, t')

section
variable {code code' : Code} {settings settings' : RunSettings} {s s' : State}

/-- Counting one instruction on both sides keeps the runs together. -/
theorem State.Coincides.entered (h : s.Coincides s') (next : Nat) :
    (s.entered next).Coincides (s'.entered next) :=
  ⟨h.toAgrees.entered next next, congrArg Nat.succ h.steps⟩

/-- Whether an instruction is reported makes no difference but in the events. -/
theorem State.Coincides.observed (h : s.Coincides s') (verbose verbose' : Bool) (ip : Nat)
    (i : Instruction) :
    (s.observed verbose ip i).Coincides (s'.observed verbose' ip i) := by
  cases verbose <;> cases verbose' <;> exact ⟨⟨h.stack, h.globals⟩, h.steps⟩

/-- Turns that execute the same instruction end in the same way. -/
theorem turn_coincide_of_read {i : Instruction} {next : Nat} (h : s.Coincides s')
    (hip : s.ip = s'.ip) (hspent : spentBudget? settings.budget s.steps = none)
    (hspent' : spentBudget? settings'.budget s'.steps = none)
    (hread : code.readInstruction s.ip = .ok i next)
    (hread' : code'.readInstruction s'.ip = .ok i next) :
    TurnsCoincide (turn code settings s) (turn code' settings' s') := by
  have hentered := h.entered next
  have hstep := Exec.step_alike (R := Eq) (Instruction.matches_of_target? fun _ _ => rfl)
    hentered.toAgrees (i := i)
  generalize hr : Exec.step i (s.entered next) = r at hstep
  generalize hr' : Exec.step i (s'.entered next) = r' at hstep
  cases hstep with
  | error _ ht hcount hcount' =>
    rw [(Turn.fault hspent hread hr).eq, (Turn.fault hspent' hread' hr').eq, hip]
    exact .stop ⟨ht, by rw [hcount, hcount', hentered.steps]⟩
  | @ok flow t t' ht hcount hcount' hcontinues =>
    have ht : t.Coincides t' := ⟨ht, by rw [hcount, hcount', hentered.steps]⟩
    have hobserved := ht.observed settings.verbose settings'.verbose s'.ip i
    have hend : t.ip = t'.ip := by
      rcases hcontinues with ⟨hn, hn'⟩ | ⟨target, _, rfl, hn, hn'⟩
      · exact hn.trans hn'.symm
      · exact hn.trans hn'.symm
    cases flow with
    | next =>
      rw [(Turn.next hspent hread hr).eq, (Turn.next hspent' hread' hr').eq, hip]
      exact .next hobserved (by simpa only [State.observed_ip] using hend)
    | finish count =>
      rw [(Turn.finish hspent hread hr).eq, (Turn.finish hspent' hread' hr').eq, hip]
      exact .stop hobserved

/-- Turns under one budget that read alike end in the same way. If the budget is spent, neither
reads. -/
theorem turn_coincide (h : s.Coincides s') (hip : s.ip = s'.ip)
    (hbudget : settings.budget = settings'.budget)
    (hread : spentBudget? settings.budget s.steps = none →
      code'.readInstruction s.ip = code.readInstruction s.ip) :
    TurnsCoincide (turn code settings s) (turn code' settings' s') := by
  have hspent' : spentBudget? settings'.budget s'.steps = spentBudget? settings.budget s.steps := by
    rw [hbudget, h.steps]
  cases hspent : spentBudget? settings.budget s.steps with
  | some limit =>
    rw [(Turn.spent hspent).eq, (Turn.spent (hspent'.trans hspent)).eq, hip]
    exact .stop h
  | none =>
    have hspent' := hspent'.trans hspent
    have hread' : code'.readInstruction s'.ip = code.readInstruction s.ip := hip ▸ hread hspent
    cases hinst : code.readInstruction s.ip with
    | error k ip =>
      have hinst' := hread'.trans hinst
      rw [(Turn.unread hspent hinst).eq, (Turn.unread hspent' hinst').eq, hip]
      exact .stop (h.entered s'.ip)
    | ok i next => exact turn_coincide_of_read h hip hspent hspent' hinst (hread'.trans hinst)

end

/-- How a run stopped, and where that left it, up to events. -/
def StopsCoincide (r r' : Stop × State) : Prop := r.1 = r'.1 ∧ r.2.Coincides r'.2

/-- Runs of one body under one budget stop in the same way, however they are observed, and neither
stops in fewer turns than the other. -/
theorem execute_coincide {code : Code} {budget : Option Nat} {s s' : State}
    (verbose verbose' : Bool) (h : s.Coincides s') (hip : s.ip = s'.ip) (turns : Nat) :
    Option.Rel StopsCoincide (execute code ⟨budget, verbose⟩ turns s)
      (execute code ⟨budget, verbose'⟩ turns s') := by
  induction turns generalizing s s' with
  | zero => exact .none
  | succ turns ih =>
    have hturn : TurnsCoincide (turn code ⟨budget, verbose⟩ s) (turn code ⟨budget, verbose'⟩ s') :=
      turn_coincide h hip rfl fun _ => rfl
    rw [execute, execute]
    generalize turn code ⟨budget, verbose⟩ s = r at hturn ⊢
    generalize turn code ⟨budget, verbose'⟩ s' = r' at hturn ⊢
    cases hturn with
    | stop ht => exact .some ⟨rfl, ht⟩
    | next ht hip => exact ih ht hip

namespace Interpreter

/-- Executions that stopped in the same way are concluded in the same way. -/
theorem conclude_coincide {options : Options} {f f' : Function} {verbose verbose' : Bool}
    {args : Array Word} {stop : Stop} {s s' : State} (hparameters : f.parameters = f'.parameters)
    (h : s.Coincides s') :
    (conclude options f verbose args stop s).Coincides
      (conclude options f' verbose' args stop s') := by
  unfold conclude
  rw [← h.stack, ← h.globals, ← h.steps, ← hparameters]
  cases stop with
  | error fault => exact ⟨rfl, rfl, rfl⟩
  | ok count =>
    dsimp only
    rcases copyOut s.stack 0 f.parameters args with ⟨_ | k, args⟩ <;> exact ⟨rfl, rfl, rfl⟩

end Interpreter

end ShaderMachine
