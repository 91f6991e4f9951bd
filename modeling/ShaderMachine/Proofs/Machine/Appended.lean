import ShaderMachine.Proofs.Instruction.Appended
import ShaderMachine.Proofs.Machine.Coincidence

/-!
# Bytes behind a body

`Interpreter.ends_of_append` says that a run does not notice bytes appended to its body, unless it
runs past the end of the body: it returns the same words or faults alike at the same instruction,
after as many instructions, and leaves the same memory and arguments. Events are left out of the
comparison: a verbose run reports the listing of its body, and that is longer.
-/

namespace ShaderMachine

section
variable {code : Code} {settings settings' : RunSettings} {s s' t : State}

/-- With bytes appended to the body a turn ends in the same way, unless it overruns the body. -/
theorem turn_append (bytes : Code) (h : s.Coincides s') (hip : s.ip = s'.ip)
    (hbudget : settings.budget = settings'.budget) :
    (∃ ip t, turn code settings s = (some (.error ⟨ip, .codeOverrun⟩), t)) ∨
      TurnsCoincide (turn code settings s) (turn (code ++ bytes) settings' s') := by
  cases hspent : spentBudget? settings.budget s.steps with
  | some limit =>
    refine .inr (turn_coincide h hip hbudget fun hnone => ?_)
    rw [hspent] at hnone
    cases hnone
  | none =>
    rcases Code.readInstruction_extends code bytes s.ip with ⟨ip', hover⟩ | hread
    · exact .inl ⟨_, _, (Turn.unread hspent hover).eq⟩
    · exact .inr (turn_coincide h hip hbudget fun _ => hread)

/-- With bytes appended to the body a run stops in the same way, unless it overruns the body. -/
theorem execute_append (bytes : Code) {turns : Nat} {stop : Stop} (h : s.Coincides s')
    (hip : s.ip = s'.ip) (hbudget : settings.budget = settings'.budget)
    (hstop : ∀ fault, stop = .error fault → fault.kind ≠ .codeOverrun)
    (hexecute : execute code settings turns s = some (stop, t)) :
    ∃ t', execute (code ++ bytes) settings' turns s' = some (stop, t') ∧ t.Coincides t' := by
  induction turns generalizing s s' with
  | zero => cases hexecute
  | succ turns ih =>
    rw [execute] at hexecute ⊢
    rcases turn_append bytes h hip hbudget with ⟨ip, u, hturn⟩ | hturn
    · rw [hturn] at hexecute
      cases hexecute
      exact absurd rfl (hstop _ rfl)
    · generalize turn code settings s = r at hexecute hturn
      generalize turn (code ++ bytes) settings' s' = r' at hturn ⊢
      cases hturn with
      | stop ht =>
        cases hexecute
        exact ⟨_, rfl, ht⟩
      | next ht hip => exact ih ht hip hexecute

end

/-- The function with bytes appended to its body. -/
def Function.extended (f : Function) (bytes : Code) : Function :=
  { f with code := f.code ++ bytes }

namespace Interpreter

section
variable {vm : Interpreter} {f : Function} {inv : Invocation} {verbose : Bool} {o : Outcome}

/-- **Bytes behind a body do not matter.** An invocation that ends in a result, or in any fault but
overrunning the body, ends in the same way when bytes are appended to the body. -/
theorem ends_of_append (h : vm.Ends f inv verbose o)
    (hoverrun : ∀ fault, o.result = .error fault → fault.kind ≠ .codeOverrun) (bytes : Code) :
    ∃ o', vm.Ends (f.extended bytes) inv verbose o' ∧ o.Coincides o' := by
  obtain ⟨turns, hrun⟩ := h
  rcases run_eq_some_iff.1 hrun with hsetup | ⟨globals, stop, t, hsetup, hexecute, rfl⟩
  · exact ⟨o, ⟨turns, run_eq_some_iff.2 (.inl hsetup)⟩, rfl, rfl, rfl⟩
  · have hstop : ∀ fault, stop = .error fault → fault.kind ≠ .codeOverrun := by
      rintro fault rfl
      exact hoverrun fault rfl
    have hstart : (startState f inv verbose globals).Coincides
        (startState (f.extended bytes) inv verbose globals) := ⟨⟨rfl, rfl⟩, rfl⟩
    obtain ⟨t', hexecute', ht⟩ := execute_append bytes hstart rfl rfl hstop hexecute
    have hrun' : vm.run (f.extended bytes) inv verbose turns =
        some (conclude vm.options (f.extended bytes) verbose inv.args stop t') :=
      run_eq_some_iff.2 (.inr ⟨globals, stop, t', hsetup, hexecute', rfl⟩)
    exact ⟨_, ⟨turns, hrun'⟩, conclude_coincide rfl ht⟩

end

/-- A function that pushes an immediate whose bytes are neither aligned nor there. -/
def stubFunction : Function := ⟨"stub", [⟨1, true⟩], 0, #[43], ⟨0, []⟩⟩

/-- With the bytes of its immediate appended the function faults as before, since they are still not
aligned. -/
theorem ends_of_append_stubFunction :
    ∃ o o', ({} : Interpreter).Ends stubFunction ⟨#[⟨5⟩], #[]⟩ false o ∧
      o.result = .error ⟨some 0, .misaligned 4⟩ ∧
      (∀ fault, o.result = .error fault → fault.kind ≠ .codeOverrun) ∧
      ({} : Interpreter).Ends (stubFunction.extended #[1, 0, 0, 0]) ⟨#[⟨5⟩], #[]⟩ false o' ∧
      o.Coincides o' := by
  obtain ⟨o, hends, hresult⟩ : ∃ o, ({} : Interpreter).Ends stubFunction ⟨#[⟨5⟩], #[]⟩ false o ∧
      o.result = .error ⟨some 0, .misaligned 4⟩ := ⟨_, ⟨1, rfl⟩, rfl⟩
  have hoverrun : ∀ fault, o.result = .error fault → fault.kind ≠ .codeOverrun := by
    intro fault hfault
    rw [hresult] at hfault
    cases hfault
    exact nofun
  obtain ⟨o', hends', hcoincides⟩ := ends_of_append hends hoverrun #[1, 0, 0, 0]
  exact ⟨o, o', hends, hresult, hoverrun, hends', hcoincides⟩

end Interpreter

end ShaderMachine
