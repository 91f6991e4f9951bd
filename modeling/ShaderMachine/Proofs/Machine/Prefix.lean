import ShaderMachine.Proofs.Machine.Run

/-!
# The states of a run, counted

`stateAfter` is the state of a run after so many turns. A run stops in the turn that follows one of
these states (`execute_eq_some_iff`), and it has not stopped within a number of turns if there is a
state after that many (`execute_eq_none_iff`). Statements about two runs of one body are proved by
comparing their states turn by turn, and then once more at the turn that stops them.
-/

namespace ShaderMachine

/-- The state after so many turns, unless one of them stops the run. -/
def stateAfter (code : Code) (settings : RunSettings) : Nat → State → Option State
  | 0, s => some s
  | turns + 1, s =>
    match turn code settings s with
    | (none, s) => stateAfter code settings turns s
    | (some _, _) => none

section
variable {code : Code} {settings : RunSettings} {s s' s₀ t : State} {stop : Stop}

/-- Behind a turn that goes on there is one turn less to take. -/
theorem stateAfter_of_next (h : turn code settings s = (none, s')) (turns : Nat) :
    stateAfter code settings (turns + 1) s = stateAfter code settings turns s' := by
  rw [stateAfter, h]

/-- Behind a turn that stops the run there is no state. -/
theorem stateAfter_of_stop (h : turn code settings s = (some stop, s')) (turns : Nat) :
    stateAfter code settings (turns + 1) s = none := by
  rw [stateAfter, h]

/-- A run whose first turn goes on stops where the rest of it does. -/
theorem execute_of_next (h : turn code settings s = (none, s')) (turns : Nat) :
    execute code settings (turns + 1) s = execute code settings turns s' := by
  rw [execute, h]

/-- A run whose first turn stops it has stopped there. -/
theorem execute_of_stop (h : turn code settings s = (some stop, s')) (turns : Nat) :
    execute code settings (turns + 1) s = some (stop, s') := by
  rw [execute, h]

/-- The first turn to a later state goes on. -/
theorem exists_next_of_stateAfter {turns : Nat}
    (h : stateAfter code settings (turns + 1) s = some t) :
    ∃ s', turn code settings s = (none, s') ∧ stateAfter code settings turns s' = some t := by
  rcases hturn : turn code settings s with ⟨_ | stop, s'⟩
  · exact ⟨s', rfl, (stateAfter_of_next hturn turns).symm.trans h⟩
  · rw [stateAfter_of_stop hturn] at h
    cases h

/-- The first turn of a run that stops is the last, or it goes on. -/
theorem execute_cases {turns : Nat} (h : execute code settings (turns + 1) s = some (stop, t)) :
    turn code settings s = (some stop, t) ∨
      ∃ s', turn code settings s = (none, s') ∧
        execute code settings turns s' = some (stop, t) := by
  rcases hturn : turn code settings s with ⟨_ | stop', s'⟩
  · exact .inr ⟨s', rfl, (execute_of_next hturn turns).symm.trans h⟩
  · rw [execute_of_stop hturn] at h
    cases h
    exact .inl rfl

/-- A run stops in a turn from the state after the turns before. -/
theorem execute_eq_some_iff {turns : Nat} :
    execute code settings turns s₀ = some (stop, t) ↔
      ∃ n < turns, ∃ s, stateAfter code settings n s₀ = some s ∧
        turn code settings s = (some stop, t) := by
  induction turns generalizing s₀ with
  | zero =>
    constructor
    · intro h
      cases h
    · rintro ⟨n, hn, -⟩
      cases hn
  | succ turns ih =>
    -- A first turn that goes on is one more turn in front of the last one.
    rcases hturn : turn code settings s₀ with ⟨_ | stop', s₁⟩
    · rw [execute_of_next hturn, ih]
      constructor
      · rintro ⟨n, hn, s, hs, hstop⟩
        exact ⟨n + 1, Nat.succ_lt_succ hn, s, (stateAfter_of_next hturn n).trans hs, hstop⟩
      · rintro ⟨n, hn, s, hs, hstop⟩
        cases n with
        | zero =>
          cases hs
          rw [hturn] at hstop
          cases hstop
        | succ n =>
          rw [stateAfter_of_next hturn] at hs
          exact ⟨n, Nat.lt_of_succ_lt_succ hn, s, hs, hstop⟩
    · rw [execute_of_stop hturn]
      constructor
      · intro h
        cases h
        exact ⟨0, Nat.succ_pos turns, s₀, rfl, hturn⟩
      · rintro ⟨n, -, s, hs, hstop⟩
        cases n with
        | zero =>
          cases hs
          rw [hturn] at hstop
          cases hstop
          rfl
        | succ n =>
          rw [stateAfter_of_stop hturn] at hs
          cases hs

/-- A run that has not stopped within a number of turns is in the state after them. -/
theorem execute_eq_none_iff {turns : Nat} :
    execute code settings turns s₀ = none ↔ ∃ s, stateAfter code settings turns s₀ = some s := by
  induction turns generalizing s₀ with
  | zero => exact iff_of_true rfl ⟨s₀, rfl⟩
  | succ turns ih =>
    rcases hturn : turn code settings s₀ with ⟨_ | stop, s₁⟩
    · rw [execute_of_next hturn, stateAfter_of_next hturn, ih]
    · rw [execute_of_stop hturn, stateAfter_of_stop hturn]
      constructor
      · intro h
        cases h
      · rintro ⟨s, hs⟩
        cases hs

/-- More turns do not change how a run stops. -/
theorem execute_mono {turns turns' : Nat} {r : Stop × State} (hle : turns ≤ turns')
    (h : execute code settings turns s₀ = some r) : execute code settings turns' s₀ = some r := by
  obtain ⟨stop, t⟩ := r
  obtain ⟨n, hn, s, hs, hturn⟩ := execute_eq_some_iff.1 h
  exact execute_eq_some_iff.2 ⟨n, Nat.lt_of_lt_of_le hn hle, s, hs, hturn⟩

end

end ShaderMachine
