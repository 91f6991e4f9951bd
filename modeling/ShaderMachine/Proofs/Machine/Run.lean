import ShaderMachine.Machine.Execution
import ShaderMachine.Proofs.Machine.Locality

/-!
# Runs turn by turn

`Turn` lists everything that a turn can do, and `turn_iff` says that it is what `turn` computes, so
statements about turns go by these five cases. `Reaches` relates a state to those in which a run
from it begins its turns; it is where invariants of runs are proved, by induction. A run that stops
does so in a turn from a state that it reaches (`exists_reaches_of_execute`).
-/

namespace ShaderMachine

/-- The state in which an instruction is executed: it is counted, and the offset is behind it. -/
def State.entered (s : State) (next : Nat) : State := { s with ip := next, steps := s.steps + 1 }

section
variable {s s' : State}

/-- A state holds its own words. -/
theorem State.Agrees.refl (s : State) : s.Agrees s := ⟨rfl, rfl⟩

/-- Holding the same words is symmetric. -/
theorem State.Agrees.symm (h : s.Agrees s') : s'.Agrees s := ⟨h.stack.symm, h.globals.symm⟩

/-- Holding the same words is transitive. -/
theorem State.Agrees.trans {s'' : State} (h : s.Agrees s') (h' : s'.Agrees s'') : s.Agrees s'' :=
  ⟨h.stack.trans h'.stack, h.globals.trans h'.globals⟩

/-- Counting an instruction and moving the offset leave the words alone. -/
theorem State.Agrees.entered (h : s.Agrees s') (next next' : Nat) :
    (s.entered next).Agrees (s'.entered next') := ⟨h.stack, h.globals⟩

@[simp] theorem State.observed_ip (s : State) (verbose : Bool) (ip : Nat) (i : Instruction) :
    (s.observed verbose ip i).ip = s.ip := by
  cases verbose <;> rfl

/-- Reporting an instruction leaves the words alone. -/
theorem State.observed_agrees (s : State) (verbose : Bool) (ip : Nat) (i : Instruction) :
    (s.observed verbose ip i).Agrees s := by
  cases verbose <;> exact ⟨rfl, rfl⟩

end

/-- Without a budget no number of instructions spends it. -/
theorem spentBudget?_eq_none {settings : RunSettings} (h : settings.budget = none) (steps : Nat) :
    spentBudget? settings.budget steps = none := by
  rw [h]
  rfl

/-! ## Turns -/

/-- What a turn can do. -/
inductive Turn (code : Code) (settings : RunSettings) (s : State) : Option Stop × State → Prop
  /-- The budget does not allow another instruction. -/
  | spent {limit} : spentBudget? settings.budget s.steps = some limit →
      Turn code settings s (some (.error ⟨some s.ip, .budgetExhausted limit⟩), s)
  /-- There is no instruction to be read. -/
  | unread {k ip'} : spentBudget? settings.budget s.steps = none →
      code.readInstruction s.ip = .error k ip' →
      Turn code settings s (some (.error ⟨some s.ip, k⟩), s.entered s.ip)
  | fault {i next k t} : spentBudget? settings.budget s.steps = none →
      code.readInstruction s.ip = .ok i next → Exec.step i (s.entered next) = .error k t →
      Turn code settings s (some (.error ⟨some s.ip, k⟩), t)
  | next {i next t} : spentBudget? settings.budget s.steps = none →
      code.readInstruction s.ip = .ok i next → Exec.step i (s.entered next) = .ok .next t →
      Turn code settings s (none, t.observed settings.verbose s.ip i)
  | finish {i next count t} : spentBudget? settings.budget s.steps = none →
      code.readInstruction s.ip = .ok i next →
      Exec.step i (s.entered next) = .ok (.finish count) t →
      Turn code settings s (some (.ok count), t.observed settings.verbose s.ip i)

section
variable {code : Code} {settings : RunSettings} {s s' s₀ : State} {r : Option Stop × State}

/-- The cases are what a turn computes. -/
theorem Turn.eq (h : Turn code settings s r) : turn code settings s = r := by
  unfold turn
  cases h with
  | spent hspent => simp only [hspent]
  | unread hspent hread =>
    simp only [hspent, hread]
    rfl
  | fault hspent hread hstep | next hspent hread hstep | finish hspent hread hstep =>
    simp only [State.entered] at hstep
    simp only [hspent, hread, hstep]

/-- Every turn is one of the cases. -/
theorem turn_cases (code : Code) (settings : RunSettings) (s : State) :
    Turn code settings s (turn code settings s) := by
  have h : ∃ r, Turn code settings s r := by
    cases hspent : spentBudget? settings.budget s.steps with
    | some limit => exact ⟨_, .spent hspent⟩
    | none =>
      cases hread : code.readInstruction s.ip with
      | error k ip' => exact ⟨_, .unread hspent hread⟩
      | ok i next =>
        cases hstep : Exec.step i (s.entered next) with
        | error k t => exact ⟨_, .fault hspent hread hstep⟩
        | ok flow t =>
          cases flow with
          | next => exact ⟨_, .next hspent hread hstep⟩
          | finish count => exact ⟨_, .finish hspent hread hstep⟩
  obtain ⟨r, h⟩ := h
  rwa [h.eq]

/-- A turn does what one of the cases says, and nothing else. -/
theorem turn_iff : Turn code settings s r ↔ turn code settings s = r :=
  ⟨Turn.eq, fun h => h ▸ turn_cases code settings s⟩

end

/-! ## Turns in parallel -/

/-- How execution stopped, with the kind of a fault but not its offset. -/
def Stop.kind (stop : Stop) : Except FaultKind Nat := stop.mapError Fault.kind

/-- Two turns ended alike: execution stopped alike or goes on, at offsets related by `J`, and the
same words were left. -/
inductive TurnsAlike (J : Nat → Nat → Prop) : Option Stop × State → Option Stop × State → Prop
  | stop {stop stop' : Stop} {t t'} : stop.kind = stop'.kind → t.Agrees t' →
      TurnsAlike J (some stop, t) (some stop', t')
  | next {t t'} : t.Agrees t' → J t.ip t'.ip → TurnsAlike J (none, t) (none, t')

/-- Turns that ended alike did so for a weaker relation of their offsets too. -/
theorem TurnsAlike.mono {J J' : Nat → Nat → Prop} {r r' : Option Stop × State}
    (h : TurnsAlike J r r') (hJ : ∀ n n', J n n' → J' n n') : TurnsAlike J' r r' := by
  cases h with
  | stop hkind ht => exact .stop hkind ht
  | next ht hip => exact .next ht (hJ _ _ hip)

section
variable {code code' : Code} {settings settings' : RunSettings} {s s' : State}

/-- Turns that execute matching instructions end alike. -/
theorem turn_alike {R : UInt16 → UInt16 → Prop} {i i' : Instruction} {next next' : Nat}
    (hi : i.Matches R i') (h : s.Agrees s')
    (hspent : spentBudget? settings.budget s.steps = none)
    (hspent' : spentBudget? settings'.budget s'.steps = none)
    (hread : code.readInstruction s.ip = .ok i next)
    (hread' : code'.readInstruction s'.ip = .ok i' next') :
    TurnsAlike (Exec.Continues R (s.entered next) (s'.entered next'))
      (turn code settings s) (turn code' settings' s') := by
  have hstep := Exec.step_alike hi (h.entered next next')
  generalize hr : Exec.step i (s.entered next) = r at hstep
  generalize hr' : Exec.step i' (s'.entered next') = r' at hstep
  cases hstep with
  | error _ ht =>
    rw [(Turn.fault hspent hread hr).eq, (Turn.fault hspent' hread' hr').eq]
    exact .stop rfl ht
  | @ok flow t t' ht _ _ hip =>
    have hobserved := ((t.observed_agrees settings.verbose s.ip i).trans ht).trans
      (t'.observed_agrees settings'.verbose s'.ip i').symm
    cases flow with
    | next =>
      rw [(Turn.next hspent hread hr).eq, (Turn.next hspent' hread' hr').eq]
      exact .next hobserved (by simpa only [State.observed_ip] using hip)
    | finish count =>
      rw [(Turn.finish hspent hread hr).eq, (Turn.finish hspent' hread' hr').eq]
      exact .stop rfl hobserved

/-- Turns that cannot read an instruction, for the same reason, end alike. -/
theorem turn_alike_of_unread {J : Nat → Nat → Prop} {k : FaultKind} {ip ip' : Nat}
    (h : s.Agrees s') (hspent : spentBudget? settings.budget s.steps = none)
    (hspent' : spentBudget? settings'.budget s'.steps = none)
    (hread : code.readInstruction s.ip = .error k ip)
    (hread' : code'.readInstruction s'.ip = .error k ip') :
    TurnsAlike J (turn code settings s) (turn code' settings' s') := by
  rw [(Turn.unread hspent hread).eq, (Turn.unread hspent' hread').eq]
  exact .stop rfl (h.entered s.ip s'.ip)

/-- A turn that reads a `nop` passes it and does nothing else. -/
theorem turn_nop {next : Nat} (hspent : spentBudget? settings.budget s.steps = none)
    (hread : code.readInstruction s.ip = .ok (.plain .nop) next) :
    ∃ t, turn code settings s = (none, t) ∧ t.ip = next ∧ s.Agrees t := by
  refine ⟨_, (Turn.next hspent hread rfl).eq, State.observed_ip _ _ _ _, ?_⟩
  exact State.Agrees.symm ((State.observed_agrees _ _ _ _).trans ⟨rfl, rfl⟩)

end

/-! ## States that a run reaches -/

section
variable {code : Code} {settings : RunSettings} {s s' s₀ : State}

/-- The states in which the turns of a run begin. -/
inductive Reaches (code : Code) (settings : RunSettings) (s₀ : State) : State → Prop
  | start : Reaches code settings s₀ s₀
  | after {s s' : State} : Reaches code settings s₀ s → turn code settings s = (none, s') →
      Reaches code settings s₀ s'

/-- What is reached from a state that is reached is reached. -/
theorem Reaches.trans (h : Reaches code settings s₀ s) (h' : Reaches code settings s s') :
    Reaches code settings s₀ s' := by
  induction h' with
  | start => exact h
  | after _ hturn ih => exact ih.after hturn

/-- A run that stops does so in a turn from a state that it reaches. -/
theorem exists_reaches_of_execute {turns : Nat} {stop : Stop} {t : State}
    (h : execute code settings turns s₀ = some (stop, t)) :
    ∃ s, Reaches code settings s₀ s ∧ turn code settings s = (some stop, t) := by
  induction turns generalizing s₀ with
  | zero => cases h
  | succ turns ih =>
    rw [execute] at h
    cases hturn : turn code settings s₀ with
    | mk stop' s₁ =>
      cases stop' with
      | some stop' =>
        simp only [hturn, Option.some.injEq, Prod.mk.injEq] at h
        obtain ⟨rfl, rfl⟩ := h
        exact ⟨s₀, .start, hturn⟩
      | none =>
        simp only [hturn] at h
        obtain ⟨s, hs, hstop⟩ := ih h
        exact ⟨s, (Reaches.start.after hturn).trans hs, hstop⟩

/-- A run has one end, however many turns it is given. -/
theorem execute_unique {turns turns' : Nat} {r r' : Stop × State}
    (h : execute code settings turns s = some r) (h' : execute code settings turns' s = some r') :
    r = r' := by
  induction turns generalizing s turns' with
  | zero => cases h
  | succ turns ih =>
    cases turns' with
    | zero => cases h'
    | succ turns' =>
      rw [execute] at h h'
      cases hturn : turn code settings s with
      | mk stop t =>
        rw [hturn] at h h'
        cases stop with
        | some stop => exact Option.some.inj (h.symm.trans h')
        | none => exact ih h h'

/-- A run stops as it does from a state that it reaches. -/
theorem Reaches.execute (h : Reaches code settings s₀ s) (turns : Nat) {r : Stop × State}
    (hs : execute code settings turns s = some r) :
    ∃ turns', execute code settings turns' s₀ = some r := by
  induction h generalizing turns with
  | start => exact ⟨turns, hs⟩
  | after _ hturn ih =>
    refine ih (turns + 1) ?_
    rw [ShaderMachine.execute, hturn]
    exact hs

end

end ShaderMachine
