import ShaderMachine.Function
import ShaderMachine.Machine.Step

/-!
# Running a body

A body runs instruction by instruction until it returns or faults. `turn` is one round: it checks
the budget, counts the instruction, reads it and executes it. `execute` repeats turns. A body need
not stop, so `execute` takes the number of turns it may make and has no result when they do not
suffice; more turns never change a result.
-/

namespace ShaderMachine

/-- How a run is observed and limited. -/
structure RunSettings where
  /-- The number of instructions that may be executed, if there is a limit. -/
  budget : Option Nat
  /-- Whether every instruction is reported. -/
  verbose : Bool
deriving DecidableEq, Repr

/-- How execution stopped: with a number of returned words, or with a fault. -/
abbrev Stop := Except Fault Nat

/-- The limit of a budget that does not allow another instruction. -/
def spentBudget? (budget : Option Nat) (steps : Nat) : Option Nat :=
  match budget with
  | some limit => if limit ≤ steps then some limit else none
  | none => none

/-- Reports an executed instruction. -/
def State.observed (s : State) (verbose : Bool) (ip : Nat) (i : Instruction) : State :=
  if verbose then { s with events := s.events.push (.step ip i.opcode s.stack.toList) } else s

/-- One round of execution, and how it ended execution if it did. -/
def turn (code : Code) (settings : RunSettings) (s : State) : Option Stop × State :=
  let ip := s.ip
  match spentBudget? settings.budget s.steps with
  | some limit => (some (.error ⟨some ip, .budgetExhausted limit⟩), s)
  | none =>
    let s := { s with steps := s.steps + 1 }
    match code.readInstruction ip with
    | .error kind _ => (some (.error ⟨some ip, kind⟩), s)
    | .ok i next =>
      match Exec.step i { s with ip := next } with
      | .error kind s => (some (.error ⟨some ip, kind⟩), s)
      | .ok flow s =>
        let s := s.observed settings.verbose ip i
        match flow with
        | .next => (none, s)
        | .finish count => (some (.ok count), s)

/-- Runs a body for at most `turns` rounds. -/
def execute (code : Code) (settings : RunSettings) : Nat → State → Option (Stop × State)
  | 0, _ => none
  | turns + 1, s =>
    match turn code settings s with
    | (some stop, s) => some (stop, s)
    | (none, s) => execute code settings turns s

end ShaderMachine
