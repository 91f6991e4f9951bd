import ShaderMachine.Interpreter
import ShaderMachine.Text.Blank

/-!
# The budget from the environment

An environment variable can hold the default budget, as a decimal number of 64 bits that may be
surrounded by blanks. A value that is no such number is reported and otherwise ignored.
-/

namespace ShaderMachine

/-- The largest budget. -/
def maxBudget : Nat := UInt64.size - 1

/-- Reads a budget without blanks around it. -/
def readBudget (cs : List Char) : Except Numeral.Error Nat := Numeral.readUnsigned 10 maxBudget cs

/-- The options that the value of the variable asks for, and what is to be reported about it. -/
def Options.ofEnvironment (value : Option String) : Options × List Event :=
  match value with
  | none => ({}, [])
  | some value =>
    match readBudget (Text.trim value.toList) with
    | .ok limit => ({ budget := some limit }, [])
    | .error e => ({}, [.ignoredBudget value e])

end ShaderMachine
