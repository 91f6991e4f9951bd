import ShaderMachine.CommandLine.Arguments
import ShaderMachine.Document.JsonText
import ShaderMachine.Instruction.Listing

/-!
# Results of a run

What a run has returned, as lines of text or as a JSON record. The view decides whether a word is
shown as an integer, as a float or as bits; JSON has no number for a float that is not finite, and
shows bits as a string.
-/

namespace ShaderMachine.CommandLine

open Document (JsonText)

/-- Floats in JSON keep a fraction, are positional from `10 ^ -6` to below `10 ^ 13`, and have a
sign in front of every exponent. -/
def jsonFloat : Decimal.Format where
  positional := some (-6, 12)
  pointZero := true
  exponentPlus := true
  tie := .toEven

/-- A word as text. -/
def View.text (view : View) (w : Word) : String :=
  match view with
  | int => w.signedText
  | uint => w.unsignedText
  | float => w.floatText
  | bits => w.hexText

/-- A word as a JSON value. -/
def View.json (view : View) (w : Word) : JsonText :=
  match view with
  | float =>
    match Binary32.ofBits w.bits with
    | .finite negative x => .token (jsonFloat.text (.finite negative x)).toList
    | _ => .token ['n', 'u', 'l', 'l']
  | bits => .string (view.text w)
  | _ => .token (view.text w).toList

structure RunReport where
  function : String
  results : List Word
  /-- The argument words, which are reported if the function has `out` parameters. -/
  args : Option (List Word)
  steps : Nat
deriving DecidableEq, Repr

namespace RunReport

/-- One result on a line. -/
def lines (r : RunReport) (view : View) : String :=
  String.join (r.results.map fun w => view.text w ++ "\n")

/-- The line about the argument words, if they are reported. -/
def argsLine (r : RunReport) (view : View) : String :=
  match r.args with
  | some args => "args: " ++ ", ".intercalate (args.map view.text) ++ "\n"
  | none => ""

/-- The report as a record. -/
def json (r : RunReport) (view : View) : JsonText :=
  let words (ws : List Word) : JsonText := .list (ws.map view.json)
  .record ([("function", .string r.function), ("results", words r.results)] ++
    (r.args.toList.map fun args => ("args", words args)) ++ [("steps", .nat r.steps)])

/-- The report as JSON text, with a line break at its end. -/
def jsonText (r : RunReport) (view : View) : String :=
  String.ofList ((r.json view).pretty 0 ++ ['\n'])

end RunReport

end ShaderMachine.CommandLine
