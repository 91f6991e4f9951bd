import ShaderMachine.CommandLine.Failure
import ShaderMachine.CommandLine.Files
import ShaderMachine.CommandLine.Help
import ShaderMachine.CommandLine.Report
import ShaderMachine.Manifest.Reading

/-!
# Carrying out commands

`execute` does what the arguments ask for: it runs a function of a program, lists the instructions
of a program or of a raw body, or assembles a text. It says what is written to the two output
streams and with which status the command ends: zero when all went well, one after a failure, two
when the arguments make no sense.

A run need not end. It may make a limited number of turns, and the command has no completion when
they do not suffice.
-/

namespace ShaderMachine.CommandLine

open Text (Path)

/-- What a command leaves behind besides files. -/
structure Completion where
  status : UInt8
  output : String := ""
  messages : String := ""
deriving DecidableEq, Repr

/-- What a command works with. -/
structure Surroundings (m : Type → Type) where
  files : Files m
  /-- The value of the environment variable that holds the default budget. -/
  budget : Option String
  /-- The number of turns that a run without budget may make. -/
  patience : Nat

variable {m : Type → Type} [Monad m]

/-- A step of a command, which may fail. -/
abbrev Action (m : Type → Type) := ExceptT Failure m

/-- The value, or a failure that is told by its messages, the outermost of which is given. -/
def orFail {ε α : Type} (message : String) (causes : ε → List String) :
    Except ε α → Except Failure α
  | .ok a => .ok a
  | .error e => .error ⟨message, causes e⟩

/-- The value, or a failure without causes. -/
def orTell {ε α : Type} (message : ε → String) : Except ε α → Except Failure α
  | .ok a => .ok a
  | .error e => .error { message := message e }

/-- Reads the bytes of a file. -/
def readBytes (s : Surroundings m) (message : String) (file : Path) : Action m ByteArray := do
  match ← s.files.read file with
  | .ok bytes => return bytes
  | .error e => throw ⟨message, [e.message]⟩

/-- Reads the text of a file. -/
def readText (s : Surroundings m) (message : String) (file : Path) : Action m String := do
  match String.fromUTF8? (← readBytes s message file) with
  | some text => return text
  | none => throw ⟨message, ["stream did not contain valid UTF-8"]⟩

/-- The program in a file, in the format that its extension says. -/
def loadProgram (s : Surroundings m) (file : Path) : Action m Program := do
  let format ← orTell FormatError.message (ManifestFormat.ofPath file)
  let text ← readText s ("failed to read '" ++ file.text ++ "'") file
  orFail ("loading '" ++ file.text ++ "'") Program.ReadError.messages (Program.read format text)

/-- The words of an option, without empty ones. -/
def readWords (option : String) (texts : List String) : Except Failure (Array Word) := do
  let texts := (texts.map fun text => Text.trim text.toList).filter fun cs => !cs.isEmpty
  let words ← orFail ("invalid --" ++ option) ImmediateError.messages
    (texts.mapM fun cs => Immediate.read (String.ofList cs))
  return words.toArray

/-- Runs a function as it is requested. -/
def runFunction (s : Surroundings m) (request : RunRequest) (f : Function) :
    Except Failure (Option RunReport) := do
  let args ← readWords Flag.args.long request.args
  let inputs ← readWords Flag.inputs.long request.inputs
  let (options, _) := Options.ofEnvironment s.budget
  let options := match request.maxSteps with
    | some limit => options.withBudget limit
    | none => options
  let vm : Interpreter := { options }
  match vm.run f ⟨args, inputs⟩ false (options.turns s.patience) with
  | none => return none
  | some outcome =>
    let results ← orFail ("function '" ++ f.name ++ "' faulted") (fun fault => [fault.message])
      outcome.result
    let hasOut := f.parameters.any fun p => p.out
    return some ⟨f.name, results, if hasOut then some outcome.args.toList else none,
      outcome.interpreter.steps⟩

/-- Runs a function of a program file. -/
def run (s : Surroundings m) (request : RunRequest) : Action m (Option Completion) := do
  let program ← loadProgram s request.file
  let f ← orTell Program.EntryError.message (program.entry request.function)
  match ← runFunction s request f with
  | none => return none
  | some report =>
    if request.json then return some ⟨0, report.jsonText request.view, ""⟩
    else return some ⟨0, report.lines request.view, report.argsLine request.view⟩

/-- Whether a file holds a raw body, which its extension says. -/
def isRawBody (file : Path) : Bool :=
  match file.extension? with
  | some extension => Text.lower extension == ['b', 'i', 'n']
  | none => false

/-- The listings of functions, each below its name. -/
def listFunctions : List Function → Except Failure String
  | [] => .ok ""
  | f :: rest => do
    let listing ← orFail ("disassembling '" ++ f.name ++ "'") (fun fault => [fault.message])
      f.code.listing
    let others ← listFunctions rest
    return "; function " ++ f.name ++ "\n" ++ listing ++ others

/-- Lists the instructions of a raw body, or of one or all functions of a program file. -/
def disasm (s : Surroundings m) (file : Path) (function : Option String) :
    Action m Completion := do
  if isRawBody file then
    let bytes ← readBytes s ("Failed to read file '" ++ file.text ++ "'") file
    return ⟨0, ← orTell Fault.message (Code.listing bytes.data), ""⟩
  else
    let program ← loadProgram s file
    match function with
    | none => return ⟨0, ← listFunctions program.functions, ""⟩
    | some name =>
      let f ← orTell Program.EntryError.message (program.entry (some name))
      return ⟨0, ← listFunctions [f], ""⟩

/-- Assembles a text file into a raw body. -/
def asm (s : Surroundings m) (file : Path) (output : Option Path) : Action m Completion := do
  let source ← readText s ("Failed to read file '" ++ file.text ++ "'") file
  let code ← orFail ("assembling '" ++ file.text ++ "'") AssembleError.messages (assemble source)
  let output := output.getD (file.withExtension ['b', 'i', 'n'])
  match ← s.files.write output ⟨code⟩ with
  | .ok () =>
    return ⟨0, "", "Emitted bytecode to " ++ output.text ++ " (" ++ Numeral.natText code.size ++
      " bytes)\n"⟩
  | .error e => throw ⟨"Failed to write '" ++ output.text ++ "'", [e.message]⟩

/-- Does what is requested. -/
def perform (s : Surroundings m) : Request → Action m (Option Completion)
  | .run request => run s request
  | .disasm file function => do return some (← disasm s file function)
  | .asm file output => do return some (← asm s file output)

/-- Carries out the command that the arguments describe. -/
def execute (s : Surroundings m) (arguments : List String) : m (Option Completion) := do
  match Request.read arguments with
  | .error .usage => return some ⟨2, "", usageText⟩
  | .error .version => return some ⟨0, versionText, ""⟩
  | .error (.help topic) => return some ⟨0, topic.text, ""⟩
  | .ok request =>
    match ← (perform s request).run with
    | .ok completion => return completion
    | .error failure => return some ⟨1, "", failure.report⟩

end ShaderMachine.CommandLine
