import ShaderMachine.Budget
import ShaderMachine.Text.Path

/-!
# Arguments of the command line

A command is a verb with one file and options. The value of an option is the next argument or stands
behind an equals sign in the same one. It must not look like an option itself, unless it belongs to
a list of words, which takes any argument as its value. Everything behind `--` is a file.

Arguments are read from the left, and the first one that makes no sense or asks for help decides.
`Request.read` says what is asked for.
-/

namespace ShaderMachine.CommandLine

open Text (Path)

/-- How a word is shown. -/
inductive View where
  | int | uint | float | bits
deriving DecidableEq, Repr

/-- The view of a name. -/
def View.ofName? : String → Option View
  | "int" => some int
  | "uint" => some uint
  | "float" => some float
  | "bits" => some bits
  | _ => none

inductive Verb where
  | run | disasm | asm
deriving DecidableEq, Repr

/-- The verb of a name. -/
def Verb.ofName? : String → Option Verb
  | "run" => some run
  | "disasm" => some disasm
  | "asm" => some asm
  | _ => none

/-- The options of all verbs. -/
inductive Flag where
  | function | args | inputs | maxSteps | view | json | output | help
deriving DecidableEq, Repr

namespace Flag

/-- The name behind two dashes. -/
def long : Flag → String
  | function => "function"
  | args => "args"
  | inputs => "inputs"
  | maxSteps => "max-steps"
  | view => "view"
  | json => "json"
  | output => "output"
  | help => "help"

/-- The letter behind one dash. -/
def short? : Flag → Option Char
  | output => some 'o'
  | help => some 'h'
  | _ => none

def takesValue : Flag → Bool
  | json | help => false
  | _ => true

/-- Whether the next argument is the value even if it looks like an option. -/
def takesAnything : Flag → Bool
  | args | inputs => true
  | _ => false

end Flag

/-- The options of a verb. -/
def Verb.flags : Verb → List Flag
  | run => [.function, .args, .inputs, .maxSteps, .view, .json, .help]
  | disasm => [.function, .help]
  | asm => [.output, .help]

/-- What help can be asked for. -/
inductive Topic where
  | overview
  | verb (verb : Verb)
  /-- How to ask for help. -/
  | help
deriving DecidableEq, Repr

/-- Why there is nothing to carry out. -/
inductive Refusal where
  /-- The arguments make no sense. -/
  | usage
  | version
  | help (topic : Topic)
deriving DecidableEq, Repr

/-- What the arguments have given so far. -/
structure Draft where
  file : Option Path := none
  function : Option String := none
  args : List String := []
  inputs : List String := []
  maxSteps : Option Nat := none
  view : Option View := none
  json : Bool := false
  output : Option Path := none
deriving Repr

/-- A path that does not lead out of its directory. -/
def safePath? (text : String) : Option Path :=
  let path := Path.ofString text
  if path.leadsUp then none else some path

/-- The words that commas separate. -/
def splitWords (text : String) : List String := (text.toList.splitOn ',').map String.ofList

namespace Draft

def addFile? (d : Draft) (text : String) : Option Draft := do
  if d.file.isSome then none
  return { d with file := some (← safePath? text) }

/-- Gives an option its value. Options other than lists can have one value only. -/
def set? (d : Draft) (flag : Flag) (value : String) : Option Draft :=
  match flag with
  | .function => if d.function.isSome then none else some { d with function := some value }
  | .args => some { d with args := d.args ++ splitWords value }
  | .inputs => some { d with inputs := d.inputs ++ splitWords value }
  | .maxSteps =>
    if d.maxSteps.isSome then none
    else
      match readBudget value.toList with
      | .ok limit => some { d with maxSteps := some limit }
      | .error _ => none
  | .view => do
    if d.view.isSome then none
    return { d with view := some (← View.ofName? value) }
  | .output => do
    if d.output.isSome then none
    return { d with output := some (← safePath? value) }
  | .json | .help => none

/-- Gives an option that takes no value. -/
def raise? (d : Draft) (flag : Flag) : Option Draft :=
  if flag = .json ∧ !d.json then some { d with json := true } else none

end Draft

/-- One argument by itself. -/
inductive Token where
  /-- Two dashes alone. -/
  | divider
  /-- An option with the value that is attached to it. -/
  | flag (flag : Flag) (value : Option String)
  /-- What looks like an option and is none. -/
  | unknown
  | word (text : String)
deriving DecidableEq, Repr

/-- Whether an argument looks like an option. A single dash does not. -/
def looksLikeFlag (text : String) : Bool :=
  match text.toList with
  | '-' :: _ :: _ => true
  | _ => false

/-- The option that a name in front of an equals sign means. -/
def longToken (flags : List Flag) (cs : List Char) : Token :=
  let name := String.ofList (cs.takeWhile (· != '='))
  let value := match cs.dropWhile (· != '=') with
    | _ :: value => some (String.ofList value)
    | [] => none
  match flags.find? fun flag => flag.long == name with
  | some flag => .flag flag value
  | none => .unknown

/-- The option that a letter means, whose value may stand right behind it. -/
def shortToken (flags : List Flag) (letter : Char) (cs : List Char) : Token :=
  match flags.find? fun flag => flag.short? == some letter with
  | some flag =>
    if flag.takesValue then
      match cs with
      | [] => .flag flag none
      | '=' :: value => .flag flag (some (String.ofList value))
      | value => .flag flag (some (String.ofList value))
    else .flag flag none
  | none => .unknown

def Token.ofArgument (flags : List Flag) (text : String) : Token :=
  match text.toList with
  | ['-', '-'] => .divider
  | '-' :: '-' :: cs => longToken flags cs
  | '-' :: letter :: cs => shortToken flags letter cs
  | _ => .word text

/-- A step that can only fail because the arguments make no sense. -/
def orUsage {α : Type} : Option α → Except Refusal α
  | some a => .ok a
  | none => .error .usage

/-- Reads the arguments of a verb. -/
def Draft.read (verb : Verb) (d : Draft) : List String → Except Refusal Draft
  | [] => .ok d
  | argument :: rest =>
    match Token.ofArgument verb.flags argument with
    | .divider => orUsage (rest.foldlM Draft.addFile? d)
    | .unknown => .error .usage
    | .word text => do
      let d ← orUsage (d.addFile? text)
      Draft.read verb d rest
    | .flag .help none => .error (.help (.verb verb))
    | .flag flag (some value) =>
      if flag.takesValue then do
        let d ← orUsage (d.set? flag value)
        Draft.read verb d rest
      else .error .usage
    | .flag flag none =>
      if flag.takesValue then
        match rest with
        | [] => .error .usage
        | value :: rest =>
          if looksLikeFlag value && !flag.takesAnything then .error .usage
          else do
            let d ← orUsage (d.set? flag value)
            Draft.read verb d rest
      else do
        let d ← orUsage (d.raise? flag)
        Draft.read verb d rest

/-- What `run` is asked for. -/
structure RunRequest where
  file : Path
  function : Option String
  args : List String
  inputs : List String
  maxSteps : Option Nat
  view : View
  json : Bool
deriving DecidableEq, Repr

/-- What the command line is asked for. -/
inductive Request where
  | run (request : RunRequest)
  | disasm (file : Path) (function : Option String)
  | asm (file : Path) (output : Option Path)
deriving DecidableEq, Repr

namespace Request

/-- The request of a verb whose arguments have all been read. -/
def ofDraft? (verb : Verb) (d : Draft) : Option Request := do
  let file ← d.file
  match verb with
  | .run =>
    return .run ⟨file, d.function, d.args, d.inputs, d.maxSteps, d.view.getD .int, d.json⟩
  | .disasm => return .disasm file d.function
  | .asm => return .asm file d.output

/-- What the words behind `help` ask for. -/
def readHelp : List String → Refusal
  | [] => .help .overview
  | ["help"] => .help .help
  | [name] =>
    match Verb.ofName? name with
    | some verb => .help (.verb verb)
    | none => .usage
  | _ => .usage

/-- What stands in front of a verb, where only help and the version can be asked for. -/
def readOption : List Char → Refusal
  | '-' :: '-' :: name =>
    if String.ofList name = "help" then .help .overview
    else if String.ofList name = "version" then .version
    else .usage
  | '-' :: letter :: _ =>
    if letter = 'h' then .help .overview else if letter = 'V' then .version else .usage
  | _ => .usage

/-- What the arguments ask for. -/
def read : List String → Except Refusal Request
  | [] => .error .usage
  | "help" :: rest => .error (readHelp rest)
  | name :: rest =>
    match Verb.ofName? name with
    | some verb => do
      let d ← Draft.read verb {} rest
      orUsage (ofDraft? verb d)
    | none => .error (readOption name.toList)

end Request

end ShaderMachine.CommandLine
