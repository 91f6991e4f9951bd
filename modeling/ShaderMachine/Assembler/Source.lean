import ShaderMachine.Assembler.Builder
import ShaderMachine.Assembler.Statement

/-!
# Assembling source text

Source text has one statement on a line, labels in front of it, and comments behind `;` or `#`.
Commas separate operands just like blanks, and a comparison may be written as two words. Labels are
resolved when the whole text has been read, so a branch may name a label that is defined later.

`SourceLine.read` takes a line apart, `Draft.add` hands its statement to an `Assembler`, and
`assemble` does both for all lines. Labels and literal offsets share one table of names: the offset
`12` has the name `@12`.
-/

namespace ShaderMachine

/-- Why source text does not assemble. -/
inductive AssembleError where
  | malformedLabel (line : Nat) (name : String)
  | statement (line : Nat) (e : StatementError)
  | undefinedLabel (line : Nat) (name : String)
  | build (e : BuildError)
deriving DecidableEq, Repr

/-- The messages of an error, from the outermost to its cause. -/
def AssembleError.messages : AssembleError → List String
  | malformedLabel line name =>
    ["line " ++ Numeral.natText line ++ ": malformed label '" ++ name ++ "'"]
  | statement line e => ("line " ++ Numeral.natText line) :: e.messages
  | undefinedLabel line name =>
    ["line " ++ Numeral.natText line ++ ": undefined label '" ++ name ++ "'"]
  | build e => [e.message]

/-- What stands on one line. -/
structure SourceLine where
  labels : List String
  /-- The tokens of a statement, if there is anything besides labels. -/
  statement : Option (List String)
deriving DecidableEq, Repr

namespace SourceLine

/-- The words after which a comparison goes on in the next token. -/
def compareFamilies : List (List Char) :=
  ["comparei", "comparef", "compares", "compareu"].map String.toList

/-- Joins the first word of a comparison with the token behind it. -/
def joinCompares : List (List Char) → List (List Char)
  | first :: second :: rest =>
    if compareFamilies.contains (Text.lower first) then
      joinCompares ((first ++ second) :: rest)
    else first :: joinCompares (second :: rest)
  | tokens => tokens
termination_by tokens => tokens.length

/-- The tokens of a text, which blanks and commas separate. -/
def tokens (cs : List Char) : List String :=
  (joinCompares (Text.words (cs.map fun c => if c = ',' then ' ' else c))).map String.ofList

/-- The text in front of a comment. -/
def withoutComment (cs : List Char) : List Char := cs.takeWhile fun c => c != ';' && c != '#'

/-- Whether a name, without blanks at its ends, can be a label. -/
def isLabel (name : List Char) : Bool := !name.isEmpty && !name.any Text.isBlank

/-- Takes a line apart. The error is the first name in front of a colon that cannot be a label. -/
def read (cs : List Char) : Except String SourceLine :=
  let parts := ((withoutComment cs).splitOn ':').map Text.trim
  let names := parts.dropLast
  match names.find? fun name => !isLabel name with
  | some name => .error (String.ofList name)
  | none =>
    let rest := parts.getLastD []
    .ok ⟨names.map String.ofList, if rest.isEmpty then none else some (tokens rest)⟩

end SourceLine

/-- A body that is being assembled from text. -/
structure Draft where
  assembler : Assembler := {}
  /-- The names of labels and literal offsets, the latest first. -/
  names : List (String × Label) := []
  /-- The targets of branches and their lines, the latest first. -/
  references : List (String × Nat) := []

namespace Draft

/-- The label of a name, which is created when the name is new. -/
def label (d : Draft) (name : String) : Label × Draft :=
  match d.names.lookup name with
  | some label => (label, d)
  | none =>
    let (label, assembler) := d.assembler.newLabel
    (label, { d with assembler := assembler, names := (name, label) :: d.names })

/-- The label of a literal offset, which is bound to that offset when it is created. -/
def offsetLabel (d : Draft) (offset : UInt16) : Label × Draft :=
  let name := "@" ++ Numeral.natText offset.toNat
  match d.names.lookup name with
  | some label => (label, d)
  | none =>
    let (label, assembler) := d.assembler.newLabelAt offset.toNat
    (label, { d with assembler := assembler, names := (name, label) :: d.names })

/-- The label of a branch target on a line. -/
def target (d : Draft) (line : Nat) (t : Target) : Label × Draft :=
  let d := { d with references := (t.token, line) :: d.references }
  match t with
  | .label name => d.label name
  | .offset _ offset => d.offsetLabel offset

/-- Defines a label at the current position. -/
def define (d : Draft) (name : String) : Draft :=
  let (label, d) := d.label name
  { d with assembler := d.assembler.bind label }

/-- Makes a call to the assembler. -/
def call (d : Draft) (call : Assembler.Call) : Draft :=
  { d with assembler := d.assembler.call call }

/-- Adds the statement of a line. -/
def add (d : Draft) (line : Nat) : Statement → Draft
  | .plain op => d.call (.op (.plain op))
  | .branch t =>
    let (label, d) := d.target line t
    d.call (.branch label)
  | .conditionalBranch t =>
    let (label, d) := d.target line t
    d.call (.conditionalBranch label)
  | .dupDown count => d.call (.dupDown count)
  | .loadGlobal index => d.call (.loadGlobal index)
  | .pop count => d.call (.pop count)
  | .ret count => d.call (.ret count)
  | .pushImmediate value => d.call (.pushImmediate value)
  | .loadSwizzle offsets => d.call (.loadSwizzle offsets)
  | .storeSwizzle offsets => d.call (.storeSwizzle offsets)
  | .swizzle sources indices => d.call (.swizzle sources indices)
  | .vector lanes op => d.call (.vector lanes (.plain op))
  | .vectorLoadGlobal lanes index => d.call (.vectorLoadGlobal lanes index)
  | .vectorBranch lanes t =>
    let (label, d) := d.target line t
    d.call (.vectorBranch lanes .branch label)
  | .vectorConditionalBranch lanes t =>
    let (label, d) := d.target line t
    d.call (.vectorBranch lanes .conditionalBranch label)

/-- Adds a line: first its labels, then its statement. -/
def addLine (d : Draft) (line : Nat) (cs : List Char) : Except AssembleError Draft :=
  match SourceLine.read cs with
  | .error name => .error (.malformedLabel line name)
  | .ok content =>
    let d := content.labels.foldl define d
    match content.statement with
    | none => .ok d
    | some tokens =>
      match Statement.read tokens with
      | .ok statement => .ok (d.add line statement)
      | .error e => .error (.statement line e)

/-- Adds lines, the first of which has the given number. -/
def addLines (d : Draft) (line : Nat) : List (List Char) → Except AssembleError Draft
  | [] => .ok d
  | cs :: rest => do
    let d ← d.addLine line cs
    d.addLines (line + 1) rest

/-- Whether a name is one of a label without an offset. -/
def isUndefined (d : Draft) (name : String) : Bool :=
  match d.names.lookup name with
  | some label => d.assembler.labels[label.index]? == some none
  | none => false

/-- The finished body. A branch to a label that is nowhere defined is reported before all errors of
the assembler. -/
def finish (d : Draft) : Except AssembleError Code :=
  match d.references.reverse.find? fun (name, _) => d.isUndefined name with
  | some (name, line) => .error (.undefinedLabel line name)
  | none =>
    match d.assembler.finish with
    | .ok code => .ok code
    | .error e => .error (.build e)

end Draft

/-- Assembles source text into a body. -/
def assemble (source : String) : Except AssembleError Code := do
  let draft ← Draft.addLines {} 1 (source.toList.splitOn '\n')
  draft.finish

end ShaderMachine
