import ShaderMachine.Document.Toml.Scalar
import ShaderMachine.Document.Toml.Table

/-!
# Reading TOML

The grammar of values, assignments and section headers. Arrays and inline tables may extend over
several lines, hold comments and end in a comma; everything else stands on one line.

Fuel bounds the number of nested or consecutive parts, and the length of the input is always enough
of it.
-/

namespace ShaderMachine.Document.Toml

/-- Line breaks as single characters, without a byte order mark. -/
def normalize : List Char → List Char
  | '\r' :: '\n' :: rest => '\n' :: normalize rest
  | c :: rest => c :: normalize rest
  | [] => []

def dropMark : List Char → List Char
  | '\ufeff' :: rest => rest
  | cs => cs

/-- Skips blanks within a line. -/
def skipSpace (cs : List Char) : List Char := cs.dropWhile isSpace

/-- Skips blanks, line breaks and comments. -/
def skipLines? (inComment : Bool) : List Char → Option (List Char)
  | [] => some []
  | c :: rest =>
    if c = '\n' then skipLines? false rest
    else if inComment then
      if isControl c then none else skipLines? true rest
    else if c = '#' then skipLines? true rest
    else if isSpace c then skipLines? false rest
    else some (c :: rest)

/-- Skips what is left of a line, which may be a comment only. -/
def endLine? (cs : List Char) : Option (List Char) :=
  let rest := skipSpace cs
  let rest := if rest.head? = some '#' then rest.dropWhile (· != '\n') else rest
  let comment := (skipSpace cs).takeWhile (· != '\n')
  if comment.any isControl then none
  else
    match rest with
    | [] => some []
    | '\n' :: rest => some rest
    | _ => none

/-! ## Keys -/

def isKeyChar (c : Char) : Bool := c.isAlphanum || c == '_' || c == '-'

def key? (cs : List Char) : Option (String × List Char) :=
  match cs.takeWhile isKeyChar with
  | [] => (lineString? cs).map fun (text, rest) => (String.ofList text, rest)
  | name => some (String.ofList name, cs.dropWhile isKeyChar)

/-- The keys behind the first one of a path, and what follows it without blanks. -/
def moreKeys? : Nat → List Char → Option (List String × List Char)
  | 0, _ => none
  | fuel + 1, cs =>
    match skipSpace cs with
    | '.' :: rest => do
      let (key, rest) ← key? (skipSpace rest)
      let (keys, rest) ← moreKeys? fuel rest
      return (key :: keys, rest)
    | rest => some ([], rest)

def keyPath? (fuel : Nat) (cs : List Char) : Option (KeyPath × List Char) := do
  let (key, rest) ← key? cs
  let (keys, rest) ← moreKeys? fuel rest
  return (⟨key, keys⟩, rest)

/-! ## Values -/

mutual

/-- A value at the start of the input. -/
def value? : Nat → List Char → Option (Node × List Char)
  | 0, _ => none
  | fuel + 1, cs =>
    match cs with
    | '[' :: rest => do
      let (items, rest) ← items? fuel (← skipLines? false rest)
      return (.list items, rest)
    | '\x7b' :: rest => do
      let (assignments, rest) ← inline? fuel (← skipLines? false rest)
      let table ← Table.assignAll [] assignments
      return (table.node, rest)
    | c :: _ =>
      if c = '"' ∨ c = '\'' then do
        let (text, rest) ← string? cs
        return (.scalar { text := some (String.ofList text) }, rest)
      else do
        let (text, rest) := bareText cs
        let s ← bare? text
        return (.scalar s, rest)
    | [] => none

/-- The items of an array up to its closing bracket. -/
def items? : Nat → List Char → Option (List Node × List Char)
  | 0, _ => none
  | fuel + 1, cs =>
    match cs with
    | ']' :: rest => some ([], rest)
    | cs => do
      let (item, rest) ← value? fuel cs
      match ← skipLines? false rest with
      | ',' :: rest =>
        let (items, rest) ← items? fuel (← skipLines? false rest)
        return (item :: items, rest)
      | ']' :: rest => return ([item], rest)
      | _ => none

/-- The assignments of an inline table up to its closing brace. -/
def inline? : Nat → List Char → Option (List (KeyPath × Node) × List Char)
  | 0, _ => none
  | fuel + 1, cs =>
    match cs with
    | '\x7d' :: rest => some ([], rest)
    | cs => do
      let (assignment, rest) ← assignment? fuel cs
      match ← skipLines? false rest with
      | ',' :: rest =>
        let (assignments, rest) ← inline? fuel (← skipLines? false rest)
        return (assignment :: assignments, rest)
      | '\x7d' :: rest => return ([assignment], rest)
      | _ => none

/-- A path, an equals sign and a value. -/
def assignment? : Nat → List Char → Option ((KeyPath × Node) × List Char)
  | 0, _ => none
  | fuel + 1, cs => do
    let (path, rest) ← keyPath? (fuel + 1) cs
    match rest with
    | '=' :: rest =>
      let (value, rest) ← value? fuel (skipSpace rest)
      return ((path, value), rest)
    | _ => none

end

/-! ## Sections -/

/-- The header of a section behind its first bracket: its path and whether it adds an item. -/
def header? (fuel : Nat) (cs : List Char) : Option ((KeyPath × Bool) × List Char) := do
  let (isItem, cs) := match cs with
    | '[' :: rest => (true, rest)
    | cs => (false, cs)
  let (path, rest) ← keyPath? fuel (skipSpace cs)
  match isItem, rest with
  | true, ']' :: ']' :: rest => return ((path, isItem), rest)
  | false, ']' :: rest => return ((path, isItem), rest)
  | _, _ => none

/-- Assignments, one on a line, up to the next header or the end. -/
def assignments? : Nat → List Char → Option (List (KeyPath × Node) × List Char)
  | 0, _ => none
  | fuel + 1, cs => do
    match ← skipLines? false cs with
    | [] => return ([], [])
    | '[' :: rest => return ([], '[' :: rest)
    | cs =>
      let (assignment, rest) ← assignment? fuel cs
      let (assignments, rest) ← assignments? fuel (← endLine? rest)
      return (assignment :: assignments, rest)

/-- Sections up to the end. -/
def sections? : Nat → List Char → Option (List Section)
  | 0, _ => none
  | fuel + 1, cs =>
    match cs with
    | [] => some []
    | '[' :: rest => do
      let ((path, isItem), rest) ← header? fuel rest
      let (assignments, rest) ← assignments? fuel (← endLine? rest)
      let sections ← sections? fuel rest
      return ⟨path, isItem, assignments⟩ :: sections
    | _ => none

/-- The record that a text describes. -/
def read? (text : String) : Option Node := do
  let cs := normalize (dropMark text.toList)
  let fuel := 2 * cs.length + 4
  let (assignments, rest) ← assignments? fuel cs
  document? assignments (← sections? fuel rest)

end ShaderMachine.Document.Toml
