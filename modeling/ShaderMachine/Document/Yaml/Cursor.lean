/-!
# Places in a YAML text

Indentation decides the structure of a YAML text, so a place in it is known by its line and its
column: what is left of the line, how much of the line lies in front, and the lines below.
-/

namespace ShaderMachine.Document.Yaml

/-- A place in a text. -/
structure Cursor where
  rest : List Char
  column : Nat
  below : List (List Char)
deriving DecidableEq, Repr

/-- Blanks within a line. -/
def isBlank (c : Char) : Bool := c = ' ' || c = '\t'

/-- Whether a word cannot go on here. -/
def wordEnds : List Char → Bool
  | [] => true
  | c :: _ => isBlank c

/-- The number of blanks that indent a line. -/
def indentation (line : List Char) : Nat := (line.takeWhile (· == ' ')).length

/-- Whether a line begins with the mark that starts or ends a document. -/
def isMarker (line : List Char) : Bool :=
  (line.take 3 == ['-', '-', '-'] || line.take 3 == ['.', '.', '.']) && wordEnds (line.drop 3)

namespace Cursor

/-- The place some characters further on the same line. -/
def advance (c : Cursor) (count : Nat) : Cursor :=
  { c with rest := c.rest.drop count, column := c.column + count }

/-- The place on the same line where `rest` is left. -/
def upTo (c : Cursor) (rest : List Char) : Cursor :=
  { c with rest := rest, column := c.column + (c.rest.length - rest.length) }

def atEnd (c : Cursor) : Bool := c.rest.isEmpty && c.below.isEmpty

/-- Whether a document ends or another one starts here. -/
def atMarker (c : Cursor) : Bool := c.column == 0 && isMarker c.rest

/-- Whether two places of one text are on the same line. -/
def sameLine (c d : Cursor) : Bool := c.below.length == d.below.length

/-- The place behind blanks, line breaks and comments. A tab is a blank only if `tabs` says so, for
the first line, or within brackets. -/
def skipFrom (inBrackets tabs : Bool) (rest : List Char) (column : Nat) :
    List (List Char) → Cursor
  | [] =>
    let blanks := rest.takeWhile fun c => c == ' ' || (tabs && c == '\t')
    match rest.drop blanks.length with
    | '#' :: _ => ⟨[], column + rest.length, []⟩
    | rest => ⟨rest, column + blanks.length, []⟩
  | line :: below =>
    let blanks := rest.takeWhile fun c => c == ' ' || (tabs && c == '\t')
    match rest.drop blanks.length with
    | [] | '#' :: _ => skipFrom inBrackets inBrackets line 0 below
    | rest => ⟨rest, column + blanks.length, line :: below⟩

def skip (inBrackets tabs : Bool) (c : Cursor) : Cursor :=
  skipFrom inBrackets tabs c.rest c.column c.below

end Cursor

end ShaderMachine.Document.Yaml
