import ShaderMachine.Document.Node
import ShaderMachine.Document.Yaml.Cursor
import ShaderMachine.Numeral
import ShaderMachine.Text.Escape

/-!
# YAML scalars

Scalars are written plain, in quotes, or as a block of lines. Every scalar is a text; only a plain
one can also be a number, a truth value, or nothing. In plain and quoted scalars a line break stands
for a blank, and empty lines stand for line breaks.
-/

namespace ShaderMachine.Document.Yaml

/-! ## Values -/

/-- Whether digits have a leading zero that no number has. -/
def hasLeadingZero : List Char → Bool
  | '0' :: c :: rest => (c :: rest).all fun c => (Numeral.digitValue? 10 c).isSome
  | _ => false

/-- A number in the digits of a radix, without a sign. -/
def unsigned? (radix : Nat) : List Char → Option Int
  | [] => none
  | cs => do
    let digits ← cs.mapM (Numeral.digitValue? radix)
    return (digits.foldl (fun n d => radix * n + d) 0 : Nat)

/-- The natural number that a plain scalar denotes. -/
def natural? (cs : List Char) : Option Int :=
  let unsigned := match cs with
    | '+' :: rest => rest
    | cs => cs
  match unsigned with
  | '0' :: 'x' :: digits => unsigned? 16 digits
  | '0' :: 'o' :: digits => unsigned? 8 digits
  | '0' :: 'b' :: digits => unsigned? 2 digits
  | digits => if hasLeadingZero digits then none else unsigned? 10 digits

/-- The truth value that a plain scalar denotes. -/
def truth? (text : String) : Option Bool :=
  if ["true", "True", "TRUE"].contains text then some true
  else if ["false", "False", "FALSE"].contains text then some false
  else none

/-- The scalar that is written plain. -/
def plainScalar (cs : List Char) : Scalar :=
  let text := String.ofList cs
  { text := some text
    integer := natural? cs
    flag := truth? text
    isNull := ["", "~", "null", "Null", "NULL"].contains text
    isBlank := cs.isEmpty }

/-- The scalar that is written in quotes or as a block. -/
def textScalar (cs : List Char) : Scalar := { text := some (String.ofList cs) }

/-- What is written where a value is left out. -/
def blankNode : Node := .scalar (plainScalar [])

/-! ## Plain scalars -/

/-- The characters that end a plain scalar within brackets. -/
def isBracketMark (c : Char) : Bool :=
  c == ',' || c == '[' || c == ']' || c == '\x7b' || c == '\x7d'

/-- The characters that cannot start a plain scalar. -/
def isIndicator (c : Char) : Bool :=
  isBracketMark c || c == '#' || c == '&' || c == '*' || c == '!' || c == '|' || c == '>' ||
    c == '\'' || c == '"' || c == '%' || c == '@' || c == '\x60'

/-- Whether a plain scalar starts here. -/
def startsPlain (inBrackets : Bool) : List Char → Bool
  | [] => false
  | c :: rest =>
    if c == '-' then !wordEnds rest
    else if c == '?' || c == ':' then !inBrackets && !wordEnds rest
    else !(isBlank c || isIndicator c)

/-- The part of a plain scalar that stands on one line, and what follows on the line. -/
def plainLine? (inBrackets afterBlank : Bool) : List Char → Option (List Char × List Char)
  | [] => some ([], [])
  | c :: rest =>
    if (c == '#' && afterBlank) || (inBrackets && isBracketMark c) || (c == ':' && wordEnds rest)
    then some ([], c :: rest)
    else if inBrackets && c == ':' && rest.head?.any fun d => isBracketMark d || d == '?' then none
    else do
      let (text, rest) ← plainLine? inBrackets (isBlank c) rest
      return (c :: text, rest)

/-- The text without blanks at its end. -/
def trimEnd (cs : List Char) : List Char := (cs.reverse.dropWhile isBlank).reverse

/-- What a line break stands for that empty lines follow. -/
def fold (emptyLines : Nat) : List Char :=
  if emptyLines = 0 then [' '] else List.replicate emptyLines '\n'

/-- Continues a plain scalar on the lines below. Outside of brackets they have to be indented by
`indent` blanks. -/
def plainBelow? (inBrackets : Bool) (indent : Nat) (text : List Char) (emptyLines : Nat)
    (here : Cursor) : List (List Char) → Option (List Char × Cursor)
  | [] => some (text, here)
  | line :: below =>
    let blanks := indentation line
    if blanks < indent && (line.drop blanks).head? == some '\t' then none
    else
      match line.dropWhile isBlank with
      | [] => plainBelow? inBrackets indent text (emptyLines + 1) here below
      | start =>
        if isMarker line || (!inBrackets && decide (blanks < indent)) || start.head? == some '#'
        then some (text, here)
        else
          match plainLine? inBrackets false start with
          | none => none
          | some ([], _) => some (text, here)
          | some (chunk, rest) =>
            let text := text ++ fold emptyLines ++ trimEnd chunk
            let here : Cursor := ⟨rest, line.length - rest.length, below⟩
            if rest.isEmpty then plainBelow? inBrackets indent text 0 here below
            else some (text, here)

/-- A plain scalar and the place behind it. -/
def plain? (inBrackets : Bool) (indent : Nat) (c : Cursor) : Option (List Char × Cursor) := do
  let (chunk, rest) ← plainLine? inBrackets false c.rest
  let here := c.upTo rest
  if rest.isEmpty then plainBelow? inBrackets indent (trimEnd chunk) 0 here c.below
  else return (trimEnd chunk, here)

/-! ## Quoted scalars -/

/-- What a character stands for behind a backslash, but for the escapes by number. -/
def unescape? : Char → Option Char
  | '0' => some '\x00'
  | 'a' => some '\x07'
  | 'b' => some '\x08'
  | 't' | '\t' => some '\t'
  | 'n' => some '\n'
  | 'v' => some '\x0b'
  | 'f' => some '\x0c'
  | 'r' => some '\r'
  | 'e' => some '\x1b'
  | ' ' => some ' '
  | '"' => some '"'
  | '/' => some '/'
  | '\\' => some '\\'
  | 'N' => some '\u0085'
  | '_' => some '\u00a0'
  | 'L' => some '\u2028'
  | 'P' => some '\u2029'
  | _ => none

/-- The part of a quoted scalar that stands on one line. -/
inductive QuotedPart where
  /-- The closing quote is on the line. -/
  | closed (text rest : List Char)
  /-- The line ends before; `joined` if nothing stands for the line break. -/
  | broken (text : List Char) (joined : Bool)

/-- The part with a character in front. -/
def QuotedPart.cons (c : Char) : QuotedPart → QuotedPart
  | closed text rest => closed (c :: text) rest
  | broken text joined => broken (c :: text) joined

def singleQuoted : List Char → QuotedPart
  | [] => .broken [] false
  | '\'' :: '\'' :: rest => (singleQuoted rest).cons '\''
  | '\'' :: rest => .closed [] rest
  | c :: rest =>
    if isBlank c && rest.all isBlank then .broken [] false else (singleQuoted rest).cons c

def doubleQuoted? : List Char → Option QuotedPart
  | [] => some (.broken [] false)
  | '"' :: rest => some (.closed [] rest)
  | ['\\'] => some (.broken [] true)
  | '\\' :: 'x' :: a :: b :: rest => do
    let c ← Text.charOfHex? [a, b]
    return (← doubleQuoted? rest).cons c
  | '\\' :: 'u' :: a :: b :: c :: d :: rest => do
    let c ← Text.charOfHex? [a, b, c, d]
    return (← doubleQuoted? rest).cons c
  | '\\' :: 'U' :: a :: b :: c :: d :: e :: f :: g :: h :: rest => do
    let c ← Text.charOfHex? [a, b, c, d, e, f, g, h]
    return (← doubleQuoted? rest).cons c
  | '\\' :: e :: rest => do
    let c ← unescape? e
    return (← doubleQuoted? rest).cons c
  | c :: rest =>
    if isBlank c && rest.all isBlank then some (.broken [] false)
    else (doubleQuoted? rest).map (·.cons c)

def quotedLine? (double : Bool) (cs : List Char) : Option QuotedPart :=
  if double then doubleQuoted? cs else some (singleQuoted cs)

/-- Continues a quoted scalar on the lines below. -/
def quotedBelow? (double : Bool) (text : List Char) (joined : Bool) (emptyLines : Nat) :
    List (List Char) → Option (List Char × Cursor)
  | [] => none
  | line :: below =>
    if isMarker line then none
    else
      match line.dropWhile isBlank with
      | [] => quotedBelow? double text joined (emptyLines + 1) below
      | start =>
        let text := text ++ (if joined then List.replicate emptyLines '\n' else fold emptyLines)
        match quotedLine? double start with
        | none => none
        | some (.closed chunk rest) =>
          some (text ++ chunk, ⟨rest, line.length - rest.length, below⟩)
        | some (.broken chunk joined) => quotedBelow? double (text ++ chunk) joined 0 below

/-- A quoted scalar, from behind its opening quote, and the place behind it. -/
def quoted? (double : Bool) (c : Cursor) : Option (List Char × Cursor) := do
  match ← quotedLine? double c.rest with
  | .closed text rest => return (text, c.upTo rest)
  | .broken text joined => quotedBelow? double text joined 0 c.below

/-! ## Block scalars -/

/-- What becomes of the line breaks at the end of a block. -/
inductive Chomping where
  | strip | clip | keep
deriving DecidableEq, Repr

/-- What stands on the line that announces a block. -/
structure BlockHeader where
  chomping : Chomping := .clip
  /-- The indentation relative to what is around the block. -/
  indent : Option Nat := none

/-- The header of a block behind its indicator; nothing but a comment may follow. -/
def blockHeader? (header : BlockHeader) : List Char → Option BlockHeader
  | [] => some header
  | c :: rest =>
    if c == '+' || c == '-' then
      if header.chomping = .clip then
        blockHeader? { header with chomping := if c == '+' then .keep else .strip } rest
      else none
    else if isBlank c || c == '#' then
      match (c :: rest).dropWhile isBlank with
      | [] | '#' :: _ => some header
      | _ => none
    else
      match Numeral.digitValue? 10 c, header.indent with
      | some (n + 1), none => blockHeader? { header with indent := some (n + 1) } rest
      | _, _ => none

/-- The indentation that the first lines of a block show; tabs do not indent. -/
def shownIndent? : List (List Char) → Option Nat
  | [] => some 0
  | line :: below =>
    let blanks := indentation line
    match line.drop blanks with
    | [] => (shownIndent? below).map (max blanks)
    | c :: _ => if c == '\t' then none else some blanks

/-- What the lines of a block have given so far. -/
structure BlockText where
  text : List Char := []
  /-- Whether a line break follows the last line of the text. -/
  broken : Bool := false
  /-- Whether the last line starts with a blank. -/
  startsBlank : Bool := false
  /-- The number of empty lines since. -/
  emptyLines : Nat := 0

/-- Adds a line without its indentation. Line breaks between lines are kept in a literal block; in a
folded one they are if one of the lines starts with a blank. -/
def BlockText.add (block : BlockText) (literal : Bool) (line : List Char) (isLast : Bool) :
    BlockText :=
  let startsBlank := line.head?.any isBlank
  let join :=
    if !block.broken then []
    else if literal || block.startsBlank || startsBlank then ['\n']
    else if block.emptyLines = 0 then [' ']
    else []
  { text := block.text ++ join ++ List.replicate block.emptyLines '\n' ++ line
    broken := !isLast
    startsBlank := startsBlank
    emptyLines := 0 }

/-- The text of a whole block. -/
def BlockText.finish (block : BlockText) (chomping : Chomping) : List Char :=
  let lineBreak := if block.broken then ['\n'] else []
  match chomping with
  | .strip => block.text
  | .clip => block.text ++ lineBreak
  | .keep => block.text ++ lineBreak ++ List.replicate block.emptyLines '\n'

/-- Takes the lines of a block, and finds the place behind it. -/
def blockLines? (literal : Bool) (indent : Nat) (block : BlockText) :
    List (List Char) → Option (BlockText × Cursor)
  | [] => some (block, ⟨[], 0, []⟩)
  | line :: below =>
    let blanks := indentation line
    match line.drop (min blanks indent) with
    | [] =>
      let emptyLines := if below.isEmpty then block.emptyLines else block.emptyLines + 1
      blockLines? literal indent { block with emptyLines := emptyLines } below
    | c :: rest =>
      if indent ≤ blanks then
        blockLines? literal indent (block.add literal (c :: rest) below.isEmpty) below
      else if c == '\t' then none
      else some (block, ⟨line, 0, below⟩)

/-- A block scalar, from behind its indicator, and the place behind it. Its lines have to be
indented by at least `indent` blanks. -/
def block? (literal : Bool) (indent : Nat) (c : Cursor) : Option (List Char × Cursor) := do
  let header ← blockHeader? {} c.rest
  let indent ← match header.indent with
    | some n => some (indent - 1 + n)
    | none => (shownIndent? c.below).map fun shown => max (max shown indent) 1
  let (block, place) ← blockLines? literal indent {} c.below
  return (block.finish header.chomping, place)

end ShaderMachine.Document.Yaml
