import ShaderMachine.Document.Node
import ShaderMachine.Numeral

/-!
# Reading JSON

A reader for the grammar of JSON, without extensions. Two things are kept apart from their text:
a number is an integer only if it is written without point, exponent and negative zero, and a string
is a text only if its escapes denote characters. A value for which neither holds may still stand
where it is not looked at.

The reader works on characters. Its fuel bounds the nesting, and the length of the input is always
enough of it.
-/

namespace ShaderMachine.Document.Json

/-- Skips blanks. -/
def skip (cs : List Char) : List Char :=
  cs.dropWhile fun c => c = ' ' || c = '\n' || c = '\t' || c = '\r'

def isDigit (c : Char) : Bool := (Numeral.digitValue? 10 c).isSome

/-! ## Numbers -/

/-- One or more digits, and what follows them. -/
def digits? (cs : List Char) : Option (List Char × List Char) :=
  match cs.takeWhile isDigit with
  | [] => none
  | ds => some (ds, cs.dropWhile isDigit)

/-- The digits of an integer, which have no leading zero. -/
def wholeDigits? (cs : List Char) : Option (List Char × List Char) :=
  match cs with
  | '0' :: rest => if rest.head?.any isDigit then none else some (['0'], rest)
  | cs => digits? cs

/-- Skips a point and the digits behind it, and says whether they were there. -/
def fraction? : List Char → Option (Bool × List Char)
  | '.' :: rest => (digits? rest).map fun (_, rest) => (true, rest)
  | cs => some (false, cs)

/-- Skips an exponent, and says whether it was there. -/
def exponent? (cs : List Char) : Option (Bool × List Char) :=
  match cs with
  | mark :: rest =>
    if mark = 'e' ∨ mark = 'E' then
      let rest := match rest with
        | '+' :: rest => rest
        | '-' :: rest => rest
        | rest => rest
      (digits? rest).map fun (_, rest) => (true, rest)
    else some (false, cs)
  | [] => some (false, [])

def digitsValue (ds : List Char) : Nat :=
  ds.foldl (fun n c => 10 * n + (Numeral.digitValue? 10 c).getD 0) 0

/-- A number, with its value if it is written as an integer. -/
def number? (cs : List Char) : Option (Option Int × List Char) := do
  let (negative, rest) := match cs with
    | '-' :: rest => (true, rest)
    | rest => (false, rest)
  let (ds, rest) ← wholeDigits? rest
  let (hasFraction, rest) ← fraction? rest
  let (hasExponent, rest) ← exponent? rest
  let n := digitsValue ds
  if hasFraction || hasExponent || (negative && n == 0) then return (none, rest)
  else return (some (if negative then -(n : Int) else n), rest)

/-! ## Strings -/

/-- What a character stands for behind a backslash, but for the escape by number. -/
def unescape? : Char → Option Char
  | '"' => some '"'
  | '\\' => some '\\'
  | '/' => some '/'
  | 'b' => some '\x08'
  | 'f' => some '\x0c'
  | 'n' => some '\n'
  | 'r' => some '\r'
  | 't' => some '\t'
  | _ => none

/-- Four hexadecimal digits as a number. -/
def hex4? (a b c d : Char) : Option Nat := do
  let a ← Numeral.digitValue? 16 a
  let b ← Numeral.digitValue? 16 b
  let c ← Numeral.digitValue? 16 c
  let d ← Numeral.digitValue? 16 d
  return ((a * 16 + b) * 16 + c) * 16 + d

/-- A part of a string: a character, or a 16-bit unit that is given by number. -/
inductive Piece where
  | char (c : Char)
  | unit (n : Nat)
deriving DecidableEq, Repr

/-- The parts of a string up to its closing quote, and what follows. -/
def pieces? : List Char → Option (List Piece × List Char)
  | [] => none
  | '"' :: rest => some ([], rest)
  | '\\' :: 'u' :: a :: b :: c :: d :: rest => do
    let n ← hex4? a b c d
    let (ps, rest) ← pieces? rest
    return (.unit n :: ps, rest)
  | '\\' :: e :: rest => do
    let c ← unescape? e
    let (ps, rest) ← pieces? rest
    return (.char c :: ps, rest)
  | c :: rest =>
    if c.toNat < 0x20 then none
    else do
      let (ps, rest) ← pieces? rest
      return (.char c :: ps, rest)

/-- The characters of a string. Units of a surrogate pair make one character; an unpaired one is no
character. -/
def join? : List Piece → Option (List Char)
  | [] => some []
  | .char c :: rest => (join? rest).map (c :: ·)
  | .unit high :: .unit low :: rest =>
    if 0xD800 ≤ high ∧ high < 0xDC00 then
      if 0xDC00 ≤ low ∧ low < 0xE000 then
        (join? rest).map (Char.ofNat (0x10000 + (high - 0xD800) * 0x400 + (low - 0xDC00)) :: ·)
      else none
    else if 0xDC00 ≤ high ∧ high < 0xE000 then none
    else (join? (.unit low :: rest)).map (Char.ofNat high :: ·)
  | .unit n :: rest =>
    if 0xD800 ≤ n ∧ n < 0xE000 then none else (join? rest).map (Char.ofNat n :: ·)

/-- The text of a string behind its opening quote, if its escapes denote characters. -/
def string? (cs : List Char) : Option (Option String × List Char) := do
  let (ps, rest) ← pieces? cs
  return ((join? ps).map String.ofList, rest)

/-! ## Values -/

/-- A number as a value. -/
def numberNode? (cs : List Char) : Option (Node × List Char) :=
  (number? cs).map fun (i, rest) => (.scalar { integer := i }, rest)

mutual

/-- A value at the start of the input, which has no blanks in front. -/
def value? : Nat → List Char → Option (Node × List Char)
  | 0, _ => none
  | fuel + 1, cs =>
    match cs with
    | '\x7b' :: rest =>
      match skip rest with
      | '\x7d' :: rest => some (.record [], rest)
      | rest => do
        let (entries, rest) ← entries? fuel rest
        return (.record entries, rest)
    | '[' :: rest =>
      match skip rest with
      | ']' :: rest => some (.list [], rest)
      | rest => do
        let (items, rest) ← items? fuel rest
        return (.list items, rest)
    | '"' :: rest => do
      let (text, rest) ← string? rest
      return (.scalar { text }, rest)
    | 't' :: 'r' :: 'u' :: 'e' :: rest => some (.scalar { flag := some true }, rest)
    | 'f' :: 'a' :: 'l' :: 's' :: 'e' :: rest => some (.scalar { flag := some false }, rest)
    | 'n' :: 'u' :: 'l' :: 'l' :: rest => some (.scalar { isNull := true }, rest)
    | cs => numberNode? cs

/-- One or more items and the bracket that ends their list. -/
def items? : Nat → List Char → Option (List Node × List Char)
  | 0, _ => none
  | fuel + 1, cs => do
    let (item, rest) ← value? fuel cs
    match skip rest with
    | ',' :: rest =>
      let (items, rest) ← items? fuel (skip rest)
      return (item :: items, rest)
    | ']' :: rest => return ([item], rest)
    | _ => none

/-- One or more entries and the brace that ends their record. -/
def entries? : Nat → List Char → Option (List (Option String × Node) × List Char)
  | 0, _ => none
  | fuel + 1, cs =>
    match cs with
    | '"' :: rest => do
      let (key, rest) ← string? rest
      match skip rest with
      | ':' :: rest =>
        let (item, rest) ← value? fuel (skip rest)
        match skip rest with
        | ',' :: rest =>
          let (entries, rest) ← entries? fuel (skip rest)
          return ((key, item) :: entries, rest)
        | '\x7d' :: rest => return ([(key, item)], rest)
        | _ => none
      | _ => none
    | _ => none

end

/-- The value that a text consists of. -/
def read? (text : String) : Option Node := do
  let cs := text.toList
  let (node, rest) ← value? (cs.length + 1) (skip cs)
  if skip rest = [] then return node else none

end ShaderMachine.Document.Json
