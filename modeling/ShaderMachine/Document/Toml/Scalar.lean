import ShaderMachine.Document.Node
import ShaderMachine.Numeral
import ShaderMachine.Text.Escape

/-!
# TOML scalars

Strings in their four forms, and the values that are written without quotes: truth values, integers,
floats, dates and times. Floats, dates and times are checked, but no manifest has a use for what
they denote.

All functions assume that line breaks are single `\n` characters.
-/

namespace ShaderMachine.Document.Toml

/-- Blanks within a line. -/
def isSpace (c : Char) : Bool := c = ' ' || c = '\t'

/-- Characters that must not stand in comments and strings. -/
def isControl (c : Char) : Bool := (c.toNat < 0x20 && c != '\t') || c.toNat = 0x7F

/-! ## Strings -/

/-- What a character stands for behind a backslash, but for the escapes by number. -/
def unescape? : Char → Option Char
  | '"' => some '"'
  | '\\' => some '\\'
  | 'b' => some '\x08'
  | 'e' => some '\x1b'
  | 'f' => some '\x0c'
  | 'n' => some '\n'
  | 'r' => some '\r'
  | 't' => some '\t'
  | _ => none

/-- Whether only blanks are left of the line. -/
def lineEnds (cs : List Char) : Bool := (cs.dropWhile isSpace).head? == some '\n'

/-- The quotes that belong to a multi-line string although they touch the three that end it. -/
def closingQuotes (quote : Char) (cs : List Char) : List Char × List Char :=
  match cs.takeWhile (· == quote) with
  | [] => ([], cs)
  | [_] => ([quote], cs.drop 1)
  | _ => ([quote, quote], cs.drop 2)

/-- The text of a string in double quotes behind its opening quotes, and what follows it. While
`trimming`, blanks and line breaks are left out, which a backslash at the end of a line asks for. -/
def basic? (multiline trimming : Bool) : List Char → Option (List Char × List Char)
  | [] => none
  | '"' :: rest =>
    if multiline then
      match rest with
      | '"' :: '"' :: after => some (closingQuotes '"' after)
      | _ => do
        let (text, rest) ← basic? multiline false rest
        return ('"' :: text, rest)
    else some ([], rest)
  | '\\' :: 'x' :: a :: b :: rest => do
    let c ← Text.charOfHex? [a, b]
    let (text, rest) ← basic? multiline false rest
    return (c :: text, rest)
  | '\\' :: 'u' :: a :: b :: c :: d :: rest => do
    let c ← Text.charOfHex? [a, b, c, d]
    let (text, rest) ← basic? multiline false rest
    return (c :: text, rest)
  | '\\' :: 'U' :: a :: b :: c :: d :: e :: f :: g :: h :: rest => do
    let c ← Text.charOfHex? [a, b, c, d, e, f, g, h]
    let (text, rest) ← basic? multiline false rest
    return (c :: text, rest)
  | '\\' :: e :: rest =>
    match unescape? e with
    | some c => do
      let (text, rest) ← basic? multiline false rest
      return (c :: text, rest)
    | none => if multiline && lineEnds (e :: rest) then basic? multiline true rest else none
  | c :: rest =>
    if trimming && (isSpace c || c == '\n') then basic? multiline true rest
    else if isControl c && !(multiline && c == '\n') then none
    else do
      let (text, rest) ← basic? multiline false rest
      return (c :: text, rest)

/-- The text of a string in single quotes behind its opening quotes, and what follows it. -/
def literal? (multiline : Bool) : List Char → Option (List Char × List Char)
  | [] => none
  | '\'' :: rest =>
    if multiline then
      match rest with
      | '\'' :: '\'' :: after => some (closingQuotes '\'' after)
      | _ => do
        let (text, rest) ← literal? multiline rest
        return ('\'' :: text, rest)
    else some ([], rest)
  | c :: rest =>
    if isControl c && !(multiline && c == '\n') then none
    else do
      let (text, rest) ← literal? multiline rest
      return (c :: text, rest)

/-- The text without a line break at its very start. -/
def dropBreak : List Char → List Char
  | '\n' :: rest => rest
  | cs => cs

/-- A string on one line, if there is one. -/
def lineString? : List Char → Option (List Char × List Char)
  | '"' :: rest => basic? false false rest
  | '\'' :: rest => literal? false rest
  | _ => none

/-- A string in any form, if there is one. -/
def string? : List Char → Option (List Char × List Char)
  | '"' :: '"' :: '"' :: rest => basic? true false (dropBreak rest)
  | '\'' :: '\'' :: '\'' :: rest => literal? true (dropBreak rest)
  | cs => lineString? cs

/-! ## Numbers -/

/-- Digits of a radix, with single underscores between them. -/
def digits? (radix : Nat) (cs : List Char) : Option (List Char) :=
  let groups := cs.splitOn '_'
  if groups.all fun group =>
      !group.isEmpty && group.all fun c => (Numeral.digitValue? radix c).isSome then
    some groups.flatten
  else none

def digitsValue (radix : Nat) (ds : List Char) : Nat :=
  ds.foldl (fun n c => radix * n + (Numeral.digitValue? radix c).getD 0) 0

/-- Decimal digits without a leading zero. -/
def wholeDigits? (cs : List Char) : Option (List Char) := do
  let ds ← digits? 10 cs
  if ds.head? = some '0' ∧ 1 < ds.length then none else some ds

/-- Whether a sign is negative, and what follows it. -/
def sign : List Char → Bool × List Char
  | '-' :: rest => (true, rest)
  | '+' :: rest => (false, rest)
  | cs => (false, cs)

def integer? : List Char → Option Int
  | '0' :: 'x' :: rest => (digits? 16 rest).map fun ds => digitsValue 16 ds
  | '0' :: 'o' :: rest => (digits? 8 rest).map fun ds => digitsValue 8 ds
  | '0' :: 'b' :: rest => (digits? 2 rest).map fun ds => digitsValue 2 ds
  | cs =>
    let (negative, rest) := sign cs
    (wholeDigits? rest).map fun ds =>
      let n : Int := digitsValue 10 ds
      if negative then -n else n

/-- Whether the text is a float. -/
def isFloat (cs : List Char) : Bool :=
  let (_, rest) := sign cs
  let isMark (c : Char) : Bool := c == 'e' || c == 'E'
  let mantissa := rest.takeWhile fun c => !isMark c
  let exponentOk := match rest.dropWhile fun c => !isMark c with
    | [] => true
    | _ :: exponent => (digits? 10 (sign exponent).2).isSome
  let hasExponent := rest.any isMark
  match mantissa.splitOn '.' with
  | [whole] => hasExponent && exponentOk && (wholeDigits? whole).isSome
  | [whole, fraction] =>
    exponentOk && (wholeDigits? whole).isSome && (digits? 10 fraction).isSome
  | _ => false

/-- Whether the text names a float that has no digits. -/
def isSpecialFloat (cs : List Char) : Bool :=
  let name := (sign cs).2
  name == ['i', 'n', 'f'] || name == ['n', 'a', 'n']

/-! ## Dates and times -/

/-- A number of exactly so many digits, and what follows. -/
def fixed? (width : Nat) (cs : List Char) : Option (Nat × List Char) :=
  let ds := cs.take width
  if ds.length = width ∧ ds.all fun c => (Numeral.digitValue? 10 c).isSome then
    some (digitsValue 10 ds, cs.drop width)
  else none

/-- What follows a character that has to be there. -/
def expect? (c : Char) : List Char → Option (List Char)
  | d :: rest => if c = d then some rest else none
  | [] => none

def daysIn (year month : Nat) : Nat :=
  if month = 2 then
    if year % 4 = 0 ∧ (year % 100 ≠ 0 ∨ year % 400 = 0) then 29 else 28
  else if month = 4 ∨ month = 6 ∨ month = 9 ∨ month = 11 then 30
  else 31

/-- What follows a date. -/
def date? (cs : List Char) : Option (List Char) := do
  let (year, cs) ← fixed? 4 cs
  let (month, cs) ← fixed? 2 (← expect? '-' cs)
  let (day, cs) ← fixed? 2 (← expect? '-' cs)
  if 1 ≤ month ∧ month ≤ 12 ∧ 1 ≤ day ∧ day ≤ daysIn year month then some cs else none

/-- What follows the seconds of a time, which may be left out and may have a fraction. -/
def seconds? : List Char → Option (List Char)
  | ':' :: cs => do
    let (second, cs) ← fixed? 2 cs
    if 60 < second then none
    else
      match cs with
      | '.' :: cs => do
        let (_, _) ← fixed? 1 cs
        return cs.dropWhile fun c => (Numeral.digitValue? 10 c).isSome
      | cs => some cs
  | cs => some cs

/-- What follows a time of day. -/
def time? (cs : List Char) : Option (List Char) := do
  let (hour, cs) ← fixed? 2 cs
  let (minute, cs) ← fixed? 2 (← expect? ':' cs)
  if hour ≤ 23 ∧ minute ≤ 59 then seconds? cs else none

/-- Whether the text is a distance from universal time. -/
def isOffset : List Char → Bool
  | [c] => c == 'Z' || c == 'z'
  | c :: cs =>
    (c == '+' || c == '-') &&
      match fixed? 2 cs with
      | some (hour, ':' :: cs) =>
        match fixed? 2 cs with
        | some (minute, []) => decide (hour ≤ 23 ∧ minute ≤ 59)
        | _ => false
      | _ => false
  | [] => false

/-- Whether the text is a date, a time, or both. -/
def isDateTime (cs : List Char) : Bool :=
  match date? cs with
  | some [] => true
  | some (mark :: rest) =>
    (mark == 'T' || mark == 't' || mark == ' ') &&
      match time? rest with
      | some offset => offset.isEmpty || isOffset offset
      | none => false
  | none => time? cs == some []

/-! ## Bare values -/

def isBareChar (c : Char) : Bool :=
  c.isAlphanum || c == '+' || c == '-' || c == '.' || c == '_' || c == ':'

/-- The characters of a value without quotes, and what follows. A date takes a time with it that a
single blank separates from it. -/
def bareText (cs : List Char) : List Char × List Char :=
  let first := cs.takeWhile isBareChar
  let rest := cs.dropWhile isBareChar
  match rest with
  | ' ' :: more =>
    if date? first = some [] ∧ (fixed? 1 more).isSome then
      (first ++ ' ' :: more.takeWhile isBareChar, more.dropWhile isBareChar)
    else (first, rest)
  | rest => (first, rest)

/-- The value of a text without quotes. -/
def bare? (cs : List Char) : Option Scalar :=
  if cs = ['t', 'r', 'u', 'e'] then some { flag := some true }
  else if cs = ['f', 'a', 'l', 's', 'e'] then some { flag := some false }
  else
    match integer? cs with
    | some i => some { integer := some i }
    | none => if isFloat cs || isSpecialFloat cs || isDateTime cs then some {} else none

end ShaderMachine.Document.Toml
