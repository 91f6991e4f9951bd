/-!
# Numerals

Integers as text. `decimal` and `hex` write them; `readUnsigned` and `readSigned` read them back,
within a limit and with the reason why a text is refused. A reader takes one leading sign, and it
looks at the digits from the left: of two reasons the one that shows first is reported.
-/

namespace ShaderMachine.Numeral

/-- The character of a digit, in lower case beyond nine. -/
def digitChar (d : Nat) : Char :=
  if d < 10 then Char.ofNat (48 + d) else Char.ofNat (87 + d)

/-- A natural number in decimal, without leading zeros. -/
def decimal (n : Nat) : List Char :=
  if n < 10 then [digitChar n] else decimal (n / 10) ++ [digitChar (n % 10)]
termination_by n
decreasing_by omega

/-- An integer in decimal, with a minus sign below zero. -/
def decimalInt (i : Int) : List Char :=
  if i < 0 then '-' :: decimal i.natAbs else decimal i.natAbs

/-- The lowest `width` hexadecimal digits of a number. -/
def hex (width n : Nat) : List Char :=
  match width with
  | 0 => []
  | width + 1 => hex width (n / 16) ++ [digitChar (n % 16)]

/-- A natural number as text. -/
def natText (n : Nat) : String := String.ofList (decimal n)

/-- An integer as text. -/
def intText (i : Int) : String := String.ofList (decimalInt i)

/-- Why a text is not a numeral. -/
inductive Error where
  | empty
  | invalidDigit
  | tooLarge
  | tooSmall
deriving DecidableEq, Repr

def Error.message : Error → String
  | empty => "cannot parse integer from empty string"
  | invalidDigit => "invalid digit found in string"
  | tooLarge => "number too large to fit in target type"
  | tooSmall => "number too small to fit in target type"

/-- The value of a digit below the radix; letters count from ten in either case. -/
def digitValue? (radix : Nat) (c : Char) : Option Nat :=
  let n := c.toNat
  let value :=
    if 48 ≤ n ∧ n ≤ 57 then n - 48
    else if 97 ≤ n ∧ n ≤ 122 then n - 87
    else if 65 ≤ n ∧ n ≤ 90 then n - 55
    else radix
  if value < radix then some value else none

/-- Reads digits behind the value `acc` of those already read. `overflow` is reported at the digit
that takes the value past `limit`. -/
def readDigits (radix limit : Nat) (overflow : Error) (acc : Nat) :
    List Char → Except Error Nat
  | [] => .ok acc
  | c :: cs =>
    match digitValue? radix c with
    | none => .error .invalidDigit
    | some d =>
      if acc * radix + d ≤ limit then readDigits radix limit overflow (acc * radix + d) cs
      else .error overflow

/-- Reads a number of at most `limit`, which may have a leading plus sign. -/
def readUnsigned (radix limit : Nat) : List Char → Except Error Nat
  | [] => .error .empty
  | ['+'] => .error .invalidDigit
  | '+' :: cs => readDigits radix limit .tooLarge 0 cs
  | cs => readDigits radix limit .tooLarge 0 cs

/-- Reads a number from `-limit - 1` to `limit`, which may have a leading sign. -/
def readSigned (radix limit : Nat) : List Char → Except Error Int
  | ['-'] => .error .invalidDigit
  | '-' :: cs => (readDigits radix (limit + 1) .tooSmall 0 cs).map fun n => -(n : Int)
  | cs => (readUnsigned radix limit cs).map fun n => (n : Int)

end ShaderMachine.Numeral
