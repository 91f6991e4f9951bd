import ShaderMachine.Decimal.Binary32
import ShaderMachine.Numeral

/-!
# Reading floats

A float literal is an optional sign and then either the name of a special value, in any case, or
digits with an optional point and an optional exponent. The result is the float nearest to the exact
value of the literal.
-/

namespace ShaderMachine.Decimal

/-- Why a text is not a float literal. -/
inductive ReadError where
  | empty
  | invalid
deriving DecidableEq, Repr

def ReadError.message : ReadError → String
  | empty => "cannot parse float from empty string"
  | invalid => "invalid float literal"

def isDigit (c : Char) : Bool := (Numeral.digitValue? 10 c).isSome

/-- The number written by decimal digits. -/
def digitsValue (cs : List Char) : Nat :=
  cs.foldl (fun n c => 10 * n + (Numeral.digitValue? 10 c).getD 0) 0

/-- The exponent behind the digits, which is absent or fills the rest of the literal. -/
def readExponent? : List Char → Option Int
  | [] => some 0
  | mark :: cs =>
    if mark = 'e' ∨ mark = 'E' then
      let (negative, digits) := match cs with
        | '-' :: ds => (true, ds)
        | '+' :: ds => (false, ds)
        | ds => (false, ds)
      if digits ≠ [] ∧ digits.all isDigit then
        let n : Int := digitsValue digits
        some (if negative then -n else n)
      else none
    else none

/-- Digits and exponent of an unsigned literal in digits. -/
def readNumber? (cs : List Char) : Option (Nat × Int) :=
  let whole := cs.takeWhile isDigit
  let rest := cs.dropWhile isDigit
  let (fraction, rest) := match rest with
    | '.' :: rest => (rest.takeWhile isDigit, rest.dropWhile isDigit)
    | rest => ([], rest)
  if whole = [] ∧ fraction = [] then none
  else (readExponent? rest).map fun e => (digitsValue (whole ++ fraction), e - fraction.length)

/-- The bits of the float nearest to `digits * 10 ^ exponent`. Values with more than forty digits
before the point are infinite, and those below `10 ^ -46` are zero, so that no large power is
formed. -/
def nearest (digits : Nat) (exponent : Int) : Nat :=
  let places := ((Numeral.decimal digits).length : Int) + exponent
  if digits = 0 ∨ places ≤ -46 then 0
  else if 40 < places then Binary32.infinityBits
  else Binary32.nearest (digits * Nat.pow 10 exponent.toNat) (Nat.pow 10 (-exponent).toNat)

/-- The bits of a special value, given in lower case. -/
def special? (name : List Char) : Option Nat :=
  if name = ['i', 'n', 'f'] ∨ name = ['i', 'n', 'f', 'i', 'n', 'i', 't', 'y'] then
    some Binary32.infinityBits
  else if name = ['n', 'a', 'n'] then some 0x7FC00000
  else none

/-- The word of a float literal. -/
def read (cs : List Char) : Except ReadError Word :=
  if cs = [] then .error .empty
  else
    let (negative, body) := match cs with
      | '-' :: ds => (true, ds)
      | '+' :: ds => (false, ds)
      | ds => (false, ds)
    match readNumber? body with
    | some (digits, exponent) =>
      .ok ⟨Binary32.signedBits negative (nearest digits exponent)⟩
    | none =>
      match special? (body.map Char.toLower) with
      | some bits => .ok ⟨Binary32.signedBits negative bits⟩
      | none => .error .invalid

end ShaderMachine.Decimal
