import ShaderMachine.Decimal.Reading
import ShaderMachine.Text.Blank

/-!
# Immediates

An immediate is written as a truth value, as hexadecimal bits, as a float literal, or as an integer
that fits 32 bits in one of the two signednesses. Case does not matter. Which of these a token is
meant to be shows before it is read, so a token with a point or an `e` in it is never an integer.
-/

namespace ShaderMachine

/-- Why a token is not an immediate. -/
inductive ImmediateError where
  | hex (token : String) (cause : Numeral.Error)
  | float (token : String) (cause : Decimal.ReadError)
  | integer (token : String) (cause : Numeral.Error)
  | tooWide (token : String)
deriving DecidableEq, Repr

/-- The messages of an error, from the outermost to its cause. -/
def ImmediateError.messages : ImmediateError → List String
  | hex token cause => ["invalid hex immediate '" ++ token ++ "'", cause.message]
  | float token cause => ["invalid float immediate '" ++ token ++ "'", cause.message]
  | integer token cause => ["invalid integer immediate '" ++ token ++ "'", cause.message]
  | tooWide token => ["immediate '" ++ token ++ "' does not fit in 32 bits"]

namespace Immediate

/-- Whether a token, in lower case, is meant as a float. -/
def looksFloat (cs : List Char) : Bool :=
  cs.contains '.' || cs.contains 'e' || Text.occurs ['i', 'n', 'f'] cs ||
    Text.occurs ['n', 'a', 'n'] cs

/-- The word of an integer in the signed or the unsigned 32-bit range. -/
def ofInt? (i : Int) : Option Word :=
  if -0x80000000 ≤ i ∧ i < 0x100000000 then some ⟨UInt32.ofInt i⟩ else none

/-- The word of an immediate. -/
def read (token : String) : Except ImmediateError Word :=
  let cs := Text.lower token.toList
  if cs = ['t', 'r', 'u', 'e'] then .ok (.ofBool true)
  else if cs = ['f', 'a', 'l', 's', 'e'] then .ok (.ofBool false)
  else
    match cs with
    | '0' :: 'x' :: digits =>
      match Numeral.readUnsigned 16 (UInt32.size - 1) digits with
      | .ok n => .ok ⟨UInt32.ofNat n⟩
      | .error e => .error (.hex token e)
    | cs =>
      if looksFloat cs then
        match Decimal.read cs with
        | .ok w => .ok w
        | .error e => .error (.float token e)
      else
        match Numeral.readSigned 10 0x7FFFFFFFFFFFFFFF cs with
        | .ok i =>
          match ofInt? i with
          | some w => .ok w
          | none => .error (.tooWide token)
        | .error e => .error (.integer token e)

end Immediate

end ShaderMachine
