import ShaderMachine.Numeral

/-!
# Characters by number

Formats of text let a character be given by its code point in hexadecimal. Code points of surrogates
and those beyond the last plane denote no character.
-/

namespace ShaderMachine.Text

/-- Whether a number is the code point of a character. -/
def isCodePoint (n : Nat) : Bool := n < 0xD800 || (0xE000 ≤ n && n < 0x110000)

/-- The character whose code point is given in hexadecimal digits. -/
def charOfHex? (digits : List Char) : Option Char := do
  let values ← digits.mapM (Numeral.digitValue? 16)
  let n := values.foldl (fun n d => 16 * n + d) 0
  if isCodePoint n then some (Char.ofNat n) else none

end ShaderMachine.Text
