import ShaderMachine.Decimal.Shortest

/-!
# Floats as text

A `Format` holds the decisions of one way to write floats: which exponents are written
positionally, whether an integral value keeps a fraction, and the sign of exponents. The shortest
digits come from `Binary32.Magnitude.shortest`.
-/

namespace ShaderMachine

structure Decimal.Format where
  /-- The exponents of the leading digit that are written positionally; all of them if absent. -/
  positional : Option (Int × Int)
  /-- Whether an integral value in positional form ends in `.0`. -/
  pointZero : Bool
  /-- Whether a positive exponent carries a plus sign. -/
  exponentPlus : Bool
  tie : Decimal.Tie

namespace Decimal

/-- The digits with the point set before, inside or behind them. -/
def positionalText (pointZero : Bool) (d : Decimal) : List Char :=
  let digits := Numeral.decimal d.digits
  let point := (digits.length : Int) + d.exponent
  if point ≤ 0 then '0' :: '.' :: List.replicate point.natAbs '0' ++ digits
  else if point < digits.length then
    digits.take point.toNat ++ '.' :: digits.drop point.toNat
  else
    digits ++ List.replicate d.exponent.toNat '0' ++ (if pointZero then ['.', '0'] else [])

/-- One digit before the point, the others behind it, and an exponent. -/
def scientificText (exponentPlus : Bool) (d : Decimal) : List Char :=
  let digits := Numeral.decimal d.digits
  let exponent := (digits.length : Int) - 1 + d.exponent
  let fraction := if digits.length = 1 then [] else '.' :: digits.drop 1
  let sign := if exponentPlus && decide (0 < exponent) then ['+'] else []
  digits.take 1 ++ fraction ++ 'e' :: sign ++ Numeral.decimalInt exponent

/-- A positive decimal as text. -/
def Format.layout (format : Format) (d : Decimal) : List Char :=
  let leading := ((Numeral.decimal d.digits).length : Int) - 1 + d.exponent
  let positional := match format.positional with
    | none => true
    | some (low, high) => decide (low ≤ leading) && decide (leading ≤ high)
  if positional then positionalText format.pointZero d else scientificText format.exponentPlus d

/-- A float as text. A value that is not a number has no sign. -/
def Format.text (format : Format) : Binary32 → String
  | .nan => "NaN"
  | .infinite negative => if negative then "-inf" else "inf"
  | .finite negative x =>
    let body :=
      if x.mantissa = 0 then '0' :: (if format.pointZero then ['.', '0'] else [])
      else format.layout (x.shortest format.tie)
    String.ofList (if negative then '-' :: body else body)

end Decimal

end ShaderMachine
