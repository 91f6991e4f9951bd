import ShaderMachine.Decimal.Binary32
import ShaderMachine.Numeral

/-!
# The fewest digits of a float

A float stands for all reals that round to it. `Binary32.Magnitude.shortest` finds the decimal with
the fewest digits among them; of several the one nearest to the float's own value, and `Tie` settles
what is left. All comparisons are between natural numbers: every bound of such an interval is a
multiple of `2 ^ -151`, hence of the unit `10 ^ -160` in which the search counts.
-/

namespace ShaderMachine

/-- The number `digits * 10 ^ exponent`. -/
structure Decimal where
  digits : Nat
  exponent : Int
deriving DecidableEq, Repr

/-- The choice between two decimals that are equally near. -/
inductive Decimal.Tie where
  | toEven
  | up
deriving DecidableEq, Repr

namespace Binary32.Magnitude

/-- A quarter of the gap between a magnitude and its upper neighbour, in units of `10 ^ -160`. -/
def quarterGap (x : Magnitude) : Nat := (Nat.pow 5 151 * 1000000000) <<< x.shift

/-- The magnitude in units of `10 ^ -160`. -/
def scaled (x : Magnitude) : Nat := 4 * x.mantissa * x.quarterGap

/-- Whether the lower neighbour is only half as far away as the upper one, as it is at a power of
two. -/
def narrowBelow (x : Magnitude) : Bool := x.mantissa == exponentWeight && x.shift != 0

/-- Whether a number, in units of `10 ^ -160`, rounds to the magnitude. A number halfway between two
floats rounds to the one with the even mantissa. -/
def readsBack (x : Magnitude) (n : Nat) : Bool :=
  let low := (4 * x.mantissa - (if x.narrowBelow then 1 else 2)) * x.quarterGap
  let high := (4 * x.mantissa + 2) * x.quarterGap
  if x.mantissa % 2 = 0 then low ≤ n && n ≤ high else low < n && n < high

/-- The nearer of the two multiples of `grid` around `n` that read back. -/
def onGrid? (x : Magnitude) (tie : Decimal.Tie) (grid : Nat) : Option Nat :=
  let n := x.scaled
  let below := n / grid
  match x.readsBack (below * grid), x.readsBack ((below + 1) * grid) with
  | false, false => none
  | true, false => some below
  | false, true => some (below + 1)
  | true, true =>
    match compare (2 * n) ((2 * below + 1) * grid), tie with
    | .lt, _ => some below
    | .gt, _ => some (below + 1)
    | .eq, .up => some (below + 1)
    | .eq, .toEven => some (if below % 2 = 0 then below else below + 1)

end Binary32.Magnitude

/-- Moves trailing zeros of the digits into the exponent, at most `limit` of them. -/
def Decimal.stripZeros : Nat → Decimal → Decimal
  | 0, d => d
  | limit + 1, d =>
    if d.digits ≠ 0 ∧ d.digits % 10 = 0 then stripZeros limit ⟨d.digits / 10, d.exponent + 1⟩ else d

/-- The shortest decimal that reads back as the magnitude. Nine digits always suffice; without a hit
the magnitude is written out exactly. -/
def Binary32.Magnitude.shortest (x : Magnitude) (tie : Decimal.Tie) : Decimal :=
  let places := (Numeral.decimal x.scaled).length
  let hit := (List.range 9).findSome? fun n =>
    (x.onGrid? tie (Nat.pow 10 (places - (n + 1)))).map fun digits =>
      (⟨digits, (places : Int) - (n + 1) - 160⟩ : Decimal)
  (hit.getD ⟨x.scaled, -160⟩).stripZeros places

end ShaderMachine
