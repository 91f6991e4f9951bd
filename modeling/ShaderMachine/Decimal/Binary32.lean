import ShaderMachine.Word

/-!
# Single-precision numbers, exactly

The 32 bits of a float stand for a number, an infinity or no number at all. `Binary32.ofBits` takes
them apart into natural numbers, and `Binary32.nearest` goes the other way: it gives the bits of the
float that is nearest to a ratio, ties going to the even one. Conversions between integers, decimals
and floats are exact arithmetic between these two.
-/

namespace ShaderMachine

/-- The magnitude of a finite float: `mantissa * 2 ^ shift`, counted in units of `2 ^ -149`, the
least positive float. -/
structure Binary32.Magnitude where
  mantissa : Nat
  shift : Nat
deriving DecidableEq, Repr

inductive Binary32 where
  | nan
  | infinite (negative : Bool)
  | finite (negative : Bool) (magnitude : Binary32.Magnitude)
deriving DecidableEq, Repr

namespace Binary32

/-- The weight of the sign among the bits. -/
def signWeight : Nat := 0x80000000

/-- The weight of the exponent among the bits, and of the leading bit that a mantissa has beyond its
fraction. -/
def exponentWeight : Nat := 0x800000

def ofBits (bits : UInt32) : Binary32 :=
  let n := bits.toNat
  let negative := decide (signWeight ≤ n)
  let exponent := n / exponentWeight % 256
  let fraction := n % exponentWeight
  if exponent = 255 then if fraction = 0 then infinite negative else nan
  else if exponent = 0 then finite negative ⟨fraction, 0⟩
  else finite negative ⟨exponentWeight + fraction, exponent - 1⟩

/-- The quotient rounded to the nearest integer, ties to the even one. -/
def roundQuotient (num den : Nat) : Nat :=
  let quotient := num / den
  match compare (2 * (num % den)) den with
  | .lt => quotient
  | .gt => quotient + 1
  | .eq => if quotient % 2 = 0 then quotient else quotient + 1

/-- The bits of positive infinity. -/
def infinityBits : Nat := 0x7F800000

/-- The bits of the float nearest to `num / den`, ties to the even one. Ratios beyond the greatest
finite float give infinity. -/
def nearest (num den : Nat) : Nat :=
  let whole := (num <<< 149) / den
  let width := if whole = 0 then 0 else whole.log2 + 1
  let shift := width - 24
  min infinityBits (shift * exponentWeight + roundQuotient (num <<< 149) (den <<< shift))

/-- The bits with the given sign. -/
def signedBits (negative : Bool) (magnitude : Nat) : UInt32 :=
  UInt32.ofNat (if negative then signWeight + magnitude else magnitude)

/-- The float nearest to an integer. -/
def ofInt (i : Int) : UInt32 := signedBits (decide (i < 0)) (nearest i.natAbs 1)

/-- The number without its fraction, limited to the signed 32-bit range. What is not a number counts
as zero. -/
def truncate : Binary32 → Int
  | nan => 0
  | infinite true => -signWeight
  | infinite false => signWeight - 1
  | finite negative ⟨mantissa, shift⟩ =>
    let whole : Int := ((mantissa <<< shift) >>> 149 : Nat)
    if negative then max (-signWeight) (-whole) else min (signWeight - 1) whole

end Binary32

end ShaderMachine
