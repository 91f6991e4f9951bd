import ShaderMachine.Decimal.Binary32
import ShaderMachine.Fault

/-!
# Scalar arithmetic

What the two-operand and one-operand operations compute. Integers wrap around; signed division
truncates toward zero and the quotient that does not fit wraps; a zero divisor is the only fault.
Floats follow the IEEE rules, so a comparison with a value that is not a number is false, but for
inequality. Those rules leave open which bits a result has that is not a number; here it has the
canonical ones of `Float32.toBits` (`Word.ofFloat`).
-/

namespace ShaderMachine

/-- The result of a division, which a zero divisor does not have. -/
def divided (divisor result : Word) : Except FaultKind Word :=
  if divisor.bits = 0 then .error .divisionByZero else .ok result

/-- The result of a two-operand operation. -/
def BinaryOp.eval (op : BinaryOp) (a b : Word) : Except FaultKind Word :=
  match op with
  | addInt => .ok ⟨a.bits + b.bits⟩
  | subtractInt => .ok ⟨a.bits - b.bits⟩
  | multiplySigned => .ok (.ofSigned (a.signed * b.signed))
  | multiplyUnsigned => .ok ⟨a.bits * b.bits⟩
  | divideSigned => divided b (.ofSigned (a.signed / b.signed))
  | divideUnsigned => divided b ⟨a.bits / b.bits⟩
  | remainderSigned => divided b (.ofSigned (a.signed % b.signed))
  | remainderUnsigned => divided b ⟨a.bits % b.bits⟩
  | addFloat => .ok (.ofFloat (a.float + b.float))
  | subtractFloat => .ok (.ofFloat (a.float - b.float))
  | multiplyFloat => .ok (.ofFloat (a.float * b.float))
  | divideFloat => .ok (.ofFloat (a.float / b.float))
  | compareIntEq => .ok (.ofBool (a.bits == b.bits))
  | compareIntNe => .ok (.ofBool (a.bits != b.bits))
  | compareFloatEq => .ok (.ofBool (a.float == b.float))
  | compareFloatNe => .ok (.ofBool (a.float != b.float))
  | compareFloatGt => .ok (.ofBool (b.float < a.float))
  | compareFloatGe => .ok (.ofBool (b.float ≤ a.float))
  | compareFloatLt => .ok (.ofBool (a.float < b.float))
  | compareFloatLe => .ok (.ofBool (a.float ≤ b.float))
  | compareSignedGt => .ok (.ofBool (b.signed < a.signed))
  | compareSignedGe => .ok (.ofBool (b.signed ≤ a.signed))
  | compareSignedLt => .ok (.ofBool (a.signed < b.signed))
  | compareSignedLe => .ok (.ofBool (a.signed ≤ b.signed))
  | compareUnsignedGt => .ok (.ofBool (b.bits < a.bits))
  | compareUnsignedGe => .ok (.ofBool (b.bits ≤ a.bits))
  | compareUnsignedLt => .ok (.ofBool (a.bits < b.bits))
  | compareUnsignedLe => .ok (.ofBool (a.bits ≤ b.bits))

/-- The result of a one-operand operation. A conversion to an integer truncates and stays within the
signed range; a negated float keeps its payload, since only the sign bit changes. -/
def UnaryOp.eval (op : UnaryOp) (w : Word) : Word :=
  match op with
  | floatToInt => .ofSigned (Int32.ofInt (Binary32.ofBits w.bits).truncate)
  | signedToFloat => ⟨Binary32.ofInt w.toInt⟩
  | unsignedToFloat => ⟨Binary32.ofInt w.bits.toNat⟩
  | negateFloat => ⟨w.bits ^^^ 0x80000000⟩
  | negateSigned => ⟨-w.bits⟩
  | not => .ofBool (!w.truth)

end ShaderMachine
