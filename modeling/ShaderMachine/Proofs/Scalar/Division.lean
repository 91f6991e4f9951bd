import Mathlib
import ShaderMachine.Scalar

/-!
# The division algorithm

Words are divided as signed or as unsigned integers, and a zero divisor is the only one without a
result. In both readings the quotient and the remainder make up the dividend again
(`Word.Recomposes`), in arithmetic that wraps around and does not depend on the reading. What tells
them apart is the size of the remainder: unsigned division rounds down (`FlooredDivision`), and
signed division rounds toward zero (`TruncatedDivision`), where one quotient does not fit and wraps.
-/

namespace ShaderMachine

/-- The quotient and the remainder make up the dividend, in 32 bits. Both multiplications give the
same product of quotient and divisor. -/
structure Word.Recomposes (a b q r : Word) : Prop where
  mod_eq : (q.bits.toNat * b.bits.toNat + r.bits.toNat) % 2 ^ 32 = a.bits.toNat
  product : ∃ p : Word, p.bits.toNat = q.bits.toNat * b.bits.toNat % 2 ^ 32 ∧
    BinaryOp.multiplySigned.eval q b = .ok p ∧ BinaryOp.multiplyUnsigned.eval q b = .ok p ∧
    BinaryOp.addInt.eval p r = .ok a

/-- Division of integers in the signed 32-bit range that rounds toward zero. -/
structure TruncatedDivision (a b q r : Int) : Prop where
  remainder_lt : |r| < |b|
  remainder_sign : r = 0 ∨ r.sign = a.sign
  quotient : ¬ (a = -2 ^ 31 ∧ b = -1) → q = a.tdiv b
  /-- The quotient that does not fit. -/
  overflow : a = -2 ^ 31 → b = -1 → q = -2 ^ 31 ∧ r = 0

/-- Division of natural numbers, which rounds down. -/
structure FlooredDivision (a b q r : Nat) : Prop where
  remainder_lt : r < b
  quotient : q = a / b

/-! ## Recomposing the dividend -/

namespace Word

/-- The unsigned quotient and remainder make up the dividend, without wrapping. -/
theorem div_mul_add_mod_unsigned (a b : UInt32) : a / b * b + a % b = a := by
  rw [← UInt32.toNat_inj, UInt32.toNat_add, UInt32.toNat_mul, UInt32.toNat_div, UInt32.toNat_mod,
    Nat.mod_add_mod, Nat.div_add_mod', Nat.mod_eq_of_lt a.toNat_lt]

/-- The quotient that does not fit is no exception. -/
theorem div_mul_add_mod_signed (a b : Int32) : a / b * b + a % b = a := by
  rw [← Int32.toInt_inj, Int32.toInt_add, Int32.toInt_mul, Int32.toInt_div, Int32.toInt_mod,
    Int.bmod_mul_bmod, Int.bmod_add_bmod, Int.tdiv_mul_add_tmod]
  exact Int32.toInt_bmod a

/-- Signed and unsigned words have the same products. -/
theorem ofSigned_mul_signed (q b : Word) : ofSigned (q.signed * b.signed) = ⟨q.bits * b.bits⟩ := by
  rw [ofSigned, Int32.toUInt32_mul, signed, signed, UInt32.toUInt32_toInt32,
    UInt32.toUInt32_toInt32]

/-- Quotient and remainder recompose the dividend if their bits do, whichever way they are read. -/
theorem recomposes_of_bits {a b q r : Word} (h : q.bits * b.bits + r.bits = a.bits) :
    a.Recomposes b q r := by
  refine ⟨?_, ⟨q.bits * b.bits⟩, UInt32.toNat_mul _ _, ?_, rfl, ?_⟩
  · rw [← h, UInt32.toNat_add, UInt32.toNat_mul, Nat.mod_add_mod]
  · exact congrArg Except.ok (ofSigned_mul_signed q b)
  · exact congrArg (Except.ok ∘ Word.mk) h

/-- Unsigned division recomposes the dividend. -/
theorem recomposes_unsigned (a b : Word) :
    a.Recomposes b ⟨a.bits / b.bits⟩ ⟨a.bits % b.bits⟩ :=
  recomposes_of_bits (div_mul_add_mod_unsigned a.bits b.bits)

/-- Signed division recomposes the dividend, as its bits are multiplied and added like unsigned
ones. -/
theorem recomposes_signed (a b : Word) :
    a.Recomposes b (ofSigned (a.signed / b.signed)) (ofSigned (a.signed % b.signed)) := by
  have hbits := congrArg Int32.toUInt32 (div_mul_add_mod_signed a.signed b.signed)
  rw [Int32.toUInt32_add, Int32.toUInt32_mul, signed, signed, UInt32.toUInt32_toInt32,
    UInt32.toUInt32_toInt32] at hbits
  exact recomposes_of_bits hbits

/-! ## Quotients and remainders -/

/-- Unsigned division rounds down. -/
theorem flooredDivision_unsigned {a b : UInt32} (hb : b ≠ 0) :
    FlooredDivision a.toNat b.toNat (a / b).toNat (a % b).toNat := by
  have hpos : 0 < b.toNat := Nat.pos_of_ne_zero fun h => hb (UInt32.toNat_inj.1 h)
  refine ⟨?_, UInt32.toNat_div a b⟩
  rw [UInt32.toNat_mod]
  exact Nat.mod_lt _ hpos

/-- Signed division rounds toward zero, and the quotient that does not fit wraps to the dividend. -/
theorem truncatedDivision_signed {a b : Int32} (hb : b ≠ 0) :
    TruncatedDivision a.toInt b.toInt (a / b).toInt (a % b).toInt := by
  have hzero : b.toInt ≠ 0 := fun h => hb (Int32.toInt_inj.1 h)
  refine ⟨?_, ?_, fun h => ?_, fun ha hb => ?_⟩
  · have hlt : a.toInt.natAbs % b.toInt.natAbs < b.toInt.natAbs := Nat.mod_lt _ (by omega)
    rw [Int32.toInt_mod, Int.abs_eq_natAbs, Int.abs_eq_natAbs, Int.natAbs_tmod]
    exact Int.ofNat_lt.2 hlt
  · rw [Int32.toInt_mod]
    by_cases hdvd : b.toInt ∣ a.toInt
    · exact .inl (Int.tmod_eq_zero_of_dvd hdvd)
    · exact .inr ((Int.sign_tmod _ _).trans (if_neg hdvd))
  · rcases not_and_or.1 h with ha | hb
    · refine Int32.toInt_div_of_ne_left a b ?_
      rintro rfl
      exact ha Int32.toInt_minValue
    · refine Int32.toInt_div_of_ne_right a b ?_
      rintro rfl
      exact hb rfl
  · rw [Int32.toInt_div, Int32.toInt_mod, ha, hb]
    decide

end Word

/-- **The division algorithm.** The four divisions of a word by another one all fault if the divisor
is zero. If not, each quotient and its remainder make up the dividend again, in 32 bits. The signed
ones are those of the division that rounds toward zero, but for the one quotient that does not fit,
and the unsigned ones are those of the division that rounds down. -/
theorem BinaryOp.eval_divisions (a b : Word) :
    if b.bits = 0 then
      divideSigned.eval a b = .error .divisionByZero ∧
      remainderSigned.eval a b = .error .divisionByZero ∧
      divideUnsigned.eval a b = .error .divisionByZero ∧
      remainderUnsigned.eval a b = .error .divisionByZero
    else
      (∃ q r, divideSigned.eval a b = .ok q ∧ remainderSigned.eval a b = .ok r ∧
        a.Recomposes b q r ∧ TruncatedDivision a.toInt b.toInt q.toInt r.toInt) ∧
      ∃ q r, divideUnsigned.eval a b = .ok q ∧ remainderUnsigned.eval a b = .ok r ∧
        a.Recomposes b q r ∧
        FlooredDivision a.bits.toNat b.bits.toNat q.bits.toNat r.bits.toNat := by
  split
  · rename_i hb
    exact ⟨if_pos hb, if_pos hb, if_pos hb, if_pos hb⟩
  · rename_i hb
    have hsigned : b.signed ≠ 0 := fun h => hb <| by
      rw [← UInt32.toUInt32_toInt32 b.bits]
      exact congrArg Int32.toUInt32 h
    have htruncated := Word.truncatedDivision_signed (a := a.signed) hsigned
    have hfloored := Word.flooredDivision_unsigned (a := a.bits) hb
    refine ⟨⟨_, _, if_neg hb, if_neg hb, a.recomposes_signed b, ?_⟩,
      _, _, if_neg hb, if_neg hb, a.recomposes_unsigned b, hfloored⟩
    simpa only [Word.toInt, Word.signed_ofSigned] using htruncated

/-- The quotient of the least signed word by minus one is that word. -/
example : BinaryOp.divideSigned.eval ⟨0x80000000⟩ ⟨0xFFFFFFFF⟩ = .ok ⟨0x80000000⟩ := by decide

end ShaderMachine
