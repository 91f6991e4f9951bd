import Mathlib
import ShaderMachine.Decimal.Reading

/-!
# Reading numerals

`Denotes` says for which integer a decimal numeral stands: digits of any number, with an optional
sign. A numeral is read as its integer if this is within the limit, and refused if not
(`readSigned_of_denotes`), so numbers are read back from the numerals that are written for them,
decimal or hexadecimal. `forall_mem_decimal` and `forall_mem_decimalInt` reduce what is said of all
characters of a written numeral to the ten digits and the minus sign, for which it can be decided.
-/

namespace ShaderMachine.Numeral

open Decimal (isDigit)

/-! ## Digits -/

/-- Below the radix a digit has its own character. -/
theorem digitValue?_digitChar {radix d : Nat} (h : d < radix) (hradix : radix ≤ 16) :
    digitValue? radix (digitChar d) = some d := by
  have all_digits : ∀ (radix : Fin 17) (d : Fin 16), d.val < radix.val →
      digitValue? radix.val (digitChar d.val) = some d.val := by decide
  exact all_digits ⟨radix, by omega⟩ ⟨d, by omega⟩ h

/-- The value of a decimal digit is its distance from zero. -/
theorem digitValue?_of_isDigit {c : Char} (h : c.isDigit = true) :
    digitValue? 10 c = some (c.toNat - '0'.toNat) := by
  simp only [Char.isDigit, Bool.and_eq_true, decide_eq_true_eq] at h
  have hlow : 48 ≤ c.toNat := h.1
  have hhigh : c.toNat ≤ 57 := h.2
  have hzero : '0'.toNat = 48 := rfl
  have hvalue : c.toNat - 48 < 10 := by omega
  simp only [digitValue?, hlow, hhigh, and_self, if_true, hvalue, hzero]

/-- What holds of the digits holds of the characters of a numeral. -/
theorem forall_mem_decimal {p : Char → Prop} (h : ∀ d < 10, p (digitChar d)) (n : Nat) :
    ∀ c ∈ decimal n, p c := by
  intro c hc
  induction n using Nat.strongRecOn with
  | ind n ih =>
    rw [decimal] at hc
    split at hc
    · rename_i hlt
      exact List.mem_singleton.1 hc ▸ h n hlt
    · rcases List.mem_append.1 hc with hc | hc
      · exact ih (n / 10) (by omega) hc
      · exact List.mem_singleton.1 hc ▸ h (n % 10) (Nat.mod_lt _ (by decide))

/-- The characters of a signed numeral are digits and the minus sign. -/
theorem forall_mem_decimalInt {p : Char → Prop} (h : ∀ d < 10, p (digitChar d)) (hminus : p '-')
    (i : Int) : ∀ c ∈ decimalInt i, p c := by
  intro c hc
  unfold decimalInt at hc
  split at hc
  · rcases List.mem_cons.1 hc with rfl | hc
    · exact hminus
    · exact forall_mem_decimal h _ c hc
  · exact forall_mem_decimal h _ c hc

/-- What holds of all hexadecimal digits holds of all characters of a hexadecimal text. -/
theorem forall_mem_hex {p : Char → Prop} (h : ∀ d < 16, p (digitChar d)) (width n : Nat) :
    ∀ c ∈ hex width n, p c := by
  induction width generalizing n with
  | zero => exact nofun
  | succ width ih =>
    intro c hc
    rcases List.mem_append.1 hc with hc | hc
    · exact ih (n / 16) c hc
    · exact List.mem_singleton.1 hc ▸ h (n % 16) (Nat.mod_lt _ (by decide))

/-- A number has at least one digit. -/
theorem decimal_ne_nil (n : Nat) : decimal n ≠ [] := by
  rw [decimal]
  split <;> simp

/-- The first character of a numeral is a digit. -/
theorem exists_decimal_eq_cons (n : Nat) : ∃ c cs, decimal n = c :: cs ∧ isDigit c = true := by
  cases h : decimal n with
  | nil => exact absurd h (decimal_ne_nil n)
  | cons c cs =>
    have hmem : c ∈ decimal n := by rw [h]; exact .head cs
    exact ⟨c, cs, rfl, forall_mem_decimal (p := (isDigit · = true)) (by decide) n c hmem⟩

/-- A decimal numeral has only digits. -/
theorem isDigit_of_mem_decimal {n : Nat} {c : Char} (h : c ∈ decimal n) : c.isDigit = true :=
  forall_mem_decimal (p := (·.isDigit = true)) (by decide) n c h

/-- The digits of a number have its value. The induction is on the number, from its last digit to
those in front. -/
theorem ofDigitChars_decimal (n : Nat) : Nat.ofDigitChars 10 (decimal n) 0 = n := by
  have hvalue : ∀ d < 10, (digitChar d).toNat - '0'.toNat = d := by decide
  induction n using Nat.strongRecOn with
  | ind n ih =>
    rw [decimal]
    split
    · rename_i hlt
      rw [Nat.ofDigitChars_cons, Nat.ofDigitChars_nil, hvalue n hlt]
      omega
    · rw [Nat.ofDigitChars_append, ih (n / 10) (by omega), Nat.ofDigitChars_cons,
        Nat.ofDigitChars_nil, hvalue _ (Nat.mod_lt _ (by decide))]
      omega

/-- Different numbers have different numerals. -/
theorem natText_inj {n n' : Nat} : natText n = natText n' ↔ n = n' := by
  refine ⟨fun h => ?_, fun h => h ▸ rfl⟩
  have hdecimal : decimal n = decimal n' := String.ofList_injective h
  rw [← ofDigitChars_decimal n, hdecimal, ofDigitChars_decimal]

/-! ## Denoted integers -/

/-- A numeral denotes an integer: decimal digits, at least one, with at most one sign in front. -/
inductive Denotes : List Char → Int → Prop
  | unsigned {cs} : cs ≠ [] → (∀ c ∈ cs, c.isDigit = true) → Denotes cs (Nat.ofDigitChars 10 cs 0)
  | plus {cs} : cs ≠ [] → (∀ c ∈ cs, c.isDigit = true) →
      Denotes ('+' :: cs) (Nat.ofDigitChars 10 cs 0)
  | minus {cs} : cs ≠ [] → (∀ c ∈ cs, c.isDigit = true) →
      Denotes ('-' :: cs) (-(Nat.ofDigitChars 10 cs 0 : Int))

/-- The numeral of a natural number denotes it. -/
theorem denotes_decimal (n : Nat) : Denotes (decimal n) n := by
  have hdenotes := Denotes.unsigned (decimal_ne_nil n) fun _ => isDigit_of_mem_decimal
  rwa [ofDigitChars_decimal] at hdenotes

/-- The numeral of an integer denotes it, with a minus sign if it is negative. -/
theorem denotes_decimalInt (i : Int) : Denotes (decimalInt i) i := by
  unfold decimalInt
  split
  · have habs : -(i.natAbs : Int) = i := by omega
    have hdenotes := Denotes.minus (decimal_ne_nil i.natAbs) fun _ => isDigit_of_mem_decimal
    rwa [ofDigitChars_decimal, habs] at hdenotes
  · have habs : (i.natAbs : Int) = i := by omega
    have hdenotes := denotes_decimal i.natAbs
    rwa [habs] at hdenotes

/-- A numeral consists of digits and signs. -/
theorem Denotes.mem {cs : List Char} {z : Int} (h : Denotes cs z) {c : Char} (hc : c ∈ cs) :
    c.isDigit = true ∨ c = '+' ∨ c = '-' := by
  cases h with
  | unsigned _ hdigits => exact .inl (hdigits c hc)
  | plus _ hdigits =>
    rcases List.mem_cons.1 hc with rfl | hc
    · exact .inr (.inl rfl)
    · exact .inl (hdigits c hc)
  | minus _ hdigits =>
    rcases List.mem_cons.1 hc with rfl | hc
    · exact .inr (.inr rfl)
    · exact .inl (hdigits c hc)

/-! ## Reading -/

/-- More digits do not make a number less, which is why reading may stop at the first digit beyond a
limit. -/
theorem le_ofDigitChars (cs : List Char) (acc : Nat) : acc ≤ Nat.ofDigitChars 10 cs acc := by
  induction cs generalizing acc with
  | nil => exact Nat.le_refl acc
  | cons c cs ih =>
    rw [Nat.ofDigitChars_cons]
    exact Nat.le_trans (by omega) (ih _)

/-- The digits read so far never have a greater value than all of them, so a number that is within
the limit does not exceed it on the way. -/
theorem readDigits_of_isDigit {limit acc : Nat} (overflow : Error) {cs : List Char}
    (hdigits : ∀ c ∈ cs, c.isDigit = true) (hacc : acc ≤ limit) :
    readDigits 10 limit overflow acc cs =
      if Nat.ofDigitChars 10 cs acc ≤ limit then .ok (Nat.ofDigitChars 10 cs acc)
      else .error overflow := by
  induction cs generalizing acc with
  | nil => exact (if_pos hacc).symm
  | cons c cs ih =>
    rw [readDigits, digitValue?_of_isDigit (hdigits c (.head _)), Nat.ofDigitChars_cons,
      Nat.mul_comm 10 acc]
    dsimp only
    by_cases hle : acc * 10 + (c.toNat - '0'.toNat) ≤ limit
    · rw [if_pos hle, ih (fun c hc => hdigits c (.tail _ hc)) hle]
    · have hvalue := le_ofDigitChars cs (acc * 10 + (c.toNat - '0'.toNat))
      rw [if_neg hle, if_neg (by omega)]

/-- Without a sign in front, all characters are digits to be read. -/
theorem readUnsigned_cons {radix limit : Nat} {c : Char} {cs : List Char} (h : c ≠ '+') :
    readUnsigned radix limit (c :: cs) = readDigits radix limit .tooLarge 0 (c :: cs) := by
  unfold readUnsigned
  split
  · contradiction
  · simp_all
  · simp_all
  · rfl

/-- A plus sign in front of digits makes no difference. -/
theorem readUnsigned_plus {radix limit : Nat} {cs : List Char} (h : cs ≠ []) :
    readUnsigned radix limit ('+' :: cs) = readDigits radix limit .tooLarge 0 cs := by
  unfold readUnsigned
  split
  · contradiction
  · simp_all
  · simp_all
  · simp_all

/-- Digits behind a minus sign are read up to a limit that is larger by one. -/
theorem readSigned_minus {radix limit : Nat} {cs : List Char} (h : cs ≠ []) :
    readSigned radix limit ('-' :: cs) =
      (readDigits radix (limit + 1) .tooSmall 0 cs).map fun n => -(n : Int) := by
  unfold readSigned
  split
  · simp_all
  · simp_all
  · simp_all

/-- Without a minus sign a signed number is read as an unsigned one. -/
theorem readSigned_cons {radix limit : Nat} {c : Char} {cs : List Char} (h : c ≠ '-') :
    readSigned radix limit (c :: cs) =
      (readUnsigned radix limit (c :: cs)).map fun n => (n : Int) := by
  unfold readSigned
  split
  · simp_all
  · simp_all
  · rfl

/-- Digits are read as their number if it is within the limit, and else they are too large. -/
theorem readUnsigned_of_isDigit (limit : Nat) {cs : List Char} (hne : cs ≠ [])
    (hdigits : ∀ c ∈ cs, c.isDigit = true) :
    readUnsigned 10 limit cs =
      if Nat.ofDigitChars 10 cs 0 ≤ limit then .ok (Nat.ofDigitChars 10 cs 0)
      else .error .tooLarge := by
  obtain ⟨c, cs, rfl⟩ := List.exists_cons_of_ne_nil hne
  have hplus : c ≠ '+' := by
    rintro rfl
    cases hdigits '+' (.head _)
  rw [readUnsigned_cons hplus, readDigits_of_isDigit .tooLarge hdigits (Nat.zero_le _)]

/-- A numeral is read as the integer that it denotes, if that is within the limit. -/
theorem readSigned_of_denotes {limit : Nat} {cs : List Char} {z : Int} (h : Denotes cs z) :
    readSigned 10 limit cs =
      if -(limit : Int) - 1 ≤ z ∧ z ≤ limit then .ok z
      else .error (if z < 0 then .tooSmall else .tooLarge) := by
  have hunsigned : ∀ {r : Except Error Nat} {n : Nat},
      (r = if n ≤ limit then .ok n else .error .tooLarge) → (r.map fun n => (n : Int)) =
        if -(limit : Int) - 1 ≤ n ∧ (n : Int) ≤ limit then .ok (n : Int)
        else .error (if (n : Int) < 0 then .tooSmall else .tooLarge) := by
    rintro r n rfl
    by_cases hle : n ≤ limit
    · rw [if_pos hle, if_pos (by omega)]
      rfl
    · rw [if_neg hle, if_neg (by omega), if_neg (by omega)]
      rfl
  cases h with
  | unsigned hne hdigits =>
    have hread := readUnsigned_of_isDigit limit hne hdigits
    obtain ⟨c, cs, rfl⟩ := List.exists_cons_of_ne_nil hne
    have hminus : c ≠ '-' := by
      rintro rfl
      cases hdigits '-' (.head _)
    rw [readSigned_cons hminus, hunsigned hread]
  | plus hne hdigits =>
    have hread := readDigits_of_isDigit .tooLarge hdigits (Nat.zero_le limit)
    rw [readSigned_cons (by decide), readUnsigned_plus hne, hunsigned hread]
  | @minus cs hne hdigits =>
    rw [readSigned_minus hne, readDigits_of_isDigit .tooSmall hdigits (Nat.zero_le _)]
    by_cases hle : Nat.ofDigitChars 10 cs 0 ≤ limit + 1
    · rw [if_pos hle, if_pos (by omega)]
      rfl
    · rw [if_neg hle, if_neg (by omega), if_pos (by omega)]
      rfl

/-- A number within the limit is read from its numeral. -/
theorem readUnsigned_decimal {limit n : Nat} (h : n ≤ limit) :
    readUnsigned 10 limit (decimal n) = .ok n := by
  rw [readUnsigned_of_isDigit limit (decimal_ne_nil n) fun _ => isDigit_of_mem_decimal,
    ofDigitChars_decimal, if_pos h]

/-- Digits are read from the left, so those of a part are read before the rest. -/
theorem readDigits_append {radix limit acc n : Nat} {overflow : Error} {cs rest : List Char}
    (h : readDigits radix limit overflow acc cs = .ok n) :
    readDigits radix limit overflow acc (cs ++ rest) =
      readDigits radix limit overflow n rest := by
  induction cs generalizing acc with
  | nil => cases h; rfl
  | cons c cs ih =>
    rw [readDigits] at h
    rw [List.cons_append, readDigits]
    split at h
    · cases h
    · split at h
      · rename_i hle
        rw [if_pos hle]
        exact ih h
      · cases h

/-- A number that fits the width of a hexadecimal text is read from it. The induction is on the
width. -/
theorem readDigits_hex {limit width n : Nat} (overflow : Error) (hwidth : n < 16 ^ width)
    (h : n ≤ limit) : readDigits 16 limit overflow 0 (hex width n) = .ok n := by
  induction width generalizing n with
  | zero =>
    obtain rfl : n = 0 := by omega
    rfl
  | succ width ih =>
    have hd : n % 16 < 16 := Nat.mod_lt _ (by decide)
    have hn : n / 16 * 16 + n % 16 = n := by omega
    have hhigh : n / 16 < 16 ^ width := Nat.div_lt_of_lt_mul (by rwa [← Nat.pow_succ'])
    rw [hex, readDigits_append (ih hhigh (by omega)), readDigits,
      digitValue?_digitChar hd (Nat.le_refl _)]
    dsimp only
    rw [hn, if_pos h]
    rfl

/-- A number is read from its hexadecimal text, which has at least one digit and no sign. -/
theorem readUnsigned_hex {limit width n : Nat} (hwidth : n < 16 ^ (width + 1)) (h : n ≤ limit) :
    readUnsigned 16 limit (hex (width + 1) n) = .ok n := by
  have hread := readDigits_hex .tooLarge hwidth h
  have hne : hex (width + 1) n ≠ [] := List.concat_ne_nil _ _
  have hplus : '+' ∉ hex (width + 1) n := fun hmem =>
    forall_mem_hex (p := (· ≠ '+')) (by decide) _ n '+' hmem rfl
  obtain ⟨c, cs, hhex⟩ := List.exists_cons_of_ne_nil hne
  rw [hhex] at hread hplus ⊢
  rwa [readUnsigned_cons (List.ne_of_not_mem_cons hplus).symm]

end ShaderMachine.Numeral
