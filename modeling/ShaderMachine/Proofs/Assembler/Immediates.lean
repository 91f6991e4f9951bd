import ShaderMachine.Assembler.Immediate
import ShaderMachine.Instruction.Listing
import ShaderMachine.Proofs.Numeral

/-!
# Integers as immediates

A token that has neither letters nor a point is read as an integer (`Immediate.read_of_unlettered`),
so that a numeral gives the word of the integer that it denotes, and no word if 32 bits do not hold
this integer (`Immediate.read_eq_ok_iff`). The texts of a word, signed, unsigned and hexadecimal,
are all read back (`Immediate.read_integer`).
-/

namespace ShaderMachine

/-- No digit is a letter: the codes of the digits stand in front of those of all letters. -/
theorem not_isAlpha_of_isDigit {c : Char} (h : c.isDigit = true) : c.isAlpha = false := by
  simp only [Char.isDigit, Bool.and_eq_true, decide_eq_true_eq] at h
  obtain ⟨hlow, hhigh⟩ : 48 ≤ c.val.toNat ∧ c.val.toNat ≤ 57 := h
  have hupper : 'A'.val.toNat = 65 := rfl
  have hlower : 'a'.val.toNat = 97 := rfl
  simp only [Char.isAlpha, Char.isUpper, Char.isLower, Bool.or_eq_false_iff,
    Bool.and_eq_false_iff, decide_eq_false_iff_not, ge_iff_le, UInt32.le_iff_toNat_le]
  omega

/-- A text in which lower case changes no character is in lower case. -/
theorem lower_eq_self {cs : List Char} (h : ∀ c ∈ cs, c.toLower = c) : Text.lower cs = cs :=
  (List.map_congr_left h).trans (List.map_id' cs)

namespace Immediate

/-! ## Tokens without letters -/

/-- A text without letters and without a point. -/
def Unlettered (cs : List Char) : Prop := ∀ c ∈ cs, c.isAlpha = false ∧ c ≠ '.'

section
variable {cs : List Char}

/-- No letter is in such a text. -/
theorem Unlettered.not_mem (h : Unlettered cs) {c : Char} (hc : c.isAlpha = true) : c ∉ cs := by
  intro hmem
  rw [(h c hmem).1] at hc
  cases hc

/-- Such a text is in lower case already. -/
theorem Unlettered.lower_eq (h : Unlettered cs) : Text.lower cs = cs := by
  refine lower_eq_self fun c hc => ?_
  have hupper : c.isUpper = false := (Bool.or_eq_false_iff.1 (h c hc).1).1
  exact Char.toLower_eq_of_not_isUpper (Bool.eq_false_iff.1 hupper)

/-- Such a text does not look like a float, which has a point, an exponent or a name. -/
theorem Unlettered.looksFloat_eq (h : Unlettered cs) : looksFloat cs = false := by
  have hpoint : '.' ∉ cs := fun hmem => (h '.' hmem).2 rfl
  have hletter : 'e' ∉ cs := h.not_mem (by decide)
  have hinf : Text.occurs ['i', 'n', 'f'] cs = false :=
    Text.occurs_eq_false (.head _) (h.not_mem (by decide))
  have hnan : Text.occurs ['n', 'a', 'n'] cs = false :=
    Text.occurs_eq_false (.head _) (h.not_mem (by decide))
  simp [looksFloat, hpoint, hletter, hinf, hnan]

/-- Such a token is not taken for any kind of immediate but an integer. -/
theorem read_of_unlettered {token : String} (h : Unlettered token.toList) :
    read token =
      match Numeral.readSigned 10 0x7FFFFFFFFFFFFFFF token.toList with
      | .ok i =>
        match ofInt? i with
        | some w => .ok w
        | none => .error (.tooWide token)
      | .error e => .error (.integer token e) := by
  have htrue : token.toList ≠ ['t', 'r', 'u', 'e'] := fun heq =>
    h.not_mem (c := 't') (by decide) (heq ▸ .head _)
  have hfalse : token.toList ≠ ['f', 'a', 'l', 's', 'e'] := fun heq =>
    h.not_mem (c := 'f') (by decide) (heq ▸ .head _)
  unfold read
  rw [h.lower_eq]
  dsimp only
  rw [if_neg htrue, if_neg hfalse]
  split
  · rename_i digits hdigits
    have hx : 'x' ∈ token.toList := hdigits ▸ .tail _ (.head _)
    exact absurd hx (h.not_mem (by decide))
  · rw [h.looksFloat_eq]
    rfl

end

/-- A numeral is made of digits and a sign, so it has neither letters nor a point. -/
theorem unlettered_of_denotes {cs : List Char} {z : Int} (h : Numeral.Denotes cs z) :
    Unlettered cs := by
  intro c hc
  rcases h.mem hc with hdigit | rfl | rfl
  · refine ⟨not_isAlpha_of_isDigit hdigit, ?_⟩
    rintro rfl
    cases hdigit
  · decide
  · decide

/-! ## Words of integers -/

/-- The bits of an integer, in two's complement. -/
theorem toNat_ofInt (z : Int) : ((UInt32.ofInt z).toNat : Int) = z % 2 ^ 32 := by
  have hpos : 0 ≤ z % 2 ^ 32 := Int.emod_nonneg _ (by decide)
  have hlt : z % 2 ^ 32 < 2 ^ 32 := Int.emod_lt_of_pos _ (by decide)
  have hsize : (z % 2 ^ 32).toNat < UInt32.size := by
    unfold UInt32.size
    omega
  rw [UInt32.ofInt, UInt32.toNat_ofNat_of_lt' hsize, Int.toNat_of_nonneg hpos]

/-- An integer has a word if it is in the signed or the unsigned range, and the word has its
bits. -/
theorem ofInt?_eq_some_iff {z : Int} {w : Word} :
    ofInt? z = some w ↔ (-2 ^ 31 ≤ z ∧ z < 2 ^ 32) ∧ (w.bits.toNat : Int) = z % 2 ^ 32 := by
  have hbits : (⟨UInt32.ofInt z⟩ : Word) = w ↔ (w.bits.toNat : Int) = z % 2 ^ 32 := by
    rw [← toNat_ofInt, Int.natCast_inj, UInt32.toNat_inj, eq_comm]
    exact ⟨congrArg Word.bits, congrArg Word.mk⟩
  unfold ofInt?
  split
  · rename_i hrange
    rw [Option.some.injEq, hbits]
    exact (and_iff_right hrange).symm
  · rename_i hrange
    exact iff_of_false nofun fun h => hrange h.1

/-- The signed reading of a word is in range, and it is that of no other word. -/
theorem ofInt?_toInt (w : Word) : ofInt? w.toInt = some w := by
  have hlow : -2 ^ 31 ≤ w.toInt := Int32.le_toInt w.signed
  have hhigh : w.toInt < 2 ^ 31 := Int32.toInt_lt w.signed
  have hlt := w.bits.toNat_lt
  have hmod : w.toInt % 2 ^ 32 = (w.bits.toNat : Int) % 2 ^ 32 := by
    have htoInt : w.toInt = (w.bits.toNat : Int).bmod (2 ^ 32) := BitVec.toInt_eq_toNat_bmod _
    rw [htoInt]
    exact Int.bmod_emod
  exact ofInt?_eq_some_iff.2 ⟨by omega, by omega⟩

/-- The unsigned reading of a word is in range, and it is that of no other word. -/
theorem ofInt?_toNat (w : Word) : ofInt? w.bits.toNat = some w := by
  have hlt := w.bits.toNat_lt
  exact ofInt?_eq_some_iff.2 ⟨by omega, by omega⟩

/-- A numeral gives the word of the integer that it denotes. -/
theorem read_eq_ok_iff {token : String} {z : Int} (h : Numeral.Denotes token.toList z) {w : Word} :
    read token = .ok w ↔ ofInt? z = some w := by
  rw [read_of_unlettered (unlettered_of_denotes h), Numeral.readSigned_of_denotes h]
  by_cases hrange : -(0x7FFFFFFFFFFFFFFF : Nat) - 1 ≤ z ∧ z ≤ (0x7FFFFFFFFFFFFFFF : Nat)
  · rw [if_pos hrange]
    cases hz : ofInt? z <;> simp [hz]
  · have hz : ofInt? z = none := if_neg (by omega)
    rw [if_neg hrange, hz]
    exact iff_of_false nofun nofun

/-- The signed text of a word is read back. -/
theorem read_signedText (w : Word) : read w.signedText = .ok w := by
  have hdenotes : Numeral.Denotes w.signedText.toList w.toInt := by
    rw [Word.signedText, Numeral.intText, String.toList_ofList]
    exact Numeral.denotes_decimalInt w.toInt
  exact (read_eq_ok_iff hdenotes).2 (ofInt?_toInt w)

/-- The unsigned text of a word is read back. -/
theorem read_unsignedText (w : Word) : read w.unsignedText = .ok w := by
  have hdenotes : Numeral.Denotes w.unsignedText.toList w.bits.toNat := by
    rw [Word.unsignedText, Numeral.natText, String.toList_ofList]
    exact Numeral.denotes_decimal w.bits.toNat
  exact (read_eq_ok_iff hdenotes).2 (ofInt?_toNat w)

/-- The hexadecimal text of a word is read back. It has eight digits in lower case. -/
theorem read_hexText (w : Word) : read w.hexText = .ok w := by
  have htext : w.hexText.toList = '0' :: 'x' :: Numeral.hex 8 w.bits.toNat := by
    simp [Word.hexText]
  have hlower : ∀ c ∈ w.hexText.toList, c.toLower = c := by
    rw [htext]
    exact List.forall_mem_cons.2 ⟨rfl, List.forall_mem_cons.2 ⟨rfl,
      Numeral.forall_mem_hex (p := fun c => c.toLower = c) (by decide) 8 _⟩⟩
  have hread : Numeral.readUnsigned 16 (UInt32.size - 1) (Numeral.hex 8 w.bits.toNat) =
      .ok w.bits.toNat := by
    have hlt := w.bits.toNat_lt
    exact Numeral.readUnsigned_hex (by omega) (Nat.le_pred_of_lt hlt)
  unfold read
  rw [lower_eq_self hlower, htext]
  simp only [hread, UInt32.ofNat_toNat]
  rfl

/-- **Integers as immediates.** The signed, the unsigned and the hexadecimal text of a word are read
as this word. A decimal numeral of any length is read if the integer that it denotes is in the
signed or the unsigned range of 32 bits, and then it gives the word of that integer. -/
theorem read_integer :
    (∀ w : Word, read w.signedText = .ok w ∧ read w.unsignedText = .ok w ∧ read w.hexText = .ok w) ∧
    ∀ token z, Numeral.Denotes token.toList z →
      ((∃ w, read token = .ok w) ↔ -2 ^ 31 ≤ z ∧ z < 2 ^ 32) ∧
      ∀ w, read token = .ok w → (w.bits.toNat : Int) = z % 2 ^ 32 := by
  refine ⟨fun w => ⟨read_signedText w, read_unsignedText w, read_hexText w⟩,
    fun token z hdenotes => ⟨⟨?_, fun hrange => ?_⟩, fun w hread => ?_⟩⟩
  · rintro ⟨w, hread⟩
    exact (ofInt?_eq_some_iff.1 ((read_eq_ok_iff hdenotes).1 hread)).1
  · exact ⟨⟨UInt32.ofInt z⟩, (read_eq_ok_iff hdenotes).2
      (ofInt?_eq_some_iff.2 ⟨hrange, toNat_ofInt z⟩)⟩
  · exact (ofInt?_eq_some_iff.1 ((read_eq_ok_iff hdenotes).1 hread)).2

/-- The least signed word, with more zeros in front than its digits and those of the limit. -/
def longToken : String := "-0000000000000000000000002147483648"

/-- The least integer that is no word. -/
def wideToken : String := "+4294967296"

/-- A numeral that is long but small is read, and one that is just too large is not. -/
theorem read_integer_longToken :
    (Numeral.Denotes longToken.toList (-2 ^ 31) ∧ read longToken = .ok ⟨0x80000000⟩) ∧
      Numeral.Denotes wideToken.toList (2 ^ 32) ∧ ¬ ∃ w, read wideToken = .ok w := by
  have hlong : Numeral.Denotes longToken.toList (-2 ^ 31) := by
    have hsplit : longToken.toList = '-' :: "0000000000000000000000002147483648".toList := by
      decide +kernel
    have hvalue : Nat.ofDigitChars 10 "0000000000000000000000002147483648".toList 0 = 2 ^ 31 := by
      decide +kernel
    have hdenotes := @Numeral.Denotes.minus "0000000000000000000000002147483648".toList
      (by decide +kernel) (List.all_eq_true.1 (by decide +kernel))
    rwa [hvalue, ← hsplit] at hdenotes
  have hwide : Numeral.Denotes wideToken.toList (2 ^ 32) := by
    have hsplit : wideToken.toList = '+' :: "4294967296".toList := by decide +kernel
    have hvalue : Nat.ofDigitChars 10 "4294967296".toList 0 = 2 ^ 32 := by decide +kernel
    have hdenotes := @Numeral.Denotes.plus "4294967296".toList
      (by decide +kernel) (List.all_eq_true.1 (by decide +kernel))
    rwa [hvalue, ← hsplit] at hdenotes
  obtain ⟨hread, hword⟩ := read_integer.2 longToken (-2 ^ 31) hlong
  obtain ⟨w, hw⟩ := hread.2 (by decide)
  obtain rfl : w = ⟨0x80000000⟩ :=
    congrArg Word.mk (UInt32.toNat_inj.1 (Int.ofNat_inj.1 (hword w hw)))
  refine ⟨⟨hlong, hw⟩, hwide, fun h => ?_⟩
  exact absurd ((read_integer.2 wideToken (2 ^ 32) hwide).1.1 h).2 (by decide)

end Immediate

end ShaderMachine
