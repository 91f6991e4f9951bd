import ShaderMachine.Assembler.Source
import ShaderMachine.Proofs.Numeral

/-!
# Taking lines apart

`SourceLine.read_of_spells` says that a line in which tokens are separated by a blank, with or
without a comma in front of it, is taken apart into these tokens, and `SourceLine.read_of_labelled`
that a label may stand in front of them. `Spells` relates tokens to such a line. A token must not
contain what separates tokens or ends a statement, nor may it be the first word of a comparison
(`IsToken`); numerals and mnemonics are such tokens.
-/

namespace ShaderMachine

/-- The list of all operations holds each of them, so that a fact about all of them can be
decided. -/
theorem Opcode.mem_all (op : Opcode) : op ∈ all := Array.mem_of_getElem? (ofByte?_byte op)

namespace SourceLine

/-- Whether a character stands for itself in a token. -/
def clean (c : Char) : Bool := !(Text.isBlank c || ['\n', ',', ':', ';', '#'].contains c)

/-- A token that a line cannot be cut in the middle of, and behind which it goes on. -/
structure IsToken (t : List Char) : Prop where
  nonempty : t ≠ []
  clean : ∀ c ∈ t, clean c = true
  complete : Text.lower t ∉ compareFamilies

/-- The text of a line spells the tokens, which a blank separates, or a comma and a blank. -/
inductive Spells : List (List Char) → List Char → Prop
  | last {t} : IsToken t → Spells [t] t
  | blank {t ts cs} : IsToken t → Spells ts cs → Spells (t :: ts) (t ++ ' ' :: cs)
  | comma {t ts cs} : IsToken t → Spells ts cs → Spells (t :: ts) (t ++ ',' :: ' ' :: cs)

/-! ## Tokens -/

/-- A token without the letter in which all first words of comparisons begin. -/
theorem IsToken.of_forall {t : List Char} (hnonempty : t ≠ [])
    (h : ∀ c ∈ t, SourceLine.clean c = true ∧ c.toLower ≠ 'c') : IsToken t := by
  refine ⟨hnonempty, fun c hc => (h c hc).1, fun hfamily => ?_⟩
  have hmem : ∀ family ∈ compareFamilies, 'c' ∈ family := by decide
  obtain ⟨c, hc, hlower⟩ := List.mem_map.1 (hmem _ hfamily)
  exact (h c hc).2 hlower

/-- Decimal digits are a token. -/
theorem isToken_decimal (n : Nat) : IsToken (Numeral.decimal n) :=
  .of_forall (Numeral.decimal_ne_nil n)
    (Numeral.forall_mem_decimal (p := fun c => clean c = true ∧ c.toLower ≠ 'c') (by decide) n)

/-- Decimal digits with a sign or without are a token. -/
theorem isToken_decimalInt (i : Int) : IsToken (Numeral.decimalInt i) := by
  refine .of_forall ?_ (Numeral.forall_mem_decimalInt
    (p := fun c => clean c = true ∧ c.toLower ≠ 'c') (by decide) (by decide) i)
  unfold Numeral.decimalInt
  split
  · exact List.cons_ne_nil _ _
  · exact Numeral.decimal_ne_nil _

/-- Mnemonics are tokens, in lower case. -/
theorem isToken_and_lower_mnemonic (op : Opcode) :
    IsToken op.mnemonic.toList ∧ Text.lower op.mnemonic.toList = op.mnemonic.toList := by
  have all_tokens : (Opcode.all.all fun op =>
      let t := op.mnemonic.toList
      !t.isEmpty && t.all clean && !compareFamilies.contains (Text.lower t) &&
        Text.lower t == t) = true := by
    decide +kernel
  have htoken := Array.all_eq_true_iff_forall_mem.1 all_tokens op op.mem_all
  simp only [Bool.and_eq_true, Bool.not_eq_true', List.isEmpty_eq_false_iff, List.all_eq_true,
    beq_iff_eq] at htoken
  obtain ⟨⟨⟨hnonempty, hclean⟩, hcomplete⟩, hlower⟩ := htoken
  exact ⟨⟨hnonempty, hclean, by simpa using hcomplete⟩, hlower⟩

/-- A mnemonic is a token. -/
theorem isToken_mnemonic (op : Opcode) : IsToken op.mnemonic.toList :=
  (isToken_and_lower_mnemonic op).1

/-! ## Spelled lines -/

/-- A clean character is no blank and none of those with a meaning in a line. -/
theorem clean_iff {c : Char} : clean c = true ↔
    Text.isBlank c = false ∧ c ≠ '\n' ∧ c ≠ ',' ∧ c ≠ ':' ∧ c ≠ ';' ∧ c ≠ '#' := by
  simp [clean]

section
variable {ts : List (List Char)} {cs : List Char}

/-- A line consists of clean characters, blanks and commas. -/
theorem Spells.mem (h : Spells ts cs) {c : Char} (hc : c ∈ cs) :
    clean c = true ∨ c = ' ' ∨ c = ',' := by
  induction h with
  | last ht => exact .inl (ht.clean c hc)
  | blank ht _ ih =>
    rcases List.mem_append.1 hc with hc | hc
    · exact .inl (ht.clean c hc)
    · rcases List.mem_cons.1 hc with rfl | hc
      · exact .inr (.inl rfl)
      · exact ih hc
  | comma ht _ ih =>
    rcases List.mem_append.1 hc with hc | hc
    · exact .inl (ht.clean c hc)
    · rcases List.mem_cons.1 hc with rfl | hc
      · exact .inr (.inr rfl)
      · rcases List.mem_cons.1 hc with rfl | hc
        · exact .inr (.inl rfl)
        · exact ih hc

/-- A line has none of the other characters with a meaning. -/
theorem Spells.not_mem (h : Spells ts cs) {c : Char} (hc : clean c = false) (hblank : c ≠ ' ')
    (hcomma : c ≠ ',') : c ∉ cs := by
  intro hmem
  rcases h.mem hmem with hclean | rfl | rfl
  · rw [hc] at hclean
    cases hclean
  · exact hblank rfl
  · exact hcomma rfl

/-- A line begins with a clean character. -/
theorem Spells.head (h : Spells ts cs) : ∃ c rest, cs = c :: rest ∧ clean c = true := by
  have htoken : ∀ {t : List Char} (rest : List Char), IsToken t →
      ∃ c rest', t ++ rest = c :: rest' ∧ clean c = true := by
    intro t rest ht
    cases t with
    | nil => exact absurd rfl ht.nonempty
    | cons c t => exact ⟨c, t ++ rest, rfl, ht.clean c (.head _)⟩
  cases h with
  | last ht => simpa using htoken [] ht
  | blank ht | comma ht => exact htoken _ ht

/-- A line ends with a clean character. -/
theorem Spells.last_clean (h : Spells ts cs) : ∃ rest c, cs = rest ++ [c] ∧ clean c = true := by
  induction h with
  | @last t ht =>
    refine ⟨t.dropLast, t.getLast ht.nonempty, (List.dropLast_concat_getLast _).symm, ?_⟩
    exact ht.clean _ (List.getLast_mem _)
  | @blank t _ _ _ _ ih =>
    obtain ⟨rest, c, rfl, hc⟩ := ih
    exact ⟨t ++ ' ' :: rest, c, by simp, hc⟩
  | @comma t _ _ _ _ ih =>
    obtain ⟨rest, c, rfl, hc⟩ := ih
    exact ⟨t ++ ',' :: ' ' :: rest, c, by simp, hc⟩

/-- There are no blanks to be cut off a line. -/
theorem Spells.trim_eq (h : Spells ts cs) : Text.trim cs = cs := by
  obtain ⟨c, rest, hcs, hc⟩ := h.head
  obtain ⟨rest', c', hcs', hc'⟩ := h.last_clean
  have hleft : Text.trimLeft cs = cs := by
    rw [hcs, Text.trimLeft, List.dropWhile_cons_of_neg (by simp [(clean_iff.1 hc).1])]
  have hright : Text.trimLeft cs.reverse = cs.reverse := by
    rw [hcs', List.reverse_append, List.reverse_singleton, List.singleton_append, Text.trimLeft,
      List.dropWhile_cons_of_neg (by simp [(clean_iff.1 hc').1])]
  rw [Text.trim, hleft, hright, List.reverse_reverse]

/-- Putting a blank in the place of a comma leaves tokens alone. -/
theorem IsToken.map_comma {t : List Char} (ht : IsToken t) :
    t.map (fun c => if c = ',' then ' ' else c) = t := by
  rw [List.map_congr_left (g := id), List.map_id]
  intro c hc
  exact if_neg (clean_iff.1 (ht.clean c hc)).2.2.1

/-- The words of a line are its tokens. -/
theorem Spells.words_eq (h : Spells ts cs) :
    Text.words (cs.map fun c => if c = ',' then ' ' else c) = ts := by
  have hsplit : ∀ {t : List Char} (rest : List Char), IsToken t →
      Text.words (t ++ ' ' :: rest) = t :: Text.words rest := by
    intro t rest ht
    have hblank : ∀ c ∈ t, Text.isBlank c = false := fun c hc => (clean_iff.1 (ht.clean c hc)).1
    rw [Text.words, List.splitOnP_append_cons_of_forall_mem hblank ' ' (by decide),
      List.filter_cons_of_pos (by simpa using ht.nonempty), Text.words]
  induction h with
  | @last t ht =>
    have hblank : ∀ c ∈ t, Text.isBlank c = false := fun c hc => (clean_iff.1 (ht.clean c hc)).1
    rw [ht.map_comma, Text.words, List.splitOnP_eq_singleton hblank,
      List.filter_cons_of_pos (by simpa using ht.nonempty), List.filter_nil]
  | blank ht _ ih =>
    rw [List.map_append, ht.map_comma, List.map_cons, if_neg (by decide), hsplit _ ht, ih]
  | @comma t ts cs ht _ ih =>
    have hempty : ∀ rest, Text.words (' ' :: rest) = Text.words rest := fun rest => rfl
    rw [List.map_append, ht.map_comma, List.map_cons, if_pos rfl, List.map_cons,
      if_neg (by decide), hsplit _ ht, hempty, ih]

/-- What a line spells are tokens. -/
theorem Spells.tokens (h : Spells ts cs) : ∀ t ∈ ts, IsToken t := by
  induction h with
  | last ht => simpa using ht
  | blank ht _ ih | comma ht _ ih => simpa [ht] using ih

/-- Without a first word of a comparison nothing is joined. -/
theorem joinCompares_eq_self (h : ∀ t ∈ ts, Text.lower t ∉ compareFamilies) :
    joinCompares ts = ts := by
  fun_induction joinCompares ts with
  | case1 first second rest hfamily => exact absurd (by simpa using hfamily) (h first (.head _))
  | case2 first second rest _ ih => rw [ih fun t ht => h t (.tail _ ht)]
  | case3 => rfl

/-- A line is cut into the tokens that it spells, and none of them are joined. -/
theorem Spells.tokens_eq (h : Spells ts cs) : SourceLine.tokens cs = ts.map String.ofList := by
  rw [SourceLine.tokens, h.words_eq, joinCompares_eq_self fun t ht => (h.tokens t ht).complete]

/-- A line that spells tokens is not empty. -/
theorem Spells.ne_nil (h : Spells ts cs) : cs ≠ [] := by
  obtain ⟨c, rest, rfl, -⟩ := h.head
  exact List.cons_ne_nil _ _

/-- A line that spells tokens defines no label. -/
theorem Spells.colon_not_mem (h : Spells ts cs) : ':' ∉ cs :=
  h.not_mem (by decide) (by decide) (by decide)

/-- No comment begins within a line. -/
theorem Spells.no_comment (h : Spells ts cs) : ∀ c ∈ cs, c ≠ ';' ∧ c ≠ '#' := by
  intro c hc
  constructor <;> rintro rfl
  · exact h.not_mem (by decide) (by decide) (by decide) hc
  · exact h.not_mem (by decide) (by decide) (by decide) hc

/-- A text in which no comment begins stands as it is. -/
theorem withoutComment_eq_self (h : ∀ c ∈ cs, c ≠ ';' ∧ c ≠ '#') : withoutComment cs = cs := by
  rw [withoutComment, List.takeWhile_eq_self_iff]
  intro c hc
  simp [h c hc]

/-- A line is taken apart into the tokens that it spells. -/
theorem read_of_spells (h : Spells ts cs) : read cs = .ok ⟨[], some (ts.map String.ofList)⟩ := by
  simp [read, withoutComment_eq_self h.no_comment, List.splitOn_eq_singleton h.colon_not_mem,
    h.trim_eq, h.ne_nil, h.tokens_eq]

/-- A token in front of a line, with a colon and a blank behind it, is a label. -/
theorem read_of_labelled {name : List Char} (hname : IsToken name) (h : Spells ts cs) :
    read (name ++ ':' :: ' ' :: cs) =
      .ok ⟨[String.ofList name], some (ts.map String.ofList)⟩ := by
  have hspells := Spells.last hname
  have hcomment : withoutComment (name ++ ':' :: ' ' :: cs) = name ++ ':' :: ' ' :: cs := by
    refine withoutComment_eq_self fun c hc => ?_
    rcases List.mem_append.1 hc with hc | hc
    · exact hspells.no_comment c hc
    · rcases List.mem_cons.1 hc with rfl | hc
      · decide
      · rcases List.mem_cons.1 hc with rfl | hc
        · decide
        · exact h.no_comment c hc
  have hsplit : (name ++ ':' :: ' ' :: cs).splitOn ':' = [name, ' ' :: cs] := by
    rw [List.splitOn_append_cons_self_of_not_mem hspells.colon_not_mem,
      List.splitOn_eq_singleton (by simpa using h.colon_not_mem)]
  have htrim : Text.trim (' ' :: cs) = cs := h.trim_eq
  have hlabel : isLabel name = true := by
    have hblank : ∀ c ∈ name, Text.isBlank c = false :=
      fun c hc => (clean_iff.1 (hname.clean c hc)).1
    simpa [isLabel] using ⟨hname.nonempty, hblank⟩
  simp [read, hcomment, hsplit, hspells.trim_eq, htrim, hlabel, h.ne_nil, h.tokens_eq]

end

end SourceLine

end ShaderMachine
