import ShaderMachine.Document.Json
import ShaderMachine.Document.JsonText
import ShaderMachine.Proofs.Numeral

/-!
# Written JSON is read back

`JsonText.ReadAs` says that the compact text of a value is read as a node. Numbers, truth values and
texts are read as what they were written for (`readAs_nat`, `readAs_bool`, `readAs_string`), and
lists and records are read as the lists and records of what their parts are read as (`readAs_list`,
`readAs_record`). The fuel of the reader is no concern, since every value, item and entry has more
characters than levels of nesting. `read?_compact` is what this comes to for a whole text.
-/

namespace ShaderMachine.Document

open Numeral (digitChar digitValue? decimal hex)

namespace Json

/-! ## Strings -/

/-- A part of a string that gives a character: the character itself, or its number if it is a
control character. -/
inductive Piece.Gives : Piece → Char → Prop
  | char (c : Char) : Gives (.char c) c
  | unit {c : Char} : c.toNat < 0x20 → Gives (.unit c.toNat) c

/-- Four hexadecimal digits are read as the number that they make up. -/
theorem hex4?_digitChar {a b c d : Nat} (ha : a < 16) (hb : b < 16) (hc : c < 16) (hd : d < 16) :
    hex4? (digitChar a) (digitChar b) (digitChar c) (digitChar d) =
      some (((a * 16 + b) * 16 + c) * 16 + d) := by
  have hvalue : ∀ n < 16, digitValue? 16 (digitChar n) = some n := fun n hn =>
    Numeral.digitValue?_digitChar hn (Nat.le_refl 16)
  simp only [hex4?, hvalue a ha, hvalue b hb, hvalue c hc, hvalue d hd]
  rfl

section
variable {c e : Char} {n : Nat} {rest : List Char}

/-- A character that needs no escape is read as itself. -/
theorem pieces?_plain (hquote : c ≠ '"') (hslash : c ≠ '\\') (hcontrol : ¬ c.toNat < 0x20) :
    pieces? (c :: rest) = (pieces? rest).map fun (ps, rest) => (.char c :: ps, rest) := by
  rw [pieces?, if_neg hcontrol]
  · cases pieces? rest <;> rfl
  · exact hquote
  · exact fun _ _ _ _ _ h => absurd h hslash
  · exact fun _ _ h => absurd h hslash

/-- A letter behind a backslash is read as the character that it stands for. -/
theorem pieces?_letter (hletter : unescape? e = some c) :
    pieces? ('\\' :: e :: rest) = (pieces? rest).map fun (ps, rest) => (.char c :: ps, rest) := by
  rw [pieces?, hletter]
  · cases pieces? rest <;> rfl
  · rintro _ _ _ _ _ rfl -
    cases hletter

/-- Four hexadecimal digits are read as the number that they were written for. -/
theorem pieces?_hex (hn : n < 0x10000) :
    pieces? ('\\' :: 'u' :: (hex 4 n ++ rest)) =
      (pieces? rest).map fun (ps, rest) => (.unit n :: ps, rest) := by
  have hdigits : hex 4 n = [digitChar (n / 16 / 16 / 16 % 16), digitChar (n / 16 / 16 % 16),
    digitChar (n / 16 % 16), digitChar (n % 16)] := rfl
  have hvalue : ((n / 16 / 16 / 16 % 16 * 16 + n / 16 / 16 % 16) * 16 + n / 16 % 16) * 16 + n % 16 =
      n := by omega
  have hread := hex4?_digitChar (Nat.mod_lt (n / 16 / 16 / 16) (by decide))
    (Nat.mod_lt (n / 16 / 16) (by decide)) (Nat.mod_lt (n / 16) (by decide))
    (Nat.mod_lt n (by decide : 16 > 0))
  rw [hvalue] at hread
  rw [hdigits]
  simp only [List.cons_append, List.nil_append]
  rw [pieces?, hread]
  cases pieces? rest <;> rfl

/-- The text of a character is read as one part, which gives the character. -/
theorem exists_pieces?_escape (c : Char) (rest : List Char) :
    ∃ p : Piece, p.Gives c ∧
      pieces? (JsonText.escape c ++ rest) =
        (pieces? rest).map fun (ps, rest) => (p :: ps, rest) := by
  unfold JsonText.escape
  split_ifs with hquote hslash _ _ _ _ _ hcontrol
  -- Seven characters have a letter of their own.
  iterate 7
    · subst_vars
      exact ⟨_, .char _, pieces?_letter rfl⟩
  · exact ⟨.unit c.toNat, .unit hcontrol, pieces?_hex (by omega)⟩
  · exact ⟨.char c, .char c, pieces?_plain hquote hslash hcontrol⟩

/-- The text of a string up to its closing quote is read as parts that give its characters, one
each. -/
theorem exists_pieces?_flatMap (cs rest : List Char) :
    ∃ ps, List.Forall₂ Piece.Gives ps cs ∧
      pieces? (cs.flatMap JsonText.escape ++ '"' :: rest) = some (ps, rest) := by
  induction cs with
  | nil => exact ⟨[], .nil, rfl⟩
  | cons c cs ih =>
    obtain ⟨ps, hps, hread⟩ := ih
    obtain ⟨p, hp, hescape⟩ :=
      exists_pieces?_escape c (cs.flatMap JsonText.escape ++ '"' :: rest)
    refine ⟨p :: ps, .cons hp hps, ?_⟩
    rw [List.flatMap_cons, List.append_assoc, hescape, hread]
    rfl

/-- A unit below the surrogates is a character by itself, whatever follows it. -/
theorem join?_unit {ps : List Piece} (hn : n < 0xD800) :
    join? (.unit n :: ps) = (join? ps).map (Char.ofNat n :: ·) := by
  have hhigh : ¬ (0xD800 ≤ n ∧ n < 0xDC00) := by omega
  have hlow : ¬ (0xDC00 ≤ n ∧ n < 0xE000) := by omega
  have hboth : ¬ (0xD800 ≤ n ∧ n < 0xE000) := by omega
  cases ps with
  | nil => simp only [join?, if_neg hboth]
  | cons p ps =>
    cases p with
    | char c => simp only [join?, if_neg hboth]
    | unit low => rw [join?, if_neg hhigh, if_neg hlow]

/-- Parts that give characters are joined to these. Control characters are no surrogates, so no two
parts are taken together. -/
theorem join?_of_gives {ps : List Piece} {cs : List Char}
    (h : List.Forall₂ Piece.Gives ps cs) : join? ps = some cs := by
  induction h with
  | nil => rfl
  | cons hp _ ih =>
    cases hp with
    | char c => rw [join?, ih]; rfl
    | unit hcontrol => rw [join?_unit (by omega), ih, Char.ofNat_toNat]; rfl

/-- A text in quotes is read as the text. -/
theorem string?_quote (s : String) (rest : List Char) :
    string? (s.toList.flatMap JsonText.escape ++ '"' :: rest) = some (some s, rest) := by
  obtain ⟨ps, hps, hread⟩ := exists_pieces?_flatMap s.toList rest
  simp only [string?, hread, Option.bind_eq_bind, Option.bind_some, join?_of_gives hps,
    Option.map_some, String.ofList_toList]
  rfl

end

/-! ## Numbers -/

/-- What can stand behind a value: nothing, or a separator or a closing bracket. -/
inductive Ends : List Char → Prop
  | nil : Ends []
  | comma (rest : List Char) : Ends (',' :: rest)
  | bracket (rest : List Char) : Ends (']' :: rest)
  | brace (rest : List Char) : Ends ('\x7d' :: rest)

/-- A numeral has only digits that the reader takes for digits. -/
theorem isDigit_of_mem_decimal {n : Nat} {c : Char} (h : c ∈ decimal n) : isDigit c = true := by
  rw [isDigit, Numeral.digitValue?_of_isDigit (Numeral.isDigit_of_mem_decimal h)]
  rfl

/-- The digits of a numeral are read up to its end, where no digit can stand. -/
theorem digits?_decimal (n : Nat) {rest : List Char} (hrest : Ends rest) :
    digits? (decimal n ++ rest) = some (decimal n, rest) := by
  have hdigits : ∀ c ∈ decimal n, isDigit c = true := fun c => isDigit_of_mem_decimal
  have hend : rest.takeWhile isDigit = [] ∧ rest.dropWhile isDigit = rest := by
    cases hrest <;> exact ⟨rfl, rfl⟩
  unfold digits?
  rw [List.takeWhile_append_of_pos hdigits, List.dropWhile_append_of_pos hdigits, hend.1, hend.2,
    List.append_nil]
  split
  · rename_i hnil
    exact absurd hnil (Numeral.decimal_ne_nil n)
  · rfl

/-- Only zero has a numeral that starts with zero. -/
theorem head_decimal_of_pos {n : Nat} (hn : 0 < n) : (decimal n).head? ≠ some '0' := by
  induction n using Nat.strongRecOn with
  | ind n ih =>
    rw [decimal]
    split
    · rename_i hlt
      have hdigit : ∀ d < 10, 0 < d → digitChar d ≠ '0' := by decide
      simpa using hdigit n hlt hn
    · rename_i hge
      rw [List.head?_append_of_ne_nil _ (Numeral.decimal_ne_nil _)]
      exact ih (n / 10) (by omega) (by omega)

/-- A numeral is read as a whole number, for it has no zero in front but as its only digit. -/
theorem wholeDigits?_decimal (n : Nat) {rest : List Char} (hrest : Ends rest) :
    wholeDigits? (decimal n ++ rest) = some (decimal n, rest) := by
  rcases Nat.eq_zero_or_pos n with rfl | hn
  · have hzero : decimal 0 = ['0'] := by rw [decimal]; rfl
    have hhead : rest.head?.any isDigit = false := by cases hrest <;> rfl
    rw [hzero]
    simp only [List.cons_append, List.nil_append, wholeDigits?, hhead, Bool.false_eq_true, if_false]
  · obtain ⟨c, cs, hdecimal⟩ := List.exists_cons_of_ne_nil (Numeral.decimal_ne_nil n)
    have hc : c ≠ '0' := by
      rintro rfl
      exact head_decimal_of_pos hn (by rw [hdecimal]; rfl)
    rw [← digits?_decimal n hrest, hdecimal, List.cons_append, wholeDigits?]
    rintro _ heq
    cases heq
    exact hc rfl

/-- Both ways of reading digits as a number agree. -/
theorem digitsValue_eq_ofDigitChars {cs : List Char} (hdigits : ∀ c ∈ cs, c.isDigit = true) :
    digitsValue cs = Nat.ofDigitChars 10 cs 0 := by
  have hfold : ∀ acc, cs.foldl (fun n c => 10 * n + (digitValue? 10 c).getD 0) acc =
      Nat.ofDigitChars 10 cs acc := by
    induction cs with
    | nil => exact fun _ => rfl
    | cons c cs ih =>
      obtain ⟨hc, hcs⟩ := List.forall_mem_cons.1 hdigits
      intro acc
      rw [List.foldl_cons, Nat.ofDigitChars_cons, Numeral.digitValue?_of_isDigit hc]
      exact ih hcs _
  exact hfold 0

/-- The digits of a numeral have the value that it was written for. -/
theorem digitsValue_decimal (n : Nat) : digitsValue (decimal n) = n := by
  rw [digitsValue_eq_ofDigitChars fun _ => Numeral.isDigit_of_mem_decimal,
    Numeral.ofDigitChars_decimal]

/-- A numeral is read as its number. Behind it stands neither a fraction nor an exponent. -/
theorem number?_decimal (n : Nat) {rest : List Char} (hrest : Ends rest) :
    number? (decimal n ++ rest) = some (some (n : Int), rest) := by
  have hfraction : fraction? rest = some (false, rest) := by cases hrest <;> rfl
  have hexponent : exponent? rest = some (false, rest) := by cases hrest <;> rfl
  have hwhole := wholeDigits?_decimal n hrest
  obtain ⟨c, cs, hdecimal, hdigit⟩ := Numeral.exists_decimal_eq_cons n
  have hminus : c ≠ '-' := by
    rintro rfl
    cases hdigit
  have hvalue := digitsValue_decimal n
  rw [hdecimal] at hwhole hvalue
  rw [hdecimal, number?]
  · simp only [hwhole, hfraction, hexponent, hvalue, Option.bind_eq_bind, Option.bind_some,
      Bool.false_or, Bool.false_and, Bool.false_eq_true, if_false]
    rfl
  · rintro _ heq
    cases heq
    exact hminus rfl

/-! ## Values -/

/-- A character that a value can start with is no blank and ends no list. -/
def Starts (c : Char) : Prop := c ∉ [' ', '\n', '\t', '\r', ']']

instance (c : Char) : Decidable (Starts c) := inferInstanceAs (Decidable (c ∉ _))

/-- There are no blanks to skip in front of a value. -/
theorem Starts.skip {c : Char} (h : Starts c) (cs : List Char) : skip (c :: cs) = c :: cs := by
  refine List.dropWhile_cons_of_neg ?_
  simp only [Starts, List.mem_cons, List.not_mem_nil, or_false, not_or] at h
  simp [h]

end Json

namespace JsonText

open Json (Ends Starts value? items? entries?)

/-- The compact text of a value is read as a node, wherever a value can stand, with as much fuel as
the text has characters. -/
structure ReadAs (t : JsonText) (n : Node) : Prop where
  starts : ∃ c cs, t.compact = c :: cs ∧ Starts c
  reads : ∀ fuel rest, t.compact.length ≤ fuel + 1 → Ends rest →
    value? (fuel + 1) (t.compact ++ rest) = some (n, rest)

section
variable {t : JsonText} {n : Node} {fuel : Nat}

/-- The text of a value has no blanks in front. -/
theorem ReadAs.skip (h : t.ReadAs n) (rest : List Char) :
    Json.skip (t.compact ++ rest) = t.compact ++ rest := by
  obtain ⟨c, cs, hcompact, hc⟩ := h.starts
  rw [hcompact, List.cons_append, hc.skip]

/-- A value is read with fuel for all its characters. It has at least one, so there is fuel for the
first step. -/
theorem ReadAs.value?_eq (h : t.ReadAs n) (hfuel : t.compact.length ≤ fuel) (hrest : Ends rest) :
    value? fuel (t.compact ++ rest) = some (n, rest) := by
  cases fuel with
  | zero =>
    obtain ⟨c, cs, hcompact, -⟩ := h.starts
    rw [hcompact] at hfuel
    cases hfuel
  | succ fuel => exact h.reads fuel rest hfuel hrest

/-- A number is read as its integer. -/
theorem readAs_nat (n : Nat) : (nat n).ReadAs (.scalar { integer := some (n : Int) }) := by
  obtain ⟨c, cs, hdecimal, hdigit⟩ := Numeral.exists_decimal_eq_cons n
  have hcompact : (nat n).compact = decimal n := by rw [nat, compact]
  refine ⟨⟨c, cs, hcompact.trans hdecimal, ?_⟩, fun fuel rest _ hrest => ?_⟩
  · simp only [Starts, List.mem_cons, List.not_mem_nil, or_false]
    rintro (rfl | rfl | rfl | rfl | rfl) <;> cases hdigit
  · have hnumber := Json.number?_decimal n hrest
    rw [hcompact]
    rw [hdecimal] at hnumber ⊢
    rw [value?, Json.numberNode?, hnumber]
    · rfl
    all_goals
      rintro _ heq
      obtain ⟨rfl, -⟩ := List.cons.inj heq
      cases hdigit

/-- A truth value is read as it is. -/
theorem readAs_bool (b : Bool) : (bool b).ReadAs (.scalar { flag := some b }) := by
  cases b with
  | true => exact ⟨⟨'t', _, rfl, by decide⟩, fun _ _ _ _ => rfl⟩
  | false => exact ⟨⟨'f', _, rfl, by decide⟩, fun _ _ _ _ => rfl⟩

/-- A text is read as it is, with its escapes undone. -/
theorem readAs_string (s : String) : (string s).ReadAs (.scalar { text := some s }) := by
  have hcompact : (string s).compact = '"' :: (s.toList.flatMap escape ++ ['"']) := by
    rw [compact, quote]
  refine ⟨⟨'"', _, hcompact, by decide⟩, fun fuel rest _ _ => ?_⟩
  rw [hcompact, List.cons_append, List.append_assoc, List.singleton_append, value?,
    Json.string?_quote]
  rfl

/-- Items are read up to the bracket that ends their list. -/
theorem items?_compact {item : JsonText} {node : Node} {items : List JsonText} {nodes : List Node}
    (hitem : item.ReadAs node) (hitems : List.Forall₂ ReadAs items nodes)
    (hfuel : item.compact.length + (compactItems items).length ≤ fuel) (rest : List Char) :
    items? fuel (item.compact ++ (compactItems items ++ rest)) = some (node :: nodes, rest) := by
  induction hitems generalizing item node fuel with
  | nil =>
    cases fuel with
    | zero => simp [compactItems] at hfuel
    | succ fuel =>
      simp only [compactItems, List.length_singleton] at hfuel
      have hfuel : item.compact.length ≤ fuel := by omega
      have hvalue := hitem.value?_eq hfuel (.bracket rest)
      rw [compactItems, List.singleton_append, items?, hvalue]
      rfl
  | @cons item' node' items nodes hitem' _ ih =>
    cases fuel with
    | zero => simp [compactItems] at hfuel
    | succ fuel =>
      simp only [compactItems, List.length_cons, List.length_append] at hfuel
      have hfuel' : item.compact.length ≤ fuel := by omega
      have hvalue :=
        hitem.value?_eq hfuel' (.comma (item'.compact ++ (compactItems items ++ rest)))
      have hfuel'' : item'.compact.length + (compactItems items).length ≤ fuel := by omega
      have hitems := ih hitem' hfuel''
      rw [compactItems, List.cons_append, List.append_assoc, items?, hvalue]
      -- Behind the separator, the next item has no blanks in front.
      show (items? fuel (Json.skip _)).bind _ = _
      rw [hitem'.skip, hitems]
      rfl

/-- A list is read as the list of what its items are read as. -/
theorem readAs_list {items : List JsonText} {nodes : List Node}
    (h : List.Forall₂ ReadAs items nodes) : (list items).ReadAs (.list nodes) := by
  cases h with
  | nil => exact ⟨⟨'[', _, rfl, by decide⟩, fun _ _ _ _ => rfl⟩
  | @cons item node items nodes hitem hitems =>
    have hcompact : (list (item :: items)).compact =
        '[' :: (item.compact ++ compactItems items) := by rw [compact]
    refine ⟨⟨'[', _, hcompact, by decide⟩, fun fuel rest hfuel _ => ?_⟩
    rw [hcompact, List.length_cons, List.length_append] at hfuel
    have hitems := items?_compact hitem hitems (Nat.le_of_succ_le_succ hfuel) rest
    obtain ⟨c, cs, hstart, hc⟩ := hitem.starts
    rw [hcompact, List.cons_append, List.append_assoc, value?, hitem.skip]
    rw [hstart] at hitems ⊢
    split
    · rename_i heq
      obtain ⟨rfl, -⟩ := List.cons.inj heq
      exact absurd hc (by decide)
    · rw [hitems]
      rfl

/-- A list that is written item by item is read item by item. -/
theorem readAs_list_map {α : Type} {write : α → JsonText} {node : α → Node}
    (h : ∀ a, (write a).ReadAs (node a)) (as : List α) :
    (list (as.map write)).ReadAs (.list (as.map node)) := by
  refine readAs_list ?_
  induction as with
  | nil => exact .nil
  | cons a as ih => exact .cons (h a) ih

/-- An entry is read as one with the same key. -/
inductive EntryReadAs : String × JsonText → Option String × Node → Prop
  | mk (key : String) {item : JsonText} {node : Node} : item.ReadAs node →
      EntryReadAs (key, item) (some key, node)

/-- Entries are read up to the brace that ends their record. -/
theorem entries?_compact (key : String) {item : JsonText} {node : Node}
    {entries : List (String × JsonText)} {nodes : List (Option String × Node)}
    (hitem : item.ReadAs node) (hentries : List.Forall₂ EntryReadAs entries nodes)
    (hfuel : item.compact.length + (compactEntries entries).length ≤ fuel) (rest : List Char) :
    entries? fuel (quote key ++ ':' :: (item.compact ++ (compactEntries entries ++ rest))) =
      some ((some key, node) :: nodes, rest) := by
  induction hentries generalizing key item node fuel with
  | nil =>
    cases fuel with
    | zero => simp [compactEntries] at hfuel
    | succ fuel =>
      simp only [compactEntries, List.length_singleton] at hfuel
      have hfuel : item.compact.length ≤ fuel := by omega
      have hvalue := hitem.value?_eq hfuel (.brace rest)
      rw [compactEntries, List.singleton_append, quote, List.cons_append, List.append_assoc,
        List.singleton_append, entries?, Json.string?_quote]
      show (value? fuel (Json.skip _)).bind _ = _
      rw [hitem.skip, hvalue]
      rfl
  | @cons entry pair entries nodes hentry _ ih =>
    obtain @⟨key', item', node', hitem'⟩ := hentry
    cases fuel with
    | zero => simp [compactEntries] at hfuel
    | succ fuel =>
      simp only [compactEntries, List.length_cons, List.length_append] at hfuel
      have hfuel' : item.compact.length ≤ fuel := by omega
      have hvalue := hitem.value?_eq hfuel'
        (.comma (quote key' ++ ':' :: (item'.compact ++ (compactEntries entries ++ rest))))
      have hfuel'' : item'.compact.length + (compactEntries entries).length ≤ fuel := by omega
      have hentries := ih key' hitem' hfuel''
      rw [quote, List.cons_append, List.append_assoc, List.singleton_append, entries?,
        Json.string?_quote]
      show (value? fuel (Json.skip _)).bind _ = _
      rw [compactEntries, hitem.skip, List.cons_append, List.append_assoc, List.cons_append,
        List.append_assoc, hvalue]
      -- The next entry starts with the quote of its key.
      show (entries? fuel (quote key' ++ _)).bind _ = _
      rw [hentries]
      rfl

/-- A record is read as the record of what its entries are read as, in the same order. -/
theorem readAs_record {entries : List (String × JsonText)} {nodes : List (Option String × Node)}
    (h : List.Forall₂ EntryReadAs entries nodes) : (record entries).ReadAs (.record nodes) := by
  cases h with
  | nil => exact ⟨⟨'\x7b', _, rfl, by decide⟩, fun _ _ _ _ => rfl⟩
  | @cons entry pair entries nodes hentry hentries =>
    obtain @⟨key, item, node, hitem⟩ := hentry
    have hcompact : (record ((key, item) :: entries)).compact =
        '\x7b' :: (quote key ++ ':' :: (item.compact ++ compactEntries entries)) := by rw [compact]
    refine ⟨⟨'\x7b', _, hcompact, by decide⟩, fun fuel rest hfuel _ => ?_⟩
    simp only [hcompact, List.length_cons, List.length_append] at hfuel
    have hfuel' : item.compact.length + (compactEntries entries).length ≤ fuel := by omega
    have hentries := entries?_compact key hitem hentries hfuel' rest
    rw [hcompact, List.cons_append, List.append_assoc, List.cons_append, List.append_assoc, value?]
    show (entries? fuel (quote key ++ _)).bind _ = _
    rw [hentries]
    rfl

/-- A text that is written for a value is read as the value. -/
theorem read?_compact (h : t.ReadAs n) : Json.read? (String.ofList t.compact) = some n := by
  have hvalue := h.reads t.compact.length [] (Nat.le_succ _) .nil
  have hskip := h.skip []
  rw [List.append_nil] at hvalue hskip
  rw [Json.read?, String.toList_ofList, hskip, hvalue]
  rfl

end

end JsonText

end ShaderMachine.Document
