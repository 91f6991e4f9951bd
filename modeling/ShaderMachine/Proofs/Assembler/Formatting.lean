import Mathlib
import ShaderMachine.Assembler.Source

/-!
# The layout of source text

A line says the same however it is laid out: `SourceLine.SameLine` holds of lines with the same
labels and tokens, whatever blanks, commas and comments stand around them, in which mnemonics may
differ in case and a comparison may be one word or two. `assemble_of_sameLines` says that such lines
assemble to the same body, or that neither text assembles.

A reader is compared by what it gives, without the reason of a refusal (`Except.toOption`): an
unknown mnemonic is reported as it is written.
-/

namespace ShaderMachine

/-- What a sequence of readers gives is made of what each of them gives. -/
theorem toOption_bind {ε α β : Type} (x : Except ε α) (f : α → Except ε β) :
    (x >>= f).toOption = x.toOption.bind fun a => (f a).toOption := by
  cases x <;> rfl

/-- Lower case goes character by character, so it goes through an append. -/
theorem lower_append (cs cs' : List Char) :
    Text.lower (cs ++ cs') = Text.lower cs ++ Text.lower cs' :=
  List.map_append

/-- The lines of a source text. The last line break ends a line and begins none. A carriage return
in front of a line break is a blank at the end of the line. -/
def sourceLines (source : String) : List (List Char) :=
  let lines := source.toList.splitOn '\n'
  if lines.getLast? = some [] then lines.dropLast else lines

namespace SourceLine

/-! ## What a line says -/

/-- The parts of a line in front of its comment, which colons separate. -/
def parts (cs : List Char) : List (List Char) :=
  ((withoutComment cs).splitOn ':').map Text.trim

/-- What stands in front of colons. -/
def labelNames (cs : List Char) : List (List Char) := (parts cs).dropLast

/-- What stands behind the last colon. -/
def remainder (cs : List Char) : List Char := (parts cs).getLastD []

/-- The tokens of a text as they are written, without joining comparisons. -/
def writtenTokens (cs : List Char) : List (List Char) :=
  (cs.splitOnP fun c => Text.isBlank c || c == ',').filter fun token => !token.isEmpty

/-- Tokens that write a mnemonic, in any case. A comparison may be divided behind its first word. -/
inductive WritesMnemonic (mnemonic : List Char) : List (List Char) → Prop
  | whole {token} : Text.lower token = mnemonic → WritesMnemonic mnemonic [token]
  | divided {family kind} : Text.lower family ∈ compareFamilies →
      Text.lower (family ++ kind) = mnemonic → WritesMnemonic mnemonic [family, kind]

/-- Tokens of one statement: the same mnemonics in front of the same operands. The mnemonic of the
operation inside `vector` stands behind the lanes. -/
inductive SameStatement : List (List Char) → List (List Char) → Prop
  | none : SameStatement [] []
  | plain {mnemonic written written' operands} :
      WritesMnemonic mnemonic written → WritesMnemonic mnemonic written' →
      SameStatement (written ++ operands) (written' ++ operands)
  | vector {word word' lanes mnemonic written written' operands} :
      Text.lower word = Opcode.vector.mnemonic.toList →
      Text.lower word' = Opcode.vector.mnemonic.toList →
      WritesMnemonic mnemonic written → WritesMnemonic mnemonic written' →
      SameStatement (word :: lanes :: (written ++ operands))
        (word' :: lanes :: (written' ++ operands))

/-- Lines that say the same. `blank` sets a blank remainder apart from one of nothing but commas,
which has no tokens either and is refused. -/
structure SameLine (cs cs' : List Char) : Prop where
  names : labelNames cs = labelNames cs'
  blank : remainder cs = [] ↔ remainder cs' = []
  statement : SameStatement (writtenTokens (remainder cs)) (writtenTokens (remainder cs'))

/-! ## Joined tokens -/

/-- Putting blanks in the place of commas makes both separate tokens. -/
theorem splitOnP_map_comma (cs : List Char) :
    (cs.map fun c => if c = ',' then ' ' else c).splitOnP Text.isBlank =
      cs.splitOnP fun c => Text.isBlank c || c == ',' := by
  induction cs with
  | nil => rfl
  | cons c cs ih =>
    rw [List.map_cons, List.splitOnP_cons_eq_if_modifyHead, List.splitOnP_cons_eq_if_modifyHead, ih]
    by_cases hcomma : c = ','
    · subst hcomma
      rfl
    · simp [hcomma]

/-- The words of a text with blanks for commas are the tokens as they are written. -/
theorem words_map_comma (cs : List Char) :
    Text.words (cs.map fun c => if c = ',' then ' ' else c) = writtenTokens cs := by
  rw [Text.words, splitOnP_map_comma, writtenTokens]

/-- A line is taken apart into its names and the tokens of its remainder. -/
theorem read_eq (cs : List Char) :
    read cs =
      match (labelNames cs).find? fun name => !isLabel name with
      | some name => .error (String.ofList name)
      | none => .ok ⟨(labelNames cs).map String.ofList,
          if (remainder cs).isEmpty then none
          else some ((joinCompares (writtenTokens (remainder cs))).map String.ofList)⟩ := by
  rw [← words_map_comma]
  rfl

section
variable {first mnemonic : List Char} {written written' : List (List Char)}

/-- A first word of a comparison is joined with the token behind it. -/
theorem joinCompares_of_mem (h : Text.lower first ∈ compareFamilies) (second : List Char)
    (rest : List (List Char)) :
    joinCompares (first :: second :: rest) = joinCompares ((first ++ second) :: rest) := by
  rw [joinCompares, if_pos (by simpa using h)]

/-- Any other token stands for itself. -/
theorem joinCompares_of_not_mem (h : Text.lower first ∉ compareFamilies)
    (rest : List (List Char)) : joinCompares (first :: rest) = first :: joinCompares rest := by
  cases rest with
  | nil => simp [joinCompares]
  | cons second rest => rw [joinCompares, if_neg (by simpa using h)]

/-- The first token keeps its place and gets longer by what is joined to it, which goes by its
letters and not by their case. -/
theorem exists_joinCompares_cons (token : List Char) (operands : List (List Char)) :
    ∃ joined rest, ∀ token', Text.lower token' = Text.lower token →
      joinCompares (token' :: operands) = (token' ++ joined) :: rest := by
  induction operands generalizing token with
  | nil => exact ⟨[], [], fun token' _ => by simp [joinCompares]⟩
  | cons second operands ih =>
    by_cases hfamily : Text.lower token ∈ compareFamilies
    · obtain ⟨joined, rest, hjoin⟩ := ih (token ++ second)
      refine ⟨second ++ joined, rest, fun token' hlower => ?_⟩
      have hlonger : Text.lower (token' ++ second) = Text.lower (token ++ second) := by
        rw [lower_append, lower_append, hlower]
      rw [joinCompares_of_mem (hlower ▸ hfamily), hjoin _ hlonger, List.append_assoc]
    · refine ⟨[], joinCompares (second :: operands), fun token' hlower => ?_⟩
      rw [joinCompares_of_not_mem (hlower ▸ hfamily), List.append_nil]

/-- Both ways of writing a mnemonic are joined as one token. -/
theorem WritesMnemonic.exists_token (h : WritesMnemonic mnemonic written) :
    ∃ token, Text.lower token = mnemonic ∧
      ∀ operands, joinCompares (written ++ operands) = joinCompares (token :: operands) := by
  cases h with
  | whole htoken => exact ⟨_, htoken, fun operands => rfl⟩
  | divided hfamily htoken =>
    exact ⟨_, htoken, fun operands => joinCompares_of_mem hfamily _ operands⟩

/-- However a mnemonic is written, the tokens are the same but for its case. -/
theorem WritesMnemonic.exists_joinCompares (h : WritesMnemonic mnemonic written)
    (h' : WritesMnemonic mnemonic written') (operands : List (List Char)) :
    ∃ head head' rest, Text.lower head = Text.lower head' ∧
      joinCompares (written ++ operands) = head :: rest ∧
      joinCompares (written' ++ operands) = head' :: rest := by
  obtain ⟨token, htoken, hwritten⟩ := h.exists_token
  obtain ⟨token', htoken', hwritten'⟩ := h'.exists_token
  have hlower : Text.lower token' = Text.lower token := htoken'.trans htoken.symm
  obtain ⟨joined, rest, hjoin⟩ := exists_joinCompares_cons token operands
  refine ⟨token ++ joined, token' ++ joined, rest, ?_,
    (hwritten operands).trans (hjoin token rfl), (hwritten' operands).trans (hjoin token' hlower)⟩
  rw [lower_append, lower_append, hlower]

end

end SourceLine

/-! ## Statements -/

namespace Statement

open SourceLine

section
variable {token token' : List Char} {tokens tokens' : List (List Char)}

/-- A mnemonic is looked up in lower case. -/
theorem toOption_readMnemonic (token : List Char) :
    (readMnemonic (String.ofList token)).toOption =
      Opcode.ofMnemonic? (String.ofList (Text.lower token)) := by
  rw [readMnemonic, String.toList_ofList]
  cases Opcode.ofMnemonic? (String.ofList (Text.lower token)) <;> rfl

/-- A statement is read by its mnemonic, which decides how its operands are read. -/
theorem toOption_read_cons (token : List Char) (operands : List String) :
    (read (String.ofList token :: operands)).toOption =
      (Opcode.ofMnemonic? (String.ofList (Text.lower token))).bind fun op =>
        (readOperands op operands).toOption := by
  rw [read, toOption_bind, toOption_readMnemonic]

/-- Case means nothing for the operation inside `vector` either. -/
theorem toOption_readLaneStatement (h : Text.lower token = Text.lower token') (lanes : String)
    (operands : List String) :
    (readLaneStatement (lanes :: String.ofList token :: operands)).toOption =
      (readLaneStatement (lanes :: String.ofList token' :: operands)).toOption := by
  simp only [readLaneStatement, toOption_bind, toOption_readMnemonic, h, List.length_cons]

/-- No first word of a comparison begins a byte. -/
theorem toOption_readByte_of_mem (h : Text.lower token ∈ compareFamilies) (joined : List Char) :
    (readByte (String.ofList (token ++ joined))).toOption = none := by
  have hfamilies : ∀ family ∈ compareFamilies, ∃ rest, family = 'c' :: rest := by
    simp [compareFamilies]
  obtain ⟨rest, hrest⟩ := hfamilies _ h
  obtain ⟨c, cs, rfl, hc, -⟩ := List.map_eq_cons_iff.1 hrest
  have hletter : c = 'c' ∨ c = 'C' := by
    unfold Char.toLower at hc
    split at hc
    · have hval : c.val + 32 = 99 := congrArg Char.val hc
      have hsub : c.val = 99 - 32 := eq_sub_of_add_eq hval
      exact .inr (Char.ext hsub)
    · exact .inl hc
  unfold readByte
  rw [String.toList_ofList]
  rcases hletter with rfl | rfl <;> rfl

/-- A first word of a comparison in the place of the lanes is refused, whatever is joined to it. -/
theorem toOption_readLaneStatement_of_mem (h : Text.lower token ∈ compareFamilies)
    (tokens : List (List Char)) :
    (readLaneStatement ((joinCompares (token :: tokens)).map String.ofList)).toOption = none := by
  obtain ⟨joined, rest, hjoin⟩ := exists_joinCompares_cons token tokens
  rw [hjoin token rfl, List.map_cons]
  cases rest with
  | nil => rfl
  | cons inner rest =>
    rw [List.map_cons, readLaneStatement, toOption_bind, toOption_readByte_of_mem h joined]
    rfl

/-- Behind the word `vector`, in any case, a lane-wide statement is read. -/
theorem toOption_read_vector (h : Text.lower token = Opcode.vector.mnemonic.toList)
    (tokens : List (List Char)) :
    (read ((joinCompares (token :: tokens)).map String.ofList)).toOption =
      (readLaneStatement ((joinCompares tokens).map String.ofList)).toOption := by
  have hvector : Opcode.vector.mnemonic.toList ∉ compareFamilies := by decide
  rw [joinCompares_of_not_mem (h ▸ hvector), List.map_cons, toOption_read_cons, h,
    String.ofList_toList, Opcode.ofMnemonic?_mnemonic]
  rfl

/-- The same statement is read however it is written. -/
theorem toOption_read_joinCompares (h : SameStatement tokens tokens') :
    (read ((joinCompares tokens).map String.ofList)).toOption =
      (read ((joinCompares tokens').map String.ofList)).toOption := by
  cases h with
  | none => rfl
  | plain hwritten hwritten' =>
    obtain ⟨head, head', rest, hlower, hjoin, hjoin'⟩ :=
      hwritten.exists_joinCompares hwritten' _
    rw [hjoin, hjoin', List.map_cons, List.map_cons, toOption_read_cons, toOption_read_cons, hlower]
  | @vector word word' lanes _ _ _ operands hword hword' hwritten hwritten' =>
    rw [toOption_read_vector hword, toOption_read_vector hword']
    -- A first word of a comparison in the place of the lanes is joined with the mnemonic.
    by_cases hlanes : Text.lower lanes ∈ compareFamilies
    · rw [toOption_readLaneStatement_of_mem hlanes, toOption_readLaneStatement_of_mem hlanes]
    · obtain ⟨head, head', rest, hlower, hjoin, hjoin'⟩ :=
        hwritten.exists_joinCompares hwritten' operands
      rw [joinCompares_of_not_mem hlanes, joinCompares_of_not_mem hlanes, hjoin, hjoin']
      exact toOption_readLaneStatement hlower _ _

end

end Statement

/-! ## Lines -/

namespace Draft

open SourceLine

/-- What a line adds, by what it says. -/
theorem toOption_addLine (d : Draft) (line : Nat) (cs : List Char) :
    (d.addLine line cs).toOption =
      if (labelNames cs).all isLabel then
        let labelled := ((labelNames cs).map String.ofList).foldl define d
        if remainder cs = [] then some labelled
        else (Statement.read ((joinCompares (writtenTokens (remainder cs))).map
          String.ofList)).toOption.map (labelled.add line)
      else none := by
  rw [addLine, read_eq]
  cases hfind : (labelNames cs).find? fun name => !isLabel name with
  | some name =>
    have hmem := List.mem_of_find?_eq_some hfind
    have hname := List.find?_some hfind
    have hmalformed : ¬ (labelNames cs).all isLabel := fun hall => by
      simp [List.all_eq_true.1 hall name hmem] at hname
    rw [if_neg hmalformed]
    rfl
  | none =>
    have hlabels : (labelNames cs).all isLabel := by simpa using hfind
    rw [if_pos hlabels]
    by_cases hblank : remainder cs = []
    · simp only [hblank, List.isEmpty_nil, if_true]
      rfl
    · simp only [List.isEmpty_iff, hblank, if_false]
      cases Statement.read ((joinCompares (writtenTokens (remainder cs))).map String.ofList) <;> rfl

/-- Lines that say the same add the same. -/
theorem toOption_addLine_of_sameLine (d : Draft) (line : Nat) {cs cs' : List Char}
    (h : SameLine cs cs') : (d.addLine line cs).toOption = (d.addLine line cs').toOption := by
  rw [toOption_addLine, toOption_addLine, h.names, Statement.toOption_read_joinCompares h.statement]
  simp only [h.blank]

/-- Texts with the same lines, one by one, give the same draft from any draft on. -/
theorem toOption_addLines (d : Draft) (line : Nat) {rows rows' : List (List Char)}
    (h : List.Forall₂ SameLine rows rows') :
    (d.addLines line rows).toOption = (d.addLines line rows').toOption := by
  induction h generalizing d line with
  | nil => rfl
  | cons hline _ ih =>
    rw [addLines, addLines, toOption_bind, toOption_bind,
      toOption_addLine_of_sameLine d line hline]
    exact Option.bind_congr fun d' _ => ih d' (line + 1)

/-- An empty line behind the others adds nothing. -/
theorem addLines_concat_nil (d : Draft) (line : Nat) (rows : List (List Char)) :
    d.addLines line (rows ++ [[]]) = d.addLines line rows := by
  induction rows generalizing d line with
  | nil => rfl
  | cons cs rows ih =>
    rw [List.cons_append, addLines, addLines]
    cases d.addLine line cs with
    | ok d' => exact ih d' (line + 1)
    | error e => rfl

end Draft

/-- Assembling goes over the lines and finishes the draft they give. An empty line that the last
line break leaves counts for nothing. -/
theorem assemble_eq (source : String) :
    assemble source = Draft.addLines {} 1 (sourceLines source) >>= Draft.finish := by
  have hlines : Draft.addLines {} 1 (source.toList.splitOn '\n') =
      Draft.addLines {} 1 (sourceLines source) := by
    unfold sourceLines
    dsimp only
    split
    · rename_i hlast
      rw [← List.dropLast_append_getLast? [] hlast, Draft.addLines_concat_nil,
        List.dropLast_concat]
    · rfl
  rw [assemble, hlines]

/-- **Layout does not matter.** Two sources whose lines say the same assemble to the same body, or
neither of them assembles. -/
theorem assemble_of_sameLines {source source' : String}
    (h : List.Forall₂ SourceLine.SameLine (sourceLines source) (sourceLines source')) :
    (∃ code, assemble source = .ok code ∧ assemble source' = .ok code) ∨
      (∃ e, assemble source = .error e) ∧ ∃ e, assemble source' = .error e := by
  have hsame : (assemble source).toOption = (assemble source').toOption := by
    rw [assemble_eq, assemble_eq, toOption_bind, toOption_bind, Draft.toOption_addLines {} 1 h]
  cases hsource : assemble source with
  | ok code =>
    cases hsource' : assemble source' with
    | ok code' =>
      rw [hsource, hsource'] at hsame
      cases hsame
      exact .inl ⟨code, rfl, rfl⟩
    | error e =>
      rw [hsource, hsource'] at hsame
      cases hsame
  | error e =>
    cases hsource' : assemble source' with
    | ok code =>
      rw [hsource, hsource'] at hsame
      cases hsame
    | error e' => exact .inr ⟨⟨e, rfl⟩, e', rfl⟩

/-- Comparisons in two words, with a comment and commas. -/
def looseText : String := "loop: Compares GT ; start\nVECTOR 2, comparef lt\n  branch\tloop"

/-- Comparisons in one word, with a comment in another place. -/
def tightText : String := "loop :comparesgt\nvector 2 COMPAREFLT # two lanes\nbranch, loop\n"

/-- Both texts have the same lines, so they assemble to one body. -/
theorem assemble_of_sameLines_looseText :
    List.Forall₂ SourceLine.SameLine (sourceLines looseText) (sourceLines tightText) ∧
      ∃ code, assemble looseText = .ok code ∧ assemble tightText = .ok code := by
  have hloose : sourceLines looseText =
      ["loop: Compares GT ; start".toList, "VECTOR 2, comparef lt".toList,
        "  branch\tloop".toList] := by
    decide +kernel
  have htight : sourceLines tightText =
      ["loop :comparesgt".toList, "vector 2 COMPAREFLT # two lanes".toList,
        "branch, loop".toList] := by
    decide +kernel
  have hcompare : SourceLine.SameLine "loop: Compares GT ; start".toList
      "loop :comparesgt".toList := by
    refine ⟨by decide +kernel, by decide +kernel, ?_⟩
    exact @SourceLine.SameStatement.plain "comparesgt".toList ["Compares".toList, "GT".toList]
      ["comparesgt".toList] [] (.divided (by decide) (by decide)) (.whole (by decide))
  have hvector : SourceLine.SameLine "VECTOR 2, comparef lt".toList
      "vector 2 COMPAREFLT # two lanes".toList := by
    refine ⟨by decide +kernel, by decide +kernel, ?_⟩
    exact @SourceLine.SameStatement.vector "VECTOR".toList "vector".toList "2".toList
      "compareflt".toList ["comparef".toList, "lt".toList] ["COMPAREFLT".toList] []
      (by decide) (by decide) (.divided (by decide) (by decide)) (.whole (by decide))
  have hbranch : SourceLine.SameLine "  branch\tloop".toList "branch, loop".toList := by
    refine ⟨by decide +kernel, by decide +kernel, ?_⟩
    exact @SourceLine.SameStatement.plain "branch".toList ["branch".toList] ["branch".toList]
      ["loop".toList] (.whole (by decide)) (.whole (by decide))
  have hlines : List.Forall₂ SourceLine.SameLine (sourceLines looseText)
      (sourceLines tightText) := by
    rw [hloose, htight]
    exact .cons hcompare (.cons hvector (.cons hbranch .nil))
  refine ⟨hlines, ?_⟩
  obtain hok | ⟨⟨e, herror⟩, -⟩ := assemble_of_sameLines hlines
  · exact hok
  · have haccepted : (assemble looseText).toOption.isSome = true := by decide +kernel
    rw [herror] at haccepted
    cases haccepted

end ShaderMachine
