import ShaderMachine.Proofs.Assembler.Reassembly

/-!
# Listings as source text

A listing differs from the source text of a body in two ways: each line begins with the offset of
its instruction, and an immediate is shown twice. `assemble_listing` says what comes of assembling a
listing as it stands. The offsets do no harm: they are read as labels, which no branch names, since
its target is a literal offset. The second showing of an immediate does: it is one operand too many.
So a listing is read back as its body when no line pushes an immediate, and else it is refused at
the first line that does.

The lines are those of the source text behind a label, so `Draft.Holds` carries the proof over them
once more. In addition the offsets ahead must not have been named yet (`Draft.Unnamed`), for a label
can be bound only once.
-/

namespace ShaderMachine

open Numeral (natText)

/-! ## Characters of floats -/

namespace Decimal

section
variable {p : Char → Prop} (hdigit : ∀ d < 10, p (Numeral.digitChar d))
  (hother : ∀ c ∈ ['.', '-', '+', 'e', 'i', 'n', 'f', 'N', 'a'], p c)

include hdigit hother

/-- A float without exponent is written with digits, a point and zeros. -/
theorem forall_mem_positionalText (pointZero : Bool) (d : Decimal) :
    ∀ c ∈ positionalText pointZero d, p c := by
  have hdigits := Numeral.forall_mem_decimal hdigit d.digits
  have hpoint : p '.' := hother _ (by decide)
  have hzero : p '0' := hdigit 0 (by decide)
  have hzeros : ∀ n, ∀ c ∈ List.replicate n '0', p c := fun n c hc =>
    List.eq_of_mem_replicate hc ▸ hzero
  unfold positionalText
  dsimp only
  split
  · simp only [List.cons_append, List.forall_mem_cons, List.forall_mem_append]
    exact ⟨hzero, hpoint, hzeros _, hdigits⟩
  · split
    · simp only [List.forall_mem_cons, List.forall_mem_append]
      exact ⟨fun c hc => hdigits c (List.mem_of_mem_take hc), hpoint,
        fun c hc => hdigits c (List.mem_of_mem_drop hc)⟩
    · have hend : ∀ c ∈ (if pointZero then ['.', '0'] else []), p c := by
        split <;> simp [hpoint, hzero]
      simp only [List.forall_mem_append]
      exact ⟨⟨hdigits, hzeros _⟩, hend⟩

/-- A float with an exponent is written with digits, a point, the letter and a signed number. -/
theorem forall_mem_scientificText (exponentPlus : Bool) (d : Decimal) :
    ∀ c ∈ scientificText exponentPlus d, p c := by
  have hdigits := Numeral.forall_mem_decimal hdigit d.digits
  have hexponent := Numeral.forall_mem_decimalInt hdigit (hother '-' (by decide))
  unfold scientificText
  dsimp only
  have hfraction : ∀ c ∈ (if (Numeral.decimal d.digits).length = 1 then []
      else '.' :: (Numeral.decimal d.digits).drop 1), p c := by
    split
    · simp
    · exact List.forall_mem_cons.2 ⟨hother _ (by decide),
        fun c hc => hdigits c (List.mem_of_mem_drop hc)⟩
  have hsign : ∀ b : Bool, ∀ c ∈ (if b then ['+'] else []), p c := by
    intro b
    split <;> simp [hother '+' (by decide)]
  simp only [List.forall_mem_append, List.forall_mem_cons]
  exact ⟨⟨⟨fun c hc => hdigits c (List.mem_of_mem_take hc), hfraction⟩, hother _ (by decide),
    hsign _⟩, hexponent _⟩

/-- What holds of digits, signs, the point and the letters of floats holds of their text. -/
theorem Format.forall_mem_text (format : Format) (x : Binary32) :
    ∀ c ∈ (format.text x).toList, p c := by
  have hpositional := forall_mem_positionalText hdigit hother
  have hscientific := forall_mem_scientificText hdigit hother
  cases x with
  | nan => simp [Format.text, hother]
  | infinite negative => cases negative <;> simp [Format.text, hother]
  | finite negative x =>
    have hlayout : ∀ d, ∀ c ∈ format.layout d, p c := by
      intro d
      unfold Format.layout
      dsimp only
      split
      · split
        · exact hpositional _ d
        · exact hscientific _ d
      · split
        · exact hpositional _ d
        · exact hscientific _ d
    have hbody : ∀ c ∈ (if x.mantissa = 0 then '0' :: (if format.pointZero then ['.', '0'] else [])
        else format.layout (x.shortest format.tie)), p c := by
      have hzero : p '0' := hdigit 0 (by decide)
      split
      · split <;> simp [hzero, hother]
      · exact hlayout _
    rw [Format.text, String.toList_ofList]
    split
    · exact List.forall_mem_cons.2 ⟨hother _ (by decide), hbody⟩
    · exact hbody

end

end Decimal

/-! ## Lines of a listing -/

/-- The float of a listed immediate, in its brackets. -/
def Word.bracketedText (w : Word) : String := "(" ++ listedFloat.text (.ofBits w.bits) ++ ")"

namespace Instruction

/-- Whether an instruction pushes an immediate. -/
def isImmediate : Instruction → Bool
  | pushImmediate _ => true
  | _ => false

/-- The tokens of an instruction as it is listed. -/
def listedTokens : Instruction → List String
  | pushImmediate value =>
    [Opcode.pushImmediate.mnemonic, value.signedText, value.bracketedText]
  | i => i.tokens

end Instruction

/-- The line of a listing, without its line break. -/
def listedLine : Nat × Instruction → String := fun (ip, i) => natText ip ++ ": " ++ i.text

open SourceLine

/-- A float in brackets is one token. -/
theorem isToken_bracketedText (w : Word) : IsToken w.bracketedText.toList := by
  have hfloat := Word.listedFloat.forall_mem_text (p := fun c => clean c = true ∧ c.toLower ≠ 'c')
    (by decide) (by simp [clean, Text.isBlank, Text.blankRanges]) (.ofBits w.bits)
  have hclean : ∀ c ∈ w.bracketedText.toList, clean c = true ∧ c.toLower ≠ 'c' := by
    simp only [Word.bracketedText, String.toList_append, List.forall_mem_append]
    refine ⟨⟨?_, hfloat⟩, ?_⟩ <;> simp [clean, Text.isBlank, Text.blankRanges]
  exact .of_forall (by simp [Word.bracketedText]) hclean

namespace Instruction

/-- Only an immediate is listed with more than its tokens. -/
theorem listedTokens_of_not_isImmediate {i : Instruction} (h : i.isImmediate = false) :
    i.listedTokens = i.tokens := by
  cases i with
  | pushImmediate => cases h
  | _ => rfl

/-- The text of a listed instruction spells its listed tokens. -/
theorem spells_listed (i : Instruction) : SpellsText i.listedTokens i.text := by
  cases hi : i.isImmediate with
  | false =>
    have htext : i.text = i.textWith Word.signedText := by
      cases i with
      | pushImmediate => cases hi
      | _ => rfl
    rw [listedTokens_of_not_isImmediate hi, htext]
    exact i.spells_text
  | true =>
    cases i with
    | pushImmediate value =>
      have htext : (pushImmediate value).text = Opcode.pushImmediate.mnemonic ++ " " ++
          (value.signedText ++ " " ++ value.bracketedText) := by
        have hbracket : " (" = " " ++ "(" := rfl
        simp only [text, textWith, operandText, Word.listedText, Word.bracketedText, hbracket,
          String.append_assoc]
        rfl
      have hfloat : SpellsText [value.bracketedText] value.bracketedText :=
        .last (isToken_bracketedText value)
      rw [htext]
      exact (hfloat.blank (isToken_signedText value)).blank (isToken_mnemonic _)
    | _ => cases hi

/-- The tokens of a listed instruction are read as its statement, but the second showing of an
immediate is one operand too many. -/
theorem read_listedTokens {i : Instruction} (h : i.Fits) :
    Statement.read i.listedTokens =
      if i.isImmediate then .error (.operandCount .pushImmediate 1 2) else .ok i.statement := by
  cases hi : i.isImmediate with
  | false =>
    rw [listedTokens_of_not_isImmediate hi]
    exact read_tokens h
  | true =>
    cases i with
    | pushImmediate value =>
      rw [listedTokens, Statement.read, Statement.readMnemonic_mnemonic]
      rfl
    | _ => cases hi

end Instruction

/-! ## Naming offsets -/

/-- Labels and literal offsets have different names. -/
theorem natText_ne_literal (n m : Nat) : natText n ≠ "@" ++ natText m := by
  intro h
  have hmem : '@' ∈ Numeral.decimal n := by
    have htext := congrArg String.toList h
    rw [natText, String.toList_ofList] at htext
    rw [htext]
    simp
  exact Numeral.forall_mem_decimal (p := (· ≠ '@')) (by decide) n '@' hmem rfl

namespace Draft

open Assembler

/-- No offset from `ip` on is a label yet. -/
def Unnamed (d : Draft) (ip : Nat) : Prop := ∀ n, ip ≤ n → d.names.lookup (natText n) = none

section
variable {d : Draft} {bytes : List UInt8}

/-- A draft begins with no names. -/
theorem unnamed_empty (ip : Nat) : ({} : Draft).Unnamed ip := fun _ _ => rfl

/-- The name of a literal offset is none of the numerals. -/
theorem lookup_target (d : Draft) (line : Nat) (offset : UInt16) (n : Nat) :
    (d.target line (.literal offset)).2.names.lookup (natText n) = d.names.lookup (natText n) := by
  have htarget : d.target line (.literal offset) =
      { d with references := (natText offset.toNat, line) :: d.references }.offsetLabel offset :=
    rfl
  rw [htarget]
  unfold offsetLabel
  dsimp only
  split
  · rfl
  · rw [List.lookup_cons, beq_eq_false_iff_ne.2 (natText_ne_literal n offset.toNat)]

/-- The statement of an instruction makes no numeral a label. -/
theorem lookup_add (d : Draft) (line : Nat) (i : Instruction) (n : Nat) :
    (d.add line i.statement).names.lookup (natText n) = d.names.lookup (natText n) := by
  cases i with
  | branch | conditionalBranch => exact lookup_target d line _ n
  | vector lanes op =>
    cases op with
    | branch | conditionalBranch => exact lookup_target d line _ n
    | _ => rfl
  | _ => rfl

/-- A new name is defined as a label, and this changes nothing else. -/
theorem Holds.define (h : d.Holds bytes) {name : String} (hnew : d.names.lookup name = none)
    (hliteral : ∀ n : UInt16, name ≠ "@" ++ natText n.toNat) : (d.define name).Holds bytes := by
  have hdefine : d.define name =
      { d with
        assembler := d.assembler.newLabel.2.bind d.assembler.newLabel.1
        names := (name, d.assembler.newLabel.1) :: d.names } := by
    unfold Draft.define label
    rw [hnew]
  have hfree : d.assembler.newLabel.2.labels[d.assembler.newLabel.1.index]? = some none :=
    Array.getElem?_push_size
  have hmono : ∀ {label n}, d.assembler.BoundAt label n →
      (d.assembler.newLabel.2.bind d.assembler.newLabel.1).BoundAt label n :=
    fun hbound => boundAt_bind_iff.2 (.inl (boundAt_newLabel_iff.2 hbound))
  have hbound := boundAt_bind_iff.2 (.inr ⟨rfl, hfree, rfl⟩)
  have herror : (d.assembler.newLabel.2.bind d.assembler.newLabel.1).error = none := by
    simp only [Assembler.bind, hfree]
    exact h.error
  have hfixups : (d.assembler.newLabel.2.bind d.assembler.newLabel.1).fixups =
      d.assembler.fixups := fixups_call d.assembler.newLabel.2 (c := .bind _) rfl
  obtain ⟨hsound, hfilled⟩ := adds_bind d.assembler.newLabel.2 d.assembler.newLabel.1 h.sound
  rw [hdefine]
  refine ⟨herror, hsound, fun name' label hname => ?_, fun n label hname => ?_,
    fun label hlabel => ?_, fun target htarget => ?_⟩
  · rw [List.lookup_cons] at hname
    split at hname
    · cases hname
      exact ⟨_, hbound⟩
    · obtain ⟨n, hn⟩ := h.names name' label hname
      exact ⟨n, hmono hn⟩
  · rw [List.lookup_cons, beq_eq_false_iff_ne.2 (hliteral n).symm] at hname
    exact hmono (h.literals n label hname)
  · rw [hfixups] at hlabel
    obtain ⟨n, hn⟩ := h.targets label hlabel
    exact ⟨n, hmono hn⟩
  · rw [hfilled, List.append_nil]
    exact h.filled target fun label n hn => htarget label n (hmono hn)

/-- Defining an offset as a label names no later one. -/
theorem Unnamed.define {ip : Nat} (h : d.Unnamed ip) :
    (d.define (natText ip)).Unnamed (ip + 1) := by
  intro n hn
  have hne : natText n ≠ natText ip := fun heq => by
    have := Numeral.natText_inj.1 heq
    omega
  unfold Draft.define label
  rw [h ip (Nat.le_refl _)]
  dsimp only
  rw [List.lookup_cons, beq_eq_false_iff_ne.2 hne]
  exact h n (by omega)

/-- A listed line is read as its offset and its tokens. -/
theorem addLine_listed (d : Draft) (line ip : Nat) {i : Instruction} (hfits : i.Fits) :
    d.addLine line (listedLine (ip, i)).toList =
      if i.isImmediate then .error (.statement line (.operandCount .pushImmediate 1 2))
      else .ok ((d.define (natText ip)).add line i.statement) := by
  have htext : (listedLine (ip, i)).toList = Numeral.decimal ip ++ ':' :: ' ' :: i.text.toList := by
    simp [listedLine, natText]
  have htokens : (i.listedTokens.map String.toList).map String.ofList = i.listedTokens := by
    rw [List.map_map]
    exact (List.map_congr_left fun t _ => String.ofList_toList).trans (List.map_id _)
  have hline := SourceLine.read_of_labelled (isToken_decimal ip) i.spells_listed
  rw [htokens, ← htext] at hline
  simp only [addLine, hline, List.foldl_cons, List.foldl_nil, Instruction.read_listedTokens hfits]
  cases i.isImmediate <;> rfl

/-- The lines of a listing add the body, unless one of them pushes an immediate. -/
theorem addLines_listed {code : Code} {ip : Nat} {lines : List (Nat × Instruction)}
    (htiles : code.Tiles ip lines) (h : d.Holds (code.toList.take ip)) (hnew : d.Unnamed ip)
    (line : Nat) :
    match lines.findIdx? (·.2.isImmediate) with
    | none => ∃ d', d.addLines line (lines.map (fun l => (listedLine l).toList) ++ [[]]) = .ok d' ∧
        d'.Holds code.toList
    | some n => d.addLines line (lines.map (fun l => (listedLine l).toList) ++ [[]]) =
        .error (.statement (line + n) (.operandCount .pushImmediate 1 2)) := by
  induction htiles generalizing d line with
  | done =>
    refine ⟨d, rfl, ?_⟩
    rwa [← Array.length_toList, List.take_length] at h
  | @next ip ip' i lines hread _ ih =>
    have hfits := (Code.readInstruction_eq_ok_iff.1 hread).1
    rw [List.findIdx?_cons, List.map_cons, List.cons_append, addLines,
      addLine_listed d line ip hfits]
    cases hi : i.isImmediate with
    | true => exact rfl
    | false =>
      have hlt := Code.readInstruction_lt hread
      have hdefine := h.define (hnew ip (Nat.le_refl _)) fun n => natText_ne_literal ip n.toNat
      -- Only the offset of this line has been named, and those of the lines behind it are larger.
      have hunnamed : ((d.define (natText ip)).add line i.statement).Unnamed ip' := fun n hn => by
        rw [lookup_add]
        exact hnew.define n (by omega)
      have hrest := ih (hdefine.add_read hread line) hunnamed (line + 1)
      cases hfind : lines.findIdx? (·.2.isImmediate) with
      | none =>
        rw [hfind] at hrest
        exact hrest
      | some n =>
        have hcount : line + 1 + n = line + (n + 1) := by omega
        rw [hfind] at hrest
        dsimp only at hrest
        rw [hcount] at hrest
        exact hrest

end

end Draft

/-! ## Listings -/

/-- A listing is split into its lines and an empty one. -/
theorem splitOn_listing (lines : List (Nat × Instruction)) :
    (String.join (lines.map fun l => listedLine l ++ "\n")).toList.splitOn '\n' =
      lines.map (fun l => (listedLine l).toList) ++ [[]] := by
  refine splitOn_join fun (ip, i) _ => ?_
  have hoffset : '\n' ∉ Numeral.decimal ip := fun hmem =>
    Numeral.forall_mem_decimal (p := (· ≠ '\n')) (by decide) ip '\n' hmem rfl
  have htext : '\n' ∉ i.text.toList := i.spells_listed.not_mem (by decide) (by decide) (by decide)
  simp [listedLine, natText, hoffset, htext]

/-- **Reading back a listing.** A listing is assembled into its body unless a line pushes an
immediate, which it shows twice; then it is refused at the first of these lines. -/
theorem assemble_listing {code : Code} {text : String} (h : code.listing = .ok text) :
    assemble text =
      match code.instructions.1.findIdx? (·.2.isImmediate) with
      | none => .ok code
      | some n => .error (.statement (n + 1) (.operandCount .pushImmediate 1 2)) := by
  unfold Code.listing at h
  split at h
  · cases h
  · rename_i lines hlines
    have htext : text = String.join (lines.map fun l => listedLine l ++ "\n") :=
      (Except.ok.inj h).symm
    have htiles : code.Tiles 0 lines := (Code.instructionsFrom_eq_iff (Nat.zero_le _)).1 hlines
    have hadd := Draft.addLines_listed htiles Draft.holds_empty (Draft.unnamed_empty 0) 1
    rw [hlines, assemble, htext, splitOn_listing]
    dsimp only
    cases hfind : lines.findIdx? (·.2.isImmediate) with
    | none =>
      rw [hfind] at hadd
      obtain ⟨d, hdraft, hd⟩ := hadd
      rw [hdraft]
      exact hd.finish
    | some n =>
      rw [hfind] at hadd
      dsimp only at hadd
      rw [hadd, Nat.add_comm 1 n]
      rfl

/-- Branches forward and back, to offsets that the listing has as labels. -/
def tallyCode : Code := #[26, 55, 2, 21, 6, 0, 53, 3, 1, 2, 37, 4, 1, 0, 46, 1]

/-- An immediate behind its padding. -/
def immediateCode : Code := #[37, 37, 37, 43, 1, 0, 0, 0]

def tallyListing : String :=
  "0: dup\n1: vector 2 conditionalbranch 6\n6: swizzle 3, 1, 2\n10: nop\n11: branch 1\n14: return 1\n"

def immediateListing : String := "0: nop\n1: nop\n2: nop\n3: pushimmediate 1 (1e-45)\n"

/-- A listing without immediates is read back, and one with an immediate is refused at its line. -/
theorem assemble_tallyListing :
    tallyCode.listing = .ok tallyListing ∧ assemble tallyListing = .ok tallyCode ∧
      immediateCode.listing = .ok immediateListing ∧
      assemble immediateListing = .error (.statement 4 (.operandCount .pushImmediate 1 2)) := by
  have htally : tallyCode.listing = .ok tallyListing := by decide +kernel
  have hnone : tallyCode.instructions.1.findIdx? (·.2.isImmediate) = none := by decide +kernel
  have himmediate : immediateCode.listing = .ok immediateListing := by decide +kernel
  have hsome : immediateCode.instructions.1.findIdx? (·.2.isImmediate) = some 3 := by
    decide +kernel
  have hread := assemble_listing htally
  have hrefused := assemble_listing himmediate
  rw [hnone] at hread
  rw [hsome] at hrefused
  exact ⟨htally, hread, himmediate, hrefused⟩

/-- Not every listing is read back. -/
theorem not_forall_assemble_listing :
    ¬ ∀ (code : Code) (text : String), code.listing = .ok text → assemble text = .ok code := by
  intro h
  have hlisting : immediateCode.listing = .ok immediateListing := by decide +kernel
  have herror : assemble immediateListing =
      .error (.statement 4 (.operandCount .pushImmediate 1 2)) := by decide +kernel
  have hok := h _ _ hlisting
  rw [herror] at hok
  cases hok

end ShaderMachine
