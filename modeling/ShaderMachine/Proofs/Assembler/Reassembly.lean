import ShaderMachine.Proofs.Assembler.Layout
import ShaderMachine.Proofs.Assembler.Statements
import ShaderMachine.Proofs.Instruction.Tiling

/-!
# A body is assembled from its own text

`assemble_source` says that a body which decodes without fault is assembled from its source text
(`Code.source`), byte for byte: one line for each instruction, with immediates as signed integers
and branch targets as literal offsets.

`Draft.Holds` is what carries the proof over the lines: the draft has no error, all its names are
bound, the targets of its branches to offsets of 16 bits, and its bytes are those of the body so
far. An instruction that was read is aligned where it stands, so no line adds padding
(`Instruction.aligned_iff_padding`), and the next instruction is read where its line is added
(`Draft.Holds.add_read`).
-/

namespace ShaderMachine

/-- The text from which a body can be assembled: one line for each of its instructions. -/
def Code.source (code : Code) : String :=
  String.join (code.instructions.1.map fun (_, i) => i.textWith Word.signedText ++ "\n")

namespace Assembler

/-- The labels that are bound stand for their offsets. -/
def Resolves (a : Assembler) (target : Label → UInt16) : Prop :=
  ∀ label (n : UInt16), a.BoundAt label n.toNat → target label = n

/-- The offsets that a builder fills in are those at which its labels are bound. -/
theorem resolves_offsets (a : Assembler) : a.Resolves a.offsets :=
  fun _ _ h => offsets_of_target (target_eq_ok_iff.2 h)

/-- A label that is created with an offset is bound there, and no other label is bound by it. -/
theorem boundAt_newLabelAt_iff {a : Assembler} {label : Label} {offset n : Nat} :
    (a.newLabelAt offset).2.BoundAt label n ↔
      a.BoundAt label n ∨ label = (a.newLabelAt offset).1 ∧ n = offset := by
  refine (boundAt_push_iff rfl).trans (or_congr_right (and_congr_right fun _ => ?_))
  rw [Option.some.injEq, eq_comm]

/-- A call that is accepted and binds no label leaves no error. -/
theorem error_call_of_accepted {a : Assembler} {c : Call} (h : a.error = none)
    (hc : c.Accepted) (hlabels : ¬ c.Labels) : (a.call c).error = none := by
  cases c with
  | newLabel | bind => exact absurd trivial hlabels
  | op op =>
    have hop : op.operands = .none := hc
    simp only [Assembler.call, Assembler.op, if_pos hop]
    exact h
  | loadSwizzle => exact call_loadSwizzle a hc ▸ h
  | storeSwizzle => exact call_storeSwizzle a hc ▸ h
  | swizzle => exact call_swizzle a hc ▸ h
  | vector lanes op =>
    simp only [Assembler.call, Assembler.vector, checkLanes_of_isSome a hc.1, if_pos hc.2]
    exact h
  | vectorLoadGlobal lanes =>
    simp only [Assembler.call, Assembler.vectorLoadGlobal, checkLanes_of_isSome a hc]
    exact h
  | vectorBranch lanes op =>
    simp only [Assembler.call, Assembler.vectorBranch, checkLanes_of_isSome a hc.1, if_pos hc.2]
    exact h
  | _ => exact h

end Assembler

open Assembler

namespace Draft

/-- The draft holds the bytes, and nothing is left open in it. -/
structure Holds (d : Draft) (bytes : List UInt8) : Prop where
  error : d.assembler.error = none
  sound : d.assembler.Sound
  names : ∀ name label, d.names.lookup name = some label → ∃ n, d.assembler.BoundAt label n
  literals : ∀ (n : UInt16) label, d.names.lookup ("@" ++ Numeral.natText n.toNat) = some label →
    d.assembler.BoundAt label n.toNat
  targets : ∀ label ∈ d.assembler.fixups.toList.map Prod.snd,
    ∃ n : UInt16, d.assembler.BoundAt label n.toNat
  filled : ∀ target, d.assembler.Resolves target → d.assembler.filled target = bytes

/-- A draft begins with no bytes and nothing left open. -/
theorem holds_empty : Holds {} [] :=
  ⟨rfl, nofun, nofun, nofun, nofun, fun _ _ => rfl⟩

section
variable {d : Draft} {bytes : List UInt8}

/-- Naming an offset binds a label to it and changes nothing else. -/
theorem Holds.target (h : d.Holds bytes) (line : Nat) (offset : UInt16) :
    (d.target line (.literal offset)).2.Holds bytes ∧
      (d.target line (.literal offset)).2.assembler.BoundAt
        (d.target line (.literal offset)).1 offset.toNat := by
  have htarget : d.target line (.literal offset) =
      { d with references := (Numeral.natText offset.toNat, line) :: d.references }.offsetLabel
        offset := rfl
  rw [htarget]
  unfold offsetLabel
  dsimp only
  cases hlookup : d.names.lookup ("@" ++ Numeral.natText offset.toNat) with
  | some label =>
    exact ⟨⟨h.error, h.sound, h.names, h.literals, h.targets, h.filled⟩,
      h.literals offset label hlookup⟩
  | none =>
    have hmono : ∀ {label n}, d.assembler.BoundAt label n →
        (d.assembler.newLabelAt offset.toNat).2.BoundAt label n :=
      fun hbound => boundAt_newLabelAt_iff.2 (.inl hbound)
    have hnew : (d.assembler.newLabelAt offset.toNat).2.BoundAt
        (d.assembler.newLabelAt offset.toNat).1 offset.toNat :=
      boundAt_newLabelAt_iff.2 (.inr ⟨rfl, rfl⟩)
    refine ⟨⟨h.error, h.sound, fun name label hname => ?_, fun n label hname => ?_,
      fun label hlabel => ?_, fun target htarget => ?_⟩, hnew⟩
    · rw [List.lookup_cons] at hname
      split at hname
      · cases hname
        exact ⟨_, hnew⟩
      · obtain ⟨n, hbound⟩ := h.names name label hname
        exact ⟨n, hmono hbound⟩
    · rw [List.lookup_cons] at hname
      split at hname
      · rename_i heq
        have hn : n = offset :=
          UInt16.toNat_inj.1 (Numeral.natText_inj.1 (String.append_right_inj _ |>.1 (eq_of_beq heq)))
        cases hname
        exact hn ▸ hnew
      · exact hmono (h.literals n label hname)
    · obtain ⟨n, hbound⟩ := h.targets label hlabel
      exact ⟨n, hmono hbound⟩
    · exact h.filled target fun label n hbound => htarget label n (hmono hbound)

/-- A call that adds an aligned instruction adds its bytes. -/
theorem Holds.call (h : d.Holds bytes) {c : Call} {i : Instruction} (haccepted : c.Accepted)
    (hlabels : ¬ c.Labels)
    (hbound : ∀ label, c.label? = some label → ∃ n : UInt16, d.assembler.BoundAt label n.toNat)
    (hi : ∀ target, d.assembler.Resolves target → c.emission? target = some (.instruction i))
    (haligned : i.Aligned bytes.length) : (d.call c).Holds (bytes ++ i.encode) := by
  have hlabels' : (d.assembler.call c).labels = d.assembler.labels :=
    labels_call _ (fun hc => hlabels (hc ▸ trivial)) fun l hc => hlabels (hc ▸ trivial)
  have hboundAt : ∀ label n, (d.assembler.call c).BoundAt label n ↔ d.assembler.BoundAt label n :=
    fun label n => by rw [BoundAt, hlabels', BoundAt]
  obtain ⟨hsound, hadds⟩ := adds_call d.assembler haccepted h.sound
  refine ⟨error_call_of_accepted h.error haccepted hlabels, hsound, fun name label hname => ?_,
    fun n label hname => (hboundAt label n.toNat).2 (h.literals n label hname),
    fun label hlabel => ?_, fun target htarget => ?_⟩
  · obtain ⟨n, hbound⟩ := h.names name label hname
    exact ⟨n, (hboundAt label n).2 hbound⟩
  · have hlabel : label ∈ (d.assembler.call c).fixups.toList.map Prod.snd := hlabel
    rw [map_fixups_call, List.mem_append, Option.mem_toList] at hlabel
    obtain ⟨n, hbound⟩ := hlabel.elim (h.targets label) (hbound label)
    exact ⟨n, (hboundAt label n.toNat).2 hbound⟩
  · have htarget : d.assembler.Resolves target :=
      fun label n hbound => htarget label n ((hboundAt label n.toNat).2 hbound)
    have hposition : d.assembler.position = bytes.length := by
      rw [← h.filled target htarget, length_filled]
    have hpadding : i.padding bytes.length = 0 := Instruction.aligned_iff_padding.1 haligned
    have hbytes : c.bytes target bytes.length = i.encode := by
      simp only [Call.bytes, hi target htarget, Emission.bytes, Emission.padding, hpadding]
      rfl
    have hcall := hadds target
    dsimp only at hcall
    rw [h.filled target htarget, hposition, hbytes] at hcall
    exact hcall

/-- A branch to a literal offset, by the call for its label, adds its bytes. -/
theorem Holds.branch (h : d.Holds bytes) (line : Nat) {target : UInt16} {c : Label → Call}
    {i : Instruction} (haccepted : ∀ label, (c label).Accepted)
    (hlabels : ∀ label, ¬ (c label).Labels) (hlabel : ∀ label, (c label).label? = some label)
    (hi : ∀ label offsets, offsets label = target →
      (c label).emission? offsets = some (.instruction i))
    (haligned : i.Aligned bytes.length) :
    ((d.target line (.literal target)).2.call
      (c (d.target line (.literal target)).1)).Holds (bytes ++ i.encode) := by
  obtain ⟨htarget, hbound⟩ := h.target line target
  refine htarget.call (haccepted _) (hlabels _) (fun label hc => ?_)
    (fun offsets hoffsets => hi _ offsets (hoffsets _ target hbound)) haligned
  rw [hlabel] at hc
  exact ⟨target, Option.some.inj hc ▸ hbound⟩

/-- A call without a label adds the bytes of its instruction. -/
theorem Holds.emit (h : d.Holds bytes) {c : Call} {i : Instruction} (haccepted : c.Accepted)
    (hlabels : ¬ c.Labels) (hlabel : c.label? = none)
    (hi : ∀ offsets, c.emission? offsets = some (.instruction i))
    (haligned : i.Aligned bytes.length) : (d.call c).Holds (bytes ++ i.encode) := by
  refine h.call haccepted hlabels (fun label hc => ?_) (fun offsets _ => hi offsets) haligned
  rw [hlabel] at hc
  cases hc

/-- The statement that asks for an aligned instruction adds its bytes. -/
theorem Holds.add (h : d.Holds bytes) (line : Nat) {i : Instruction} (hfits : i.Fits)
    (haligned : i.Aligned bytes.length) :
    (d.add line i.statement).Holds (bytes ++ i.encode) := by
  cases i with
  | plain => exact h.emit rfl id rfl (fun _ => rfl) haligned
  | branch target =>
    refine h.branch line (c := .branch) (fun _ => trivial) (fun _ => id) (fun _ => rfl) ?_ haligned
    rintro label offsets rfl
    rfl
  | conditionalBranch target =>
    refine h.branch line (c := .conditionalBranch) (fun _ => trivial) (fun _ => id)
      (fun _ => rfl) ?_ haligned
    rintro label offsets rfl
    rfl
  | loadSwizzle | storeSwizzle | swizzle => exact h.emit hfits id rfl (fun _ => rfl) haligned
  | vector lanes op =>
    have hlanes := LaneCount.ofByte?_val lanes
    have hsome : (LaneCount.ofByte? lanes.val).isSome := by rw [hlanes]; rfl
    cases op with
    | binary | unary | load | store =>
      refine h.emit ⟨hsome, rfl⟩ id rfl (fun _ => ?_) haligned
      rw [Call.emission?, hlanes]
      rfl
    | loadGlobal =>
      refine h.emit hsome id rfl (fun _ => ?_) haligned
      rw [Call.emission?, hlanes]
      rfl
    | branch target =>
      refine h.branch line (c := .vectorBranch lanes.val .branch)
        (fun _ => ⟨hsome, .inl rfl⟩) (fun _ => id) (fun _ => rfl) ?_ haligned
      rintro label offsets rfl
      rw [Call.emission?, hlanes]
      rfl
    | conditionalBranch target =>
      refine h.branch line (c := .vectorBranch lanes.val .conditionalBranch)
        (fun _ => ⟨hsome, .inr rfl⟩) (fun _ => id) (fun _ => rfl) ?_ haligned
      rintro label offsets rfl
      rw [Call.emission?, hlanes]
      rfl
  | _ => exact h.emit trivial id rfl (fun _ => rfl) haligned

/-- The line of an instruction adds the statement that asks for it. -/
theorem addLine_text (d : Draft) (line : Nat) {i : Instruction} (hfits : i.Fits) :
    d.addLine line (i.textWith Word.signedText).toList = .ok (d.add line i.statement) := by
  have htokens : (i.tokens.map String.toList).map String.ofList = i.tokens := by
    rw [List.map_map]
    exact (List.map_congr_left fun t _ => String.ofList_toList).trans (List.map_id _)
  have hline := SourceLine.read_of_spells i.spells_text
  rw [htokens] at hline
  simp only [addLine, hline, List.foldl_nil, Instruction.read_tokens hfits]

/-- Where an instruction has been read, its statement adds its bytes: those of the body up to the
next instruction. -/
theorem Holds.add_read {code : Code} {ip ip' : Nat} {i : Instruction}
    (hread : code.readInstruction ip = .ok i ip') (h : d.Holds (code.toList.take ip)) (line : Nat) :
    (d.add line i.statement).Holds (code.toList.take ip') := by
  obtain ⟨hfits, haligned, hspan⟩ := Code.readInstruction_eq_ok_iff.1 hread
  have hlen : (code.toList.take ip).length = ip := by
    rw [List.length_take, Array.length_toList]
    exact Nat.min_eq_left (Nat.le_trans hspan.1 hspan.le_size)
  rw [hspan.take_eq]
  exact h.add line hfits (hlen.symm ▸ haligned)

/-- The lines of a body add its bytes one instruction after the other. -/
theorem addLines_tiles {code : Code} {ip : Nat} {lines : List (Nat × Instruction)}
    (htiles : code.Tiles ip lines) (h : d.Holds (code.toList.take ip)) (line : Nat) :
    ∃ d', d.addLines line
        (lines.map (fun (_, i) => (i.textWith Word.signedText).toList) ++ [[]]) = .ok d' ∧
      d'.Holds code.toList := by
  induction htiles generalizing d line with
  | done =>
    -- Behind the last line break there is an empty line, which adds nothing.
    refine ⟨d, rfl, ?_⟩
    rwa [← Array.length_toList, List.take_length] at h
  | @next ip ip' i lines hread _ ih =>
    have hfits := (Code.readInstruction_eq_ok_iff.1 hread).1
    obtain ⟨d', hlines, hd'⟩ := ih (h.add_read hread line) (line + 1)
    refine ⟨d', ?_, hd'⟩
    rw [List.map_cons, List.cons_append, addLines, addLine_text d line hfits]
    exact hlines

/-- No name in a draft that holds bytes is without an offset. -/
theorem Holds.isUndefined_eq (h : d.Holds bytes) (name : String) : d.isUndefined name = false := by
  unfold isUndefined
  split
  · rename_i label hlabel
    obtain ⟨n, hbound⟩ := h.names name label hlabel
    rw [BoundAt] at hbound
    simp [hbound]
  · rfl

/-- A draft that holds a body is finished as that body. -/
theorem Holds.finish {code : Code} (h : d.Holds code.toList) : d.finish = .ok code := by
  have hfinish : d.assembler.finish = .ok code := by
    refine finish_eq_ok_iff.2 ⟨h.error, fun fixup hfixup => ?_,
      (h.filled _ (resolves_offsets d.assembler)).symm⟩
    obtain ⟨n, hbound⟩ := h.targets fixup.2 (List.mem_map_of_mem hfixup)
    exact ⟨n, target_eq_ok_iff.2 hbound⟩
  unfold Draft.finish
  rw [List.find?_eq_none.2 (by simp [h.isUndefined_eq]), hfinish]

end

end Draft

/-! ## The source text of a body -/

/-- Lines that end each in a line break are split into themselves and an empty one. -/
theorem splitOn_lines {texts : List (List Char)} (h : ∀ t ∈ texts, '\n' ∉ t) :
    (texts.flatMap (· ++ ['\n'])).splitOn '\n' = texts ++ [[]] := by
  induction texts with
  | nil => rfl
  | cons t texts ih =>
    rw [List.flatMap_cons, List.append_assoc, List.singleton_append,
      List.splitOn_append_cons_self_of_not_mem (h t (.head _)),
      ih fun t ht => h t (.tail _ ht), List.cons_append]

/-- Texts without line breaks are split again behind their lines. -/
theorem splitOn_join {lines : List (Nat × Instruction)} {text : Nat × Instruction → String}
    (h : ∀ l ∈ lines, '\n' ∉ (text l).toList) :
    (String.join (lines.map fun l => text l ++ "\n")).toList.splitOn '\n' =
      lines.map (fun l => (text l).toList) ++ [[]] := by
  have hjoin : (String.join (lines.map fun l => text l ++ "\n")).toList =
      (lines.map fun l => (text l).toList).flatMap (· ++ ['\n']) := by
    rw [String.toList_join, List.flatMap_map, List.flatMap_map]
    simp
  rw [hjoin, splitOn_lines]
  intro t ht
  obtain ⟨l, hl, rfl⟩ := List.mem_map.1 ht
  exact h l hl

/-- The source text of a body is split into the lines of its instructions and an empty one. -/
theorem splitOn_source {code : Code} {lines : List (Nat × Instruction)} {fault : Option Fault}
    (h : code.instructions = (lines, fault)) :
    code.source.toList.splitOn '\n' =
      lines.map (fun (_, i) => (i.textWith Word.signedText).toList) ++ [[]] := by
  rw [Code.source, h]
  exact splitOn_join fun (_, i) _ => i.spells_text.not_mem (by decide) (by decide) (by decide)

/-- **Encoding undoes decoding.** A body that decodes without fault is assembled from its source
text, byte for byte. -/
theorem assemble_source {code : Code} {text : String} (h : code.listing = .ok text) :
    assemble code.source = .ok code := by
  obtain ⟨lines, hlines⟩ : ∃ lines, code.instructions = (lines, none) := by
    unfold Code.listing at h
    split at h
    · cases h
    · exact ⟨_, ‹_›⟩
  have htiles : code.Tiles 0 lines := (Code.instructionsFrom_eq_iff (Nat.zero_le _)).1 hlines
  obtain ⟨d, hdraft, hd⟩ := Draft.addLines_tiles htiles Draft.holds_empty 1
  unfold assemble
  rw [splitOn_source hlines, hdraft]
  exact hd.finish

/-- A body with `nop`s that align nothing, an operation that is never executed, and branches to an
operand byte and beyond the end. -/
def assortedCode : Code :=
  #[37, 37, 37, 43, 0xF9, 0xFF, 0xFF, 0xFF, 2, 31, 2, 3, 250, 53, 3, 1, 2, 55, 16, 21, 5, 0, 37, 4,
    255, 255]

/-- The source text of the body assembles to it. It has padding of its own, a reserved operation and
a float that is not a number. -/
theorem assemble_assortedSource :
    assortedCode.listing = .ok ("0: nop\n1: nop\n2: nop\n3: pushimmediate -7 (NaN)\n8: andb\n" ++
        "9: loadswizzle 2, 3, 250\n13: swizzle 3, 1, 2\n17: vector 16 conditionalbranch 5\n" ++
        "22: nop\n23: branch 65535\n") ∧
      assortedCode.source = "nop\nnop\nnop\npushimmediate -7\nandb\nloadswizzle 2, 3, 250\n" ++
        "swizzle 3, 1, 2\nvector 16 conditionalbranch 5\nnop\nbranch 65535\n" ∧
      assemble assortedCode.source = .ok assortedCode := by
  have hlisting : assortedCode.listing = .ok ("0: nop\n1: nop\n2: nop\n" ++
      "3: pushimmediate -7 (NaN)\n8: andb\n" ++
      "9: loadswizzle 2, 3, 250\n13: swizzle 3, 1, 2\n17: vector 16 conditionalbranch 5\n" ++
      "22: nop\n23: branch 65535\n") := by decide +kernel
  exact ⟨hlisting, by decide +kernel, assemble_source hlisting⟩

end ShaderMachine
