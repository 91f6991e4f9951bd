import ShaderMachine.Proofs.Assembler.Decoding
import ShaderMachine.Proofs.Assembler.Naming
import ShaderMachine.Proofs.Assembler.Operands
import ShaderMachine.Proofs.Machine.Locality
import ShaderMachine.Proofs.Numeral

/-!
# Where the branches of a source text go

`target_of_assemble` says which offset a branch of an accepted text gets. It is found under the name
of the target (`Target.key`): if the text defines that name, it is the offset at which it does, and
otherwise the name is that of a literal offset (`Target.StandsFor`). A label that is called `@4` has
the name of the offset 4 and takes its place, so a target gets the offset that it is written for
(`Target.Means`) if it is a label that is defined, or a numeral whose name is not a label.

`Draft.Writes` carries the proof over the text: it joins the bytes of the draft, the labels of its
calls and its table of names (`Draft.Names`). Labels keep their names, and the offsets to which they
are bound, while the rest of the text is read; when it has been read they are filled in.
-/

namespace ShaderMachine

open Assembler (Call Emission layoutBytes)
open SourceItem (bodyLength DefinedAt HasLiteral)

/-! ## Statements that branch -/

namespace Statement

/-- The instruction that the statement stands for when its target, if it has one, is at an offset. -/
def instructionAt? (target : UInt16) (s : Statement) : Option Instruction :=
  (s.call ⟨0⟩).instruction? fun _ => target

section
variable {s : Statement} {t : Target} {label : Label}

/-- A branch is added with the offset that the label of its target stands for. -/
theorem emission?_of_target? (ht : s.target? = some t) (haccepted : (s.call label).Accepted)
    (target : Label → UInt16) :
    ∃ i, (s.call label).emission? target = some (.instruction i) ∧ i.Fits ∧
      s.instructionAt? (target label) = some i ∧ i.target? = some (target label) := by
  cases s with
  | branch | conditionalBranch => exact ⟨_, rfl, trivial, rfl, rfl⟩
  | vectorBranch lanes | vectorConditionalBranch lanes =>
    obtain ⟨lanes', hlanes⟩ := Option.isSome_iff_exists.1 haccepted.1
    simp only [instructionAt?, Call.instruction?, call, Call.emission?, hlanes, Option.map_some]
    exact ⟨_, rfl, trivial, rfl, rfl⟩
  | _ => cases ht

/-- A statement with a target makes a call that branches to the label of the target. -/
theorem label?_of_target? (ht : s.target? = some t) : (s.call label).label? = some label := by
  cases s with
  | branch | conditionalBranch | vectorBranch | vectorConditionalBranch => rfl
  | _ => cases ht

/-- The length of what a statement adds does not depend on what it branches to. -/
theorem length_bytes_call (s : Statement) (label : Label) (target : Label → UInt16)
    (position : Nat) : ((s.call label).bytes target position).length =
      ((s.call ⟨0⟩).bytes (fun _ => 0) position).length := by
  cases s with
  | branch | conditionalBranch =>
    simp only [call, Call.bytes, Call.emission?, Emission.bytes, List.length_append]
    rfl
  | vectorBranch lanes | vectorConditionalBranch lanes =>
    simp only [call, Call.bytes, Call.emission?]
    cases LaneCount.ofByte? lanes with
    | none => rfl
    | some lanes =>
      simp only [Option.map_some, Emission.bytes, List.length_append]
      rfl
  | _ => rfl

end

end Statement

/-- The length of what statements add does not depend on what they branch to. -/
theorem length_layoutBytes {read : List Statement} {calls : List Call}
    (hmakes : List.Forall₂ Statement.Makes read calls) (target : Label → UInt16) (position : Nat) :
    (layoutBytes target position calls).length =
      (layoutBytes (fun _ => 0) position (read.map (Statement.call ⟨0⟩))).length := by
  induction hmakes generalizing position with
  | nil => rfl
  | @cons s c read calls hstatement _ ih =>
    obtain ⟨label, rfl⟩ := hstatement
    rw [List.map_cons, layoutBytes, layoutBytes, List.length_append, List.length_append, ih,
      s.length_bytes_call]

/-- The body has the instruction that the statement stands for with its target at an offset, behind
the padding that it needs at a position. -/
def Code.HasBranch (code : Code) (position : Nat) (s : Statement) (target : UInt16) : Prop :=
  ∃ i next, s.instructionAt? target = some i ∧ i.target? = some target ∧
    code.readInstruction (position + i.padding position) = .ok i next

/-- An instruction is read where its call has added it. -/
theorem Assembler.readInstruction_of_layout {code : Code} {target : Label → UInt16}
    {before after : List Call} {c : Call} {i : Instruction}
    (hcode : code.toList = layoutBytes target 0 (before ++ c :: after))
    (hi : c.emission? target = some (.instruction i)) (hfits : i.Fits) :
    ∃ next, code.readInstruction ((layoutBytes target 0 before).length +
      i.padding (layoutBytes target 0 before).length) = .ok i next := by
  have hspan := code.spans_toList
  rw [hcode, layoutBytes_append, Nat.zero_add] at hspan
  have hspan := (Code.spans_append_iff.1 hspan).2
  rw [layoutBytes, Nat.zero_add] at hspan
  have hcall := (Code.spans_append_iff.1 hspan).1
  simp only [Call.bytes, hi] at hcall
  have hinstruction := (Code.spans_append_iff.1 hcall).2
  rw [List.length_replicate] at hinstruction
  exact ⟨_, Code.readInstruction_eq_ok_iff.2 ⟨hfits, i.aligned_padding _, hinstruction⟩⟩

/-! ## Drafts and the branches in them -/

namespace Draft

/-- The call adds the statement, with the label that the draft knows for its target. -/
def Refers (d : Draft) (s : Statement) (c : Call) : Prop :=
  ∃ label, c = s.call label ∧ ∀ t, s.target? = some t → d.names.lookup t.key = some label

/-- The draft holds the bytes of calls for the statements among the items, and knows the names of
their targets. -/
structure Writes (d : Draft) (items : List SourceItem) (calls : List Call) : Prop where
  made : d.Made (items.filterMap SourceItem.statement?) calls
  names : d.Names items
  refers : List.Forall₂ d.Refers (items.filterMap SourceItem.statement?) calls
  fixups : d.assembler.fixups.toList.map Prod.snd = calls.filterMap Call.label?

/-- A draft begins with no items and no calls. -/
theorem writes_empty : Writes {} [] [] :=
  ⟨⟨nofun, .nil, nofun, fun _ => rfl⟩, names_empty, .nil, rfl⟩

section
variable {d d' : Draft} {items : List SourceItem} {calls : List Call} {name : String}
  {s : Statement} {c : Call} {label : Label}

/-- What a draft has written is as long as the items before, whatever their targets are. -/
theorem Writes.position (h : d.Writes items calls) : d.assembler.position = bodyLength items := by
  rw [← Assembler.length_filled _ fun _ => 0, h.made.filled, length_layoutBytes h.made.makes]
  rfl

/-- Names that the first draft knows have the same labels in the second one. -/
def KeepsNames (d d' : Draft) : Prop :=
  ∀ name label, d.names.lookup name = some label → d'.names.lookup name = some label

/-- A call goes on to refer to its target while names keep their labels. -/
theorem Refers.mono (h : d.Refers s c) (hkeeps : d.KeepsNames d') : d'.Refers s c := by
  obtain ⟨label, hc, hlookup⟩ := h
  exact ⟨label, hc, fun t ht => hkeeps _ _ (hlookup t ht)⟩

/-- A call that refers to the target of a statement is a call for the statement. -/
theorem Refers.makes (h : d.Refers s c) : s.Makes c := by
  obtain ⟨label, hc, -⟩ := h
  exact ⟨label, hc⟩

/-- Defining a name keeps the labels of the others. -/
theorem keepsNames_define (d : Draft) (name : String) : d.KeepsNames (d.define name) :=
  fun _ _ hlookup => (d.learns_label name).lookup hlookup

/-- Looking up a target keeps the labels of all names. -/
theorem keepsNames_target (d : Draft) (line : Nat) (t : Target) :
    d.KeepsNames (d.target line t).2 :=
  fun _ _ hlookup => (d.learns_target line t).lookup hlookup

/-- A definition adds nothing to the body. -/
theorem Writes.define (h : d.Writes items calls) (herror : (d.define name).assembler.error = none) :
    (d.define name).Writes (items ++ [SourceItem.define name]) calls := by
  have hstatements : (items ++ [SourceItem.define name]).filterMap SourceItem.statement? =
      items.filterMap SourceItem.statement? := by
    rw [List.filterMap_append]
    exact List.append_nil _
  have hsilent := d.silent_define name
  have hnames := h.names.define h.position herror
  refine ⟨?_, hnames, ?_, by rw [hsilent.fixups, h.fixups]⟩
  · rw [hstatements]
    exact h.made.silent hsilent
  · rw [hstatements]
    exact h.refers.imp fun _ _ hrefers => hrefers.mono (d.keepsNames_define name)

/-- A call adds its statement, in a draft that has learned the name of the target. -/
theorem Writes.call (h : d.Writes items calls) (hsilent : d.Silent d') (hkeeps : d.KeepsNames d')
    (hlookup : ∀ t, s.target? = some t → d'.names.lookup t.key = some label)
    (haccepted : (s.call label).Accepted)
    (hnames : (d'.call (s.call label)).Names (items ++ [SourceItem.statement s])) :
    (d'.call (s.call label)).Writes (items ++ [SourceItem.statement s])
      (calls ++ [s.call label]) := by
  have hstatements : (items ++ [SourceItem.statement s]).filterMap SourceItem.statement? =
      items.filterMap SourceItem.statement? ++ [s] := List.filterMap_append
  refine ⟨?_, hnames, ?_, ?_⟩
  · rw [hstatements]
    exact (h.made.silent hsilent).call ⟨label, rfl⟩ haccepted
  · rw [hstatements]
    exact List.rel_append (h.refers.imp fun _ _ hrefers => hrefers.mono hkeeps)
      (.cons ⟨label, rfl, hlookup⟩ .nil)
  · have hfixups : (d'.call (s.call label)).assembler.fixups.toList.map Prod.snd =
        d'.assembler.fixups.toList.map Prod.snd ++ (s.call label).label?.toList :=
      Assembler.map_fixups_call ..
    rw [hfixups, hsilent.fixups, h.fixups, List.filterMap_append]
    cases hlabel : (s.call label).label? with
    | none => simp [hlabel]
    | some => simp [hlabel]

/-- A statement that is added without an error adds its call, with the label of its target. -/
theorem Writes.add (h : d.Writes items calls) (line : Nat)
    (herror : (d.add line s).assembler.error = none) :
    ∃ calls, (d.add line s).Writes (items ++ [SourceItem.statement s]) calls := by
  have hnames := h.names.add line s
  rcases d.add_cases line s with ⟨hnone, hadd⟩ | ⟨t, ht, hadd⟩
  · rw [hadd] at hnames herror ⊢
    have haccepted := (Assembler.error_call herror).2
    refine ⟨_, h.call (.refl d) (fun _ _ => id) (fun t ht => ?_) haccepted hnames⟩
    rw [hnone] at ht
    cases ht
  · rw [hadd] at hnames herror ⊢
    have haccepted := (Assembler.error_call herror).2
    refine ⟨_, h.call (d.silent_target line t) (d.keepsNames_target line t) (fun t' ht' => ?_)
      haccepted hnames⟩
    obtain rfl : t = t' := Option.some.inj (ht.symm.trans ht')
    exact (d.learns_target line t).lookup_self

/-! ## Reading a text -/

/-- The items are what the draft has been made of, unless it has an error. -/
def Reads (items : List SourceItem) (d : Draft) : Prop :=
  d.assembler.error = none → ∃ calls, d.Writes items calls

/-- An error stays. -/
theorem error_of_addItem {line : Nat} {item : SourceItem}
    (h : (addItem line d item).assembler.error = none) : d.assembler.error = none := by
  cases item with
  | define name => exact (d.silent_define name).error h
  | statement s =>
    obtain ⟨d', label, hsilent, hadd⟩ := d.exists_add_eq line s
    rw [addItem, hadd] at h
    exact hsilent.error (Assembler.error_call h).1

/-- One more item of a line is read. -/
theorem Reads.addItem (h : Reads items d) (line : Nat) (item : SourceItem) :
    Reads (items ++ [item]) (Draft.addItem line d item) := by
  intro herror
  obtain ⟨calls, hwrites⟩ := h (error_of_addItem herror)
  cases item with
  | define name => exact ⟨calls, hwrites.define herror⟩
  | statement s => exact hwrites.add line herror

/-- The items of a line are read in order. -/
theorem Reads.addItems (h : Reads items d) (line : Nat) (more : List SourceItem) :
    Reads (items ++ more) (more.foldl (Draft.addItem line) d) := by
  induction more generalizing d items with
  | nil =>
    rw [List.append_nil]
    exact h
  | cons item more ih =>
    rw [List.append_cons]
    exact ih (h.addItem line item)

/-- The lines of a text are read in order, and their items with them. -/
theorem Reads.addLines (h : Reads items d) {line : Nat} {rows : List (List Char)}
    (hlines : d.addLines line rows = .ok d') : Reads (items ++ rows.flatMap lineItems) d' := by
  induction rows generalizing d items line with
  | nil =>
    cases hlines
    rw [List.flatMap_nil, List.append_nil]
    exact h
  | cons cs rows ih =>
    rw [Draft.addLines] at hlines
    cases hline : d.addLine line cs with
    | error e =>
      rw [hline] at hlines
      cases hlines
    | ok d₁ =>
      rw [hline] at hlines
      rw [List.flatMap_cons, ← List.append_assoc]
      exact ih (addLine_eq_foldl hline ▸ h.addItems line _) hlines

end

end Draft

/-! ## What targets stand for -/

/-- The offset is the one that the target stands for in a text: that at which the text defines the
name of the target, or else the literal offset that has this name. -/
inductive Target.StandsFor (items : List SourceItem) (t : Target) (n : UInt16) : Prop
  | defined : DefinedAt items t.key n.toNat → StandsFor items t n
  | literal : t.key ∉ items.filterMap SourceItem.name? → HasLiteral items n →
      t.key = literalName n → StandsFor items t n

/-- The offset is the one that the target is written for: a numeral for itself, and a label for the
offset at which it is defined. -/
def Target.Means (items : List SourceItem) (n : UInt16) : Target → Prop
  | label name => DefinedAt items name n.toNat
  | offset _ m => n = m

/-- Literal offsets have different names, as they have different numerals. -/
theorem literalName_inj {m n : UInt16} (h : literalName m = literalName n) : m = n :=
  UInt16.toNat_inj.1 (Numeral.natText_inj.1 ((String.append_right_inj _).1 h))

/-- A target stands for what it means if it is a label that is defined, or a numeral whose name is
not that of a label. -/
theorem Target.StandsFor.means {items : List SourceItem} {t : Target} {n : UInt16}
    (h : t.StandsFor items n)
    (hkey : t.key ∈ items.filterMap SourceItem.name? ↔ t.offset? = none) : t.Means items n := by
  cases t with
  | label name =>
    cases h with
    | defined h => exact h
    | literal hnew => exact absurd (hkey.2 rfl) hnew
  | offset token m =>
    cases h with
    | defined h => cases hkey.1 (SourceItem.exists_definedAt_iff.1 ⟨_, h⟩)
    | literal _ _ hname => exact (literalName_inj hname).symm

/-- The items of an accepted text are what the finished draft has been made of. -/
theorem exists_writes_of_assemble {source : String} {code : Code} (h : assemble source = .ok code) :
    ∃ d calls, Draft.Writes d (sourceItems source) calls ∧ d.assembler.finish = .ok code := by
  unfold assemble at h
  cases hlines : Draft.addLines {} 1 (source.toList.splitOn '\n') with
  | error e =>
    rw [hlines] at h
    cases h
  | ok d =>
    rw [hlines] at h
    have hfinish := Draft.finish_assembler h
    have hreads : Draft.Reads [] {} := fun _ => ⟨[], Draft.writes_empty⟩
    obtain ⟨calls, hwrites⟩ := hreads.addLines hlines (Assembler.finish_eq_ok_iff.1 hfinish).1
    exact ⟨d, calls, hwrites, hfinish⟩

/-- Splitting a pointwise relation at an element of the left list. -/
theorem exists_of_forall₂_append_cons {α β : Type} {R : α → β → Prop} {before after : List α}
    {a : α} {l : List β} (h : List.Forall₂ R (before ++ a :: after) l) :
    ∃ before' b after', l = before' ++ b :: after' ∧ List.Forall₂ R before before' ∧ R a b := by
  induction before generalizing l with
  | nil =>
    cases h with
    | cons hab => exact ⟨[], _, _, rfl, .nil, hab⟩
  | cons x before ih =>
    cases h with
    | @cons _ y _ _ hxy hrest =>
      obtain ⟨before', b, after', rfl, hbefore, hab⟩ := ih hrest
      exact ⟨y :: before', b, after', rfl, .cons hxy hbefore, hab⟩

/-- A statement of a text is read from tokens. -/
theorem exists_tokens_of_mem {source : String} {s : Statement}
    (h : .statement s ∈ sourceItems source) : ∃ tokens, Statement.read tokens = .ok s := by
  obtain ⟨cs, -, hitem⟩ := List.mem_flatMap.1 h
  have hstatement : lineStatement? cs = some s := by
    simpa [lineItems] using hitem
  unfold lineStatement? at hstatement
  split at hstatement
  · obtain ⟨tokens, -, hread⟩ := Option.bind_eq_some_iff.1 hstatement
    refine ⟨tokens, ?_⟩
    cases hs : Statement.read tokens with
    | error e =>
      rw [hs] at hread
      cases hread
    | ok s' =>
      rw [hs] at hread
      cases hread
      rfl
  · cases hstatement

namespace Draft.Writes

variable {d : Draft} {items before after : List SourceItem} {calls : List Call} {code : Code}
  {s : Statement} {t : Target} {label : Label} {n : UInt16}

/-- The offset of the label of a target is what the target stands for. -/
theorem standsFor (h : d.Writes items calls) (hlookup : d.names.lookup t.key = some label)
    (hbound : d.assembler.BoundAt label n.toNat) : t.StandsFor items n := by
  rcases h.names.bound t.key label _ hlookup hbound with hdefined | ⟨offset, hliteral, hname, hn⟩
  · exact .defined hdefined
  · obtain rfl : n = offset := UInt16.toNat_inj.1 hn
    by_cases hkey : t.key ∈ items.filterMap SourceItem.name?
    · obtain ⟨offset', hdefined⟩ := SourceItem.exists_definedAt_iff.2 hkey
      obtain ⟨label', hlookup', hbound'⟩ := h.names.defined t.key offset' hdefined
      obtain rfl : label = label' := Option.some.inj (hlookup.symm.trans hlookup')
      obtain rfl : n.toNat = offset' :=
        Option.some.inj (Option.some.inj (hbound.symm.trans hbound'))
      exact .defined hdefined
    · exact .literal hkey hliteral hname

/-- A branch is found in the finished body, with the offset that its target stands for. -/
theorem exists_hasBranch (h : d.Writes (before ++ SourceItem.statement s :: after) calls)
    (hfinish : d.assembler.finish = .ok code) (ht : s.target? = some t) :
    ∃ n, code.HasBranch (bodyLength before) s n ∧
      t.StandsFor (before ++ .statement s :: after) n := by
  obtain ⟨-, htargets, hcode⟩ := Assembler.finish_eq_ok_iff.1 hfinish
  have hstatements : (before ++ SourceItem.statement s :: after).filterMap SourceItem.statement? =
      before.filterMap SourceItem.statement? ++ s :: after.filterMap SourceItem.statement? :=
    List.filterMap_append
  have hrefers := h.refers
  rw [hstatements] at hrefers
  obtain ⟨calls₁, c, calls₂, rfl, hbefore, label, rfl, hlookup⟩ :=
    exists_of_forall₂_append_cons hrefers
  have hmem : s.call label ∈ calls₁ ++ s.call label :: calls₂ :=
    List.mem_append_right _ (.head _)
  have hlabel : label ∈ d.assembler.fixups.toList.map Prod.snd := by
    rw [h.fixups]
    exact List.mem_filterMap.2 ⟨_, hmem, Statement.label?_of_target? ht⟩
  obtain ⟨fixup, hfixup, rfl⟩ := List.mem_map.1 hlabel
  obtain ⟨n, htarget⟩ := htargets fixup hfixup
  obtain ⟨i, hi, hfits, hat, htarget?⟩ := Statement.emission?_of_target? ht
    (h.made.accepted _ hmem) d.assembler.offsets
  rw [Assembler.offsets_of_target htarget] at hat htarget?
  obtain ⟨next, hread⟩ := Assembler.readInstruction_of_layout (hcode.trans (h.made.filled _))
    hi hfits
  rw [length_layoutBytes (hbefore.imp fun _ _ hrefers => hrefers.makes)] at hread
  exact ⟨n, ⟨i, next, hat, htarget?, hread⟩,
    h.standsFor (hlookup t ht) (Assembler.target_eq_ok_iff.1 htarget)⟩

end Draft.Writes

/-- **Where branches go.** No label of an accepted text is defined twice. Every branch is found where
the text has it, behind the padding that aligns its target, with the offset that the target of its
last token stands for. That is the offset which the target is written for, if it is a label that is
defined, or a numeral whose name is not a label. -/
theorem target_of_assemble {source : String} {code : Code} (h : assemble source = .ok code) :
    ((sourceItems source).filterMap SourceItem.name?).Nodup ∧
    ∀ before s after t, sourceItems source = before ++ .statement s :: after → s.target? = some t →
      (∃ tokens, Statement.read tokens = .ok s ∧ tokens.getLast? = some t.token ∧
        Statement.readTarget t.token = .ok t) ∧
      ∃ n, code.HasBranch (bodyLength before) s n ∧ t.StandsFor (sourceItems source) n ∧
        ((t.key ∈ (sourceItems source).filterMap SourceItem.name? ↔ t.offset? = none) →
          t.Means (sourceItems source) n) := by
  obtain ⟨d, calls, hwrites, hfinish⟩ := exists_writes_of_assemble h
  refine ⟨hwrites.names.unique, fun before s after t hitems ht => ⟨?_, ?_⟩⟩
  · have hmem : .statement s ∈ sourceItems source := by
      rw [hitems]
      exact List.mem_append_right _ (.head _)
    obtain ⟨tokens, htokens⟩ := exists_tokens_of_mem hmem
    exact ⟨tokens, htokens, Statement.ensures_read tokens s htokens t ht⟩
  · rw [hitems] at hwrites ⊢
    obtain ⟨n, hbranch, hstands⟩ := hwrites.exists_hasBranch hfinish ht
    exact ⟨n, hbranch, hstands, hstands.means⟩

/-- A source text with a branch to a label behind it. Another label has the name of the offset 4, but
no branch is to that. -/
def forwardSource : String := "@4: branch done\nbranch 6\ndone: nop\n"

def forwardCode : Code := #[37, 4, 8, 0, 37, 4, 6, 0, 37]

/-- What stands in the text behind the first branch. -/
def forwardRest : List SourceItem :=
  [.statement (.branch (.offset "6" 6)), .define "done", .statement (.plain .nop)]

/-- The first branch of the text goes to where its label is defined, past a label that has the name
of a literal offset. -/
theorem target_of_forwardSource :
    assemble forwardSource = .ok forwardCode ∧
      sourceItems forwardSource =
        [SourceItem.define "@4"] ++ .statement (.branch (.label "done")) :: forwardRest ∧
      ∃ n, forwardCode.HasBranch 0 (.branch (.label "done")) n ∧
        (Target.label "done").Means (sourceItems forwardSource) n := by
  have hassemble : assemble forwardSource = .ok forwardCode := by decide +kernel
  have hitems : sourceItems forwardSource =
      [SourceItem.define "@4"] ++ .statement (.branch (.label "done")) :: forwardRest := by
    decide +kernel
  obtain ⟨-, n, hbranch, -, hmeans⟩ := (target_of_assemble hassemble).2 _ _ _ _ hitems rfl
  exact ⟨hassemble, hitems, n, hbranch, hmeans (by decide +kernel)⟩

/-- A label that has the name of a literal offset takes the place of that offset. -/
theorem not_forall_target_of_assemble :
    ¬ ∀ source code, assemble source = .ok code →
      ∀ before s after t, sourceItems source = before ++ .statement s :: after →
        s.target? = some t →
        ∃ n, code.HasBranch (bodyLength before) s n ∧ t.Means (sourceItems source) n := by
  intro h
  have hitems : sourceItems "@4: nop\nbranch 4\n" =
      [SourceItem.define "@4", .statement (.plain .nop)] ++
        .statement (.branch (.offset "4" 4)) :: [] := by
    decide +kernel
  have hposition : bodyLength [.define "@4", .statement (.plain .nop)] = 1 := rfl
  obtain ⟨n, ⟨i, next, hi, -, hread⟩, hmeans⟩ :=
    h "@4: nop\nbranch 4\n" #[37, 4, 0, 0] (by decide +kernel) _ _ _ _ hitems rfl
  obtain rfl : n = 4 := hmeans
  obtain rfl : Instruction.branch 4 = i := Option.some.inj hi
  have hread' : Code.readInstruction #[37, 4, 0, 0] 1 = .ok (.branch 0) 4 := rfl
  rw [hposition] at hread
  cases hread'.symm.trans hread

end ShaderMachine
