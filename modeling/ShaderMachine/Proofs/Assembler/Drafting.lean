import ShaderMachine.Assembler.Source
import ShaderMachine.Proofs.Assembler.Layout

/-!
# What source text adds to a body

The lines of a source text make calls to a builder, one for each statement. Names need no calls: a
draft that only learns names keeps its bytes (`Draft.Silent`), so what a draft holds is described by
the statements read so far (`Draft.Describes`). `exists_calls_of_assemble` is the result for a whole
text: the assembled body has the bytes of accepted calls, in the order of the statements.
-/

namespace ShaderMachine

open Assembler (Call layoutBytes)

/-! ## Statements of a text -/

namespace Statement

/-- The target of a statement that branches. -/
def target? : Statement → Option Target
  | branch t | conditionalBranch t | vectorBranch _ t | vectorConditionalBranch _ t => some t
  | _ => none

/-- The call that adds the statement when its target has the given label. -/
def call (label : Label) : Statement → Call
  | plain op => .op (.plain op)
  | branch _ => .branch label
  | conditionalBranch _ => .conditionalBranch label
  | dupDown count => .dupDown count
  | loadGlobal index => .loadGlobal index
  | pop count => .pop count
  | ret count => .ret count
  | pushImmediate value => .pushImmediate value
  | loadSwizzle offsets => .loadSwizzle offsets
  | storeSwizzle offsets => .storeSwizzle offsets
  | swizzle sources indices => .swizzle sources indices
  | vector lanes op => .vector lanes (.plain op)
  | vectorLoadGlobal lanes index => .vectorLoadGlobal lanes index
  | vectorBranch lanes _ => .vectorBranch lanes .branch label
  | vectorConditionalBranch lanes _ => .vectorBranch lanes .conditionalBranch label

/-- The call adds the statement, whatever label it has for the target. -/
def Makes (statement : Statement) (c : Call) : Prop := ∃ label, c = statement.call label

end Statement

/-- The statement on a line, if there is one and it can be read. -/
def lineStatement? (cs : List Char) : Option Statement :=
  match SourceLine.read cs with
  | .ok content => content.statement.bind fun tokens => (Statement.read tokens).toOption
  | .error _ => none

/-- The labels that a line defines. -/
def lineLabels (cs : List Char) : List String :=
  match SourceLine.read cs with
  | .ok content => content.labels
  | .error _ => []

/-- The statements of a source text in the order of their lines. -/
def statements (source : String) : List Statement :=
  (source.toList.splitOn '\n').filterMap lineStatement?

namespace Draft

section
variable {d d' d'' : Draft} {read : List Statement} {calls : List Call}

/-! ## Names -/

/-- From `d` to `d'` the draft has learned names only. An error that it has is kept. -/
structure Silent (d d' : Draft) : Prop where
  code : d'.assembler.code = d.assembler.code
  fixups : d'.assembler.fixups = d.assembler.fixups
  error : d'.assembler.error = none → d.assembler.error = none

/-- A draft that has learned nothing has kept its bytes. -/
theorem Silent.refl (d : Draft) : d.Silent d := ⟨rfl, rfl, id⟩

/-- Learning names in two steps is learning names. -/
theorem Silent.trans (h : d.Silent d') (h' : d'.Silent d'') : d.Silent d'' :=
  ⟨h'.code.trans h.code, h'.fixups.trans h.fixups, fun herror => h.error (h'.error herror)⟩

/-- Looking up a label adds no bytes, even where a new label is made for the name. -/
theorem silent_label (d : Draft) (name : String) : d.Silent (d.label name).2 := by
  unfold label
  split <;> exact ⟨rfl, rfl, id⟩

/-- Looking up the label of an offset adds no bytes, even where it is made and bound there. -/
theorem silent_offsetLabel (d : Draft) (offset : UInt16) : d.Silent (d.offsetLabel offset).2 := by
  unfold offsetLabel
  dsimp only
  split <;> exact ⟨rfl, rfl, id⟩

/-- Noting a reference to a target and looking it up adds no bytes. -/
theorem silent_target (d : Draft) (line : Nat) (t : Target) : d.Silent (d.target line t).2 := by
  have hreferences : d.Silent { d with references := (t.token, line) :: d.references } :=
    ⟨rfl, rfl, id⟩
  cases t with
  | label name => exact hreferences.trans (silent_label _ name)
  | offset token offset => exact hreferences.trans (silent_offsetLabel _ offset)

/-- Defining a name binds a label. It adds no bytes, and can only add an error. -/
theorem silent_define (d : Draft) (name : String) : d.Silent (d.define name) := by
  refine (silent_label d name).trans ?_
  unfold define Assembler.bind
  dsimp only
  split
  · exact ⟨rfl, rfl, id⟩
  · exact ⟨rfl, rfl, fun h => absurd h (Assembler.error_fail_ne_none _ _)⟩
  · exact ⟨rfl, rfl, fun h => absurd h (Assembler.error_fail_ne_none _ _)⟩

/-- Defining all the names of a line adds no bytes. -/
theorem silent_defines (d : Draft) (names : List String) : d.Silent (names.foldl define d) := by
  induction names generalizing d with
  | nil => exact .refl d
  | cons name names ih => exact (silent_define d name).trans (ih _)

/-! ## Statements -/

/-- A statement is added by its call, once the label of its target has been looked up. -/
theorem add_cases (d : Draft) (line : Nat) (s : Statement) :
    (s.target? = none ∧ d.add line s = d.call (s.call ⟨0⟩)) ∨
      ∃ t, s.target? = some t ∧
        d.add line s = (d.target line t).2.call (s.call (d.target line t).1) := by
  cases s with
  | branch t | conditionalBranch t | vectorBranch _ t | vectorConditionalBranch _ t =>
    exact .inr ⟨t, rfl, rfl⟩
  | _ => exact .inl ⟨rfl, rfl⟩

/-- Before a statement is added by its call, the draft learns names only. -/
theorem exists_add_eq (d : Draft) (line : Nat) (statement : Statement) :
    ∃ d' label, d.Silent d' ∧ d.add line statement = d'.call (statement.call label) := by
  rcases d.add_cases line statement with ⟨-, hadd⟩ | ⟨t, -, hadd⟩
  · exact ⟨d, ⟨0⟩, .refl d, hadd⟩
  · exact ⟨_, _, d.silent_target line t, hadd⟩

/-- A line adds its statement, if it has one, behind its labels. -/
theorem addLine_eq {line : Nat} {cs : List Char} (h : d.addLine line cs = .ok d') :
    d' = (lineStatement? cs).toList.foldl (fun d s => d.add line s)
      ((lineLabels cs).foldl define d) := by
  unfold addLine at h
  unfold lineLabels lineStatement?
  cases hread : SourceLine.read cs with
  | error name =>
    rw [hread] at h
    cases h
  | ok content =>
    simp only [hread] at h ⊢
    cases htokens : content.statement with
    | none =>
      simp only [htokens, Except.ok.injEq] at h
      exact h.symm
    | some tokens =>
      simp only [htokens] at h
      cases hstatement : Statement.read tokens with
      | error e =>
        rw [hstatement] at h
        cases h
      | ok statement =>
        simp only [hstatement, Except.ok.injEq] at h
        rw [Option.bind_some, hstatement]
        exact h.symm

/-- What a line does to a draft: without a statement it only defines names. -/
theorem addLine_cases {line : Nat} {cs : List Char} (h : d.addLine line cs = .ok d') :
    (lineStatement? cs = none ∧ d.Silent d') ∨
      ∃ statement d₁, lineStatement? cs = some statement ∧ d.Silent d₁ ∧
        d' = d₁.add line statement := by
  have hd' := addLine_eq h
  have hsilent := d.silent_defines (lineLabels cs)
  cases hstatement : lineStatement? cs with
  | none =>
    rw [hstatement] at hd'
    exact .inl ⟨rfl, hd' ▸ hsilent⟩
  | some statement =>
    rw [hstatement] at hd'
    exact .inr ⟨statement, _, rfl, hsilent, hd'⟩

/-- The draft holds the bytes of accepted calls, one for each statement. -/
structure Made (d : Draft) (read : List Statement) (calls : List Call) : Prop where
  sound : d.assembler.Sound
  makes : List.Forall₂ Statement.Makes read calls
  accepted : ∀ c ∈ calls, c.Accepted
  filled : ∀ target, d.assembler.filled target = layoutBytes target 0 calls

/-- Learning names leaves what the draft holds as it was. -/
theorem Made.silent (h : d.Made read calls) (hsilent : d.Silent d') : d'.Made read calls := by
  obtain ⟨hsound, hfilled⟩ := Assembler.Adds.of_eq hsilent.code hsilent.fixups h.sound
  exact ⟨hsound, h.makes, h.accepted, fun target =>
    (hfilled target).trans ((List.append_nil _).trans (h.filled target))⟩

/-- An accepted call that makes a statement extends both lists, and its bytes stand behind the ones
before. -/
theorem Made.call (h : d.Made read calls) {statement : Statement} {c : Call}
    (hmakes : statement.Makes c) (haccepted : c.Accepted) :
    (d.call c).Made (read ++ [statement]) (calls ++ [c]) := by
  obtain ⟨hsound, hfilled⟩ := Assembler.adds_call d.assembler haccepted h.sound
  refine ⟨hsound, List.rel_append h.makes (.cons hmakes .nil), fun c' hc' => ?_, fun target => ?_⟩
  · rcases List.mem_append.1 hc' with hc' | hc'
    · exact h.accepted c' hc'
    · exact List.mem_singleton.1 hc' ▸ haccepted
  · have hposition : d.assembler.position = (layoutBytes target 0 calls).length := by
      rw [← h.filled target, Assembler.length_filled]
    have hcall : layoutBytes target d.assembler.position [c] =
        c.bytes target d.assembler.position := List.append_nil _
    have hadds := hfilled target
    dsimp only at hadds
    rw [Assembler.layoutBytes_append, Nat.zero_add, ← hposition, hcall, ← h.filled target]
    exact hadds

/-- The statements describe the draft, unless it has an error. -/
def Describes (read : List Statement) (d : Draft) : Prop :=
  d.assembler.error = none → ∃ calls, d.Made read calls

/-- A draft begins with no statement and no bytes. -/
theorem describes_empty : Describes [] {} := fun _ => ⟨[], nofun, .nil, nofun, fun _ => rfl⟩

/-- A line adds its statement to the description. -/
theorem Describes.addLine (hd : Describes read d) {line : Nat} {cs : List Char}
    (h : d.addLine line cs = .ok d') : Describes (read ++ (lineStatement? cs).toList) d' := by
  intro herror
  rcases addLine_cases h with ⟨hnone, hsilent⟩ | ⟨statement, d₁, hsome, hsilent, rfl⟩
  · obtain ⟨calls, hmade⟩ := hd (hsilent.error herror)
    rw [hnone, Option.toList_none, List.append_nil]
    exact ⟨calls, hmade.silent hsilent⟩
  · obtain ⟨d₂, label, hsilent', hadd⟩ := exists_add_eq d₁ line statement
    have hsilent := hsilent.trans hsilent'
    rw [hadd] at herror ⊢
    obtain ⟨hbefore, haccepted⟩ := Assembler.error_call herror
    obtain ⟨calls, hmade⟩ := hd (hsilent.error hbefore)
    rw [hsome, Option.toList_some]
    exact ⟨_, (hmade.silent hsilent).call ⟨label, rfl⟩ haccepted⟩

/-- Lines add their statements to the description, the first line first. -/
theorem Describes.addLines (hd : Describes read d) {line : Nat} {rows : List (List Char)}
    (h : d.addLines line rows = .ok d') :
    Describes (read ++ rows.filterMap lineStatement?) d' := by
  induction rows generalizing d read line with
  | nil =>
    cases h
    rw [List.filterMap_nil, List.append_nil]
    exact hd
  | cons cs rows ih =>
    rw [Draft.addLines] at h
    cases hline : d.addLine line cs with
    | error e =>
      rw [hline] at h
      cases h
    | ok d₁ =>
      rw [hline] at h
      have hrows : (cs :: rows).filterMap lineStatement? =
          (lineStatement? cs).toList ++ rows.filterMap lineStatement? := by
        cases hcs : lineStatement? cs <;> simp [hcs]
      rw [hrows, ← List.append_assoc]
      exact ih (hd.addLine hline) h

/-- Finishing a draft finishes its assembler. -/
theorem finish_assembler {code : Code} (h : d.finish = .ok code) :
    d.assembler.finish = .ok code := by
  unfold finish at h
  split at h
  · cases h
  · split at h
    · cases h
      assumption
    · cases h

end

end Draft

/-- **A source text is its calls.** An assembled body has the bytes of calls that its statements
make, one after the other, when labels stand for some offsets. -/
theorem exists_calls_of_assemble {source : String} {code : Code} (h : assemble source = .ok code) :
    ∃ calls target, List.Forall₂ Statement.Makes (statements source) calls ∧
      (∀ c ∈ calls, c.Accepted) ∧ code.toList = layoutBytes target 0 calls := by
  unfold assemble at h
  cases hlines : Draft.addLines {} 1 (source.toList.splitOn '\n') with
  | error e =>
    rw [hlines] at h
    cases h
  | ok d =>
    rw [hlines] at h
    obtain ⟨herror, -, hcode⟩ := Assembler.finish_eq_ok_iff.1 (Draft.finish_assembler h)
    obtain ⟨calls, hmade⟩ := Draft.describes_empty.addLines hlines herror
    exact ⟨calls, _, hmade.makes, hmade.accepted, hcode.trans (hmade.filled _)⟩

end ShaderMachine
