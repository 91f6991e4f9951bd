import ShaderMachine.Proofs.Assembler.Drafting

/-!
# The names of a source text

A draft keeps the labels of a text and its literal offsets in one table, under names. `Draft.Names`
says what this table holds while a text is read: no two names have one label, a name that the text
defines has a label that is bound where the text defines it, and a label is bound for no other
reason than that, or because it is that of a literal offset to which the text has a branch.

A text is taken as the list of what stands in it (`sourceItems`), so that a place in it is a way to
split this list, and the body has a length there (`SourceItem.bodyLength`). Definitions and branches
change the table in one way, by looking up a name and creating its label if it is new
(`Draft.Learns`), so there is one lemma about this for all of them (`Draft.Names.learn`).
-/

namespace ShaderMachine

open Assembler (Call layoutBytes)

/-! ## Source text in reading order -/

/-- What stands in a source text: the definition of a label, or a statement. -/
inductive SourceItem where
  | define (name : String)
  | statement (s : Statement)
deriving DecidableEq, Repr

namespace SourceItem

def name? : SourceItem → Option String
  | define name => some name
  | statement _ => none

def statement? : SourceItem → Option Statement
  | define _ => none
  | statement s => some s

/-- The target of a branch. -/
def target? (item : SourceItem) : Option Target := item.statement?.bind Statement.target?

/-- The length of the body that items add up to. What branches go to does not matter for it. -/
def bodyLength (items : List SourceItem) : Nat :=
  (layoutBytes (fun _ => 0) 0 ((items.filterMap statement?).map (Statement.call ⟨0⟩))).length

/-- The items define the name where the body has the given length. -/
def DefinedAt (items : List SourceItem) (name : String) (offset : Nat) : Prop :=
  ∃ before after, items = before ++ .define name :: after ∧ bodyLength before = offset

/-- The items have a branch to the literal offset. -/
def HasLiteral (items : List SourceItem) (offset : UInt16) : Prop :=
  ∃ token, .offset token offset ∈ items.filterMap target?

section
variable {items : List SourceItem} {item : SourceItem} {name : String} {offset : Nat}

/-- One more item defines a name at the end of the body so far, or defines none. -/
theorem definedAt_concat_iff :
    DefinedAt (items ++ [item]) name offset ↔
      DefinedAt items name offset ∨ item = .define name ∧ bodyLength items = offset := by
  constructor
  · rintro ⟨before, after, hitems, hoffset⟩
    rcases List.eq_nil_or_concat' after with rfl | ⟨after, item', rfl⟩
    · obtain ⟨rfl, hitem⟩ := List.append_inj' hitems rfl
      exact .inr ⟨List.singleton_inj.1 hitem, hoffset⟩
    · rw [← List.cons_append, ← List.append_assoc] at hitems
      exact .inl ⟨before, after, (List.append_inj' hitems rfl).1, hoffset⟩
  · rintro (⟨before, after, rfl, hoffset⟩ | ⟨rfl, hoffset⟩)
    · exact ⟨before, after ++ [item], by simp, hoffset⟩
    · exact ⟨items, [], rfl, hoffset⟩

/-- A name is defined somewhere if it is that of a definition. -/
theorem exists_definedAt_iff :
    (∃ offset, DefinedAt items name offset) ↔ name ∈ items.filterMap name? := by
  constructor
  · rintro ⟨offset, before, after, rfl, -⟩
    exact List.mem_filterMap.2 ⟨.define name, List.mem_append_right _ (.head _), rfl⟩
  · intro h
    obtain ⟨item, hitem, hname⟩ := List.mem_filterMap.1 h
    cases item with
    | define =>
      cases hname
      obtain ⟨before, after, rfl⟩ := List.append_of_mem hitem
      exact ⟨_, before, after, rfl, rfl⟩
    | statement => cases hname

/-- Branches to a literal offset remain as the text goes on. -/
theorem HasLiteral.append {offset : UInt16} (h : HasLiteral items offset)
    (more : List SourceItem) : HasLiteral (items ++ more) offset := by
  obtain ⟨token, htoken⟩ := h
  exact ⟨token, by rw [List.filterMap_append]; exact List.mem_append_left _ htoken⟩

end

end SourceItem

open SourceItem (bodyLength DefinedAt HasLiteral)

/-- What stands on a line: labels, and behind them a statement. -/
def lineItems (cs : List Char) : List SourceItem :=
  (lineLabels cs).map .define ++ (lineStatement? cs).toList.map .statement

/-- What stands in a source text, line by line. -/
def sourceItems (source : String) : List SourceItem :=
  (source.toList.splitOn '\n').flatMap lineItems

/-- The name under which a draft keeps a literal offset. -/
def literalName (offset : UInt16) : String := "@" ++ Numeral.natText offset.toNat

namespace Target

/-- The name under which a draft keeps the target. -/
def key : Target → String
  | label name => name
  | offset _ n => literalName n

/-- The offset that the target is written as, if it is not a label. -/
def offset? : Target → Option UInt16
  | label _ => none
  | offset _ n => some n

end Target

/-- Binding a label creates none. -/
theorem Assembler.size_bind (a : Assembler) (label : Label) :
    (a.bind label).labels.size = a.labels.size := by
  unfold bind
  split
  · exact Array.size_setIfInBounds
  · rfl
  · rfl

namespace Draft

/-- Adds an item of a line. -/
def addItem (line : Nat) (d : Draft) : SourceItem → Draft
  | .define name => d.define name
  | .statement s => d.add line s

section
variable {d d' : Draft} {line : Nat} {cs : List Char}

/-- A line adds its items in order. -/
theorem addLine_eq_foldl (h : d.addLine line cs = .ok d') :
    d' = (lineItems cs).foldl (addItem line) d := by
  rw [lineItems, List.foldl_append, List.foldl_map, List.foldl_map]
  exact addLine_eq h

end

/-! ## Learning a name -/

/-- The draft looks up the label of a name, and if the name is new it creates the label, which has
the given offset if there is one. -/
inductive Learns (d : Draft) (name : String) (offset? : Option UInt16) : Label × Draft → Prop
  | known {label} : d.names.lookup name = some label → Learns d name offset? (label, d)
  | new : d.names.lookup name = none →
      Learns d name offset? (⟨d.assembler.labels.size⟩,
        { d with
          assembler := { d.assembler with
            labels := d.assembler.labels.push (offset?.map UInt16.toNat) }
          names := (name, ⟨d.assembler.labels.size⟩) :: d.names })

section
variable {d d' : Draft} {name name' : String} {offset? : Option UInt16} {label label' : Label}

/-- Looking up a label learns its name, with no offset. -/
theorem learns_label (d : Draft) (name : String) : d.Learns name none (d.label name) := by
  unfold Draft.label
  cases h : d.names.lookup name with
  | some label => exact .known h
  | none => exact .new h

/-- Looking up a literal offset learns the name that it is kept under, with this offset. -/
theorem learns_offsetLabel (d : Draft) (offset : UInt16) :
    d.Learns (literalName offset) (some offset) (d.offsetLabel offset) := by
  unfold offsetLabel
  dsimp only
  cases h : d.names.lookup ("@" ++ Numeral.natText offset.toNat) with
  | some label => exact .known h
  | none => exact .new h

/-- Looking up a target learns its name, after the reference has been noted. -/
theorem learns_target (d : Draft) (line : Nat) (t : Target) :
    Learns { d with references := (t.token, line) :: d.references } t.key t.offset?
      (d.target line t) := by
  cases t with
  | label name => exact learns_label _ name
  | offset token n => exact learns_offsetLabel _ n

/-- The name that was learned has the label that was given for it. -/
theorem Learns.lookup_self (h : d.Learns name offset? (label, d')) :
    d'.names.lookup name = some label := by
  cases h with
  | known hlookup => exact hlookup
  | new => exact List.lookup_cons_self

/-- Names that are known keep their labels. -/
theorem Learns.lookup (h : d.Learns name offset? (label, d'))
    (hlookup : d.names.lookup name' = some label') : d'.names.lookup name' = some label' := by
  cases h with
  | known => exact hlookup
  | new hnone =>
    have hne : name' ≠ name := by
      rintro rfl
      rw [hnone] at hlookup
      cases hlookup
    rw [List.lookup_cons, beq_eq_false_iff_ne.2 hne]
    exact hlookup

/-- A new label is bound if it comes with an offset. -/
theorem Learns.boundAt_iff (h : d.Learns name offset? (label, d')) {n : Nat} :
    d'.assembler.BoundAt label' n ↔ d.assembler.BoundAt label' n ∨
      d.names.lookup name = none ∧ label' = label ∧ offset?.map UInt16.toNat = some n := by
  cases h with
  | known hlookup => simp [hlookup]
  | new hnone =>
    simp only [hnone, true_and]
    exact Assembler.boundAt_push_iff rfl

end

/-! ## What the table of names holds -/

/-- The labels of a draft tell where the labels of the text are defined, or which literal offsets it
has branches to. -/
structure Names (d : Draft) (items : List SourceItem) : Prop where
  fresh : ∀ name label, d.names.lookup name = some label →
    label.index < d.assembler.labels.size
  injective : ∀ name name' label, d.names.lookup name = some label →
    d.names.lookup name' = some label → name = name'
  /-- No label is defined twice. -/
  unique : (items.filterMap SourceItem.name?).Nodup
  defined : ∀ name offset, DefinedAt items name offset →
    ∃ label, d.names.lookup name = some label ∧ d.assembler.BoundAt label offset
  bound : ∀ name label n, d.names.lookup name = some label → d.assembler.BoundAt label n →
    DefinedAt items name n ∨
      ∃ offset, HasLiteral items offset ∧ name = literalName offset ∧ n = offset.toNat

/-- A draft begins with no names, for a text with no items. -/
theorem names_empty : Names {} [] :=
  ⟨nofun, nofun, .nil, fun name offset ⟨before, after, h, _⟩ => by simp at h, nofun⟩

section
variable {d d' : Draft} {items : List SourceItem} {name : String} {offset? : Option UInt16}
  {label : Label}

/-- Only names and labels matter. -/
theorem Names.congr (h : d.Names items) (hnames : d'.names = d.names)
    (hlabels : d'.assembler.labels = d.assembler.labels) : d'.Names items := by
  have hbound : ∀ label n, d'.assembler.BoundAt label n ↔ d.assembler.BoundAt label n :=
    fun label n => by rw [Assembler.BoundAt, hlabels, Assembler.BoundAt]
  refine ⟨?_, ?_, h.unique, ?_, ?_⟩
  · rw [hnames, hlabels]
    exact h.fresh
  · rw [hnames]
    exact h.injective
  · simp only [hnames, hbound]
    exact h.defined
  · simp only [hnames, hbound]
    exact h.bound

/-- A statement defines no label. -/
theorem Names.statement (h : d.Names items) (s : Statement) :
    d.Names (items ++ [.statement s]) := by
  have hdefined : ∀ name offset,
      DefinedAt (items ++ [.statement s]) name offset ↔ DefinedAt items name offset :=
    fun name offset => SourceItem.definedAt_concat_iff.trans (or_iff_left (by simp))
  refine ⟨h.fresh, h.injective, ?_, by simpa only [hdefined] using h.defined,
    fun name label n hlookup hbound => ?_⟩
  · rw [List.filterMap_append]
    exact (List.append_nil _).symm ▸ h.unique
  · rcases h.bound name label n hlookup hbound with hn | ⟨offset, hliteral, hn⟩
    · exact .inl ((hdefined name n).2 hn)
    · exact .inr ⟨offset, hliteral.append _, hn⟩

/-- Learning the name of a label, or of a literal offset to which the text has a branch. -/
theorem Names.learn (h : d.Names items) (hlearns : d.Learns name offset? (label, d'))
    (hoffset : ∀ offset, offset? = some offset →
      HasLiteral items offset ∧ name = literalName offset) : d'.Names items := by
  have hbound : ∀ label' n, d'.assembler.BoundAt label' n ↔ d.assembler.BoundAt label' n ∨
      d.names.lookup name = none ∧ label' = label ∧ offset?.map UInt16.toNat = some n :=
    fun _ _ => hlearns.boundAt_iff
  have hpersists : ∀ {name' label'}, d.names.lookup name' = some label' →
      d'.names.lookup name' = some label' := hlearns.lookup
  cases hlearns with
  | known => exact h
  | new hnone =>
    have hsize : (d.assembler.labels.push (offset?.map UInt16.toNat)).size =
        d.assembler.labels.size + 1 := Array.size_push _
    have hcases : ∀ {name' label'},
        List.lookup name' ((name, ⟨d.assembler.labels.size⟩) :: d.names) = some label' →
        (name' = name ∧ label' = ⟨d.assembler.labels.size⟩) ∨
          d.names.lookup name' = some label' := by
      intro name' label' hlookup
      rw [List.lookup_cons] at hlookup
      split at hlookup
      · rename_i heq
        cases hlookup
        exact .inl ⟨eq_of_beq heq, rfl⟩
      · exact .inr hlookup
    -- The new label has an index of its own (`h.fresh`), so no old name has it.
    refine ⟨fun name' label' hlookup => ?_, fun name₁ name₂ label' hlookup₁ hlookup₂ => ?_, h.unique,
      fun name' offset hdefined => ?_, fun name' label' n hlookup hn => ?_⟩
    · rw [hsize]
      rcases hcases hlookup with ⟨-, rfl⟩ | hlookup
      · exact Nat.lt_succ_self _
      · exact Nat.lt_succ_of_lt (h.fresh name' label' hlookup)
    · rcases hcases hlookup₁ with ⟨rfl, rfl⟩ | hknown₁ <;>
        rcases hcases hlookup₂ with ⟨rfl, hlabel⟩ | hknown₂
      · rfl
      · exact absurd (h.fresh _ _ hknown₂) (Nat.lt_irrefl _)
      · subst hlabel
        exact absurd (h.fresh _ _ hknown₁) (Nat.lt_irrefl _)
      · exact h.injective name₁ name₂ label' hknown₁ hknown₂
    · obtain ⟨label', hlookup, hn⟩ := h.defined name' offset hdefined
      exact ⟨label', hpersists hlookup, (hbound label' offset).2 (.inl hn)⟩
    · rcases hcases hlookup with ⟨rfl, rfl⟩ | hlookup
      · rcases (hbound _ n).1 hn with hn | ⟨-, -, hn⟩
        · exact absurd (Array.getElem?_eq_some_iff.1 hn).1 (Nat.lt_irrefl _)
        · obtain ⟨offset, rfl, rfl⟩ := Option.map_eq_some_iff.1 hn
          obtain ⟨hliteral, hname⟩ := hoffset offset rfl
          exact .inr ⟨offset, hliteral, hname, rfl⟩
      · rcases (hbound label' n).1 hn with hn | ⟨-, rfl, -⟩
        · exact h.bound name' label' n hlookup hn
        · exact absurd (h.fresh _ _ hlookup) (Nat.lt_irrefl _)

/-- Looking up the target of a branch that is in the text keeps the table right. -/
theorem Names.target (h : d.Names items) (line : Nat) {t : Target}
    (ht : t ∈ items.filterMap SourceItem.target?) : (d.target line t).2.Names items := by
  have hreferences : Names { d with references := (t.token, line) :: d.references } items :=
    h.congr rfl rfl
  refine hreferences.learn (learns_target d line t) fun offset hoffset => ?_
  cases t with
  | label => cases hoffset
  | offset token n =>
    cases hoffset
    exact ⟨⟨token, ht⟩, rfl⟩

/-- The call of a statement touches neither names nor labels. -/
theorem Names.call (h : d.Names items) (s : Statement) (label : Label) :
    (d.call (s.call label)).Names items := by
  refine h.congr rfl (Assembler.labels_call _ ?_ fun l => ?_)
  · cases s <;> nofun
  · cases s <;> nofun

/-- Adding a statement keeps the table right: its target is looked up, then its call is made. -/
theorem Names.add (h : d.Names items) (line : Nat) (s : Statement) :
    (d.add line s).Names (items ++ [.statement s]) := by
  have h := h.statement s
  rcases d.add_cases line s with ⟨-, hadd⟩ | ⟨t, ht, hadd⟩
  · exact hadd ▸ h.call s ⟨0⟩
  · have hmem : t ∈ (items ++ [SourceItem.statement s]).filterMap SourceItem.target? :=
      List.mem_filterMap.2 ⟨.statement s, List.mem_append_right _ (.head _), ht⟩
    exact hadd ▸ (h.target line hmem).call s _

/-- A definition without an error gives a new label its place. -/
theorem Names.define (h : d.Names items) (hposition : d.assembler.position = bodyLength items)
    (herror : (d.define name).assembler.error = none) :
    (d.define name).Names (items ++ [.define name]) := by
  have hlearns := d.learns_label name
  unfold Draft.define at herror ⊢
  generalize hlabel : d.label name = r at hlearns herror ⊢
  obtain ⟨label, d'⟩ := r
  have hnames : d'.Names items := h.learn hlearns nofun
  have hself := hlearns.lookup_self
  have hposition : d'.assembler.position = bodyLength items := by
    cases hlearns with
    | known => exact hposition
    | new => exact hposition
  dsimp only at herror ⊢
  have hfree : d'.assembler.labels[label.index]? = some none :=
    Assembler.labels_of_error_bind herror
  have hbound : ∀ label' n, (d'.assembler.bind label).BoundAt label' n ↔
      d'.assembler.BoundAt label' n ∨
        label = label' ∧ d'.assembler.labels[label'.index]? = some none ∧
          n = d'.assembler.position :=
    fun _ _ => Assembler.boundAt_bind_iff
  -- A name that is defined already has a bound label, and that could not be bound again.
  have hnew : name ∉ items.filterMap SourceItem.name? := by
    intro hmem
    obtain ⟨offset, hdefined⟩ := SourceItem.exists_definedAt_iff.2 hmem
    obtain ⟨label', hlookup, hn⟩ := hnames.defined name offset hdefined
    obtain rfl : label' = label := Option.some.inj (hlookup.symm.trans hself)
    rw [Assembler.BoundAt, hfree] at hn
    cases hn
  refine ⟨fun name' label' hlookup => ?_, hnames.injective, ?_, fun name' offset hdefined => ?_,
    fun name' label' n hlookup hn => ?_⟩
  · rw [Assembler.size_bind]
    exact hnames.fresh name' label' hlookup
  · rw [List.filterMap_append]
    exact List.concat_eq_append ▸ h.unique.concat hnew
  · rcases SourceItem.definedAt_concat_iff.1 hdefined with hdefined | ⟨hitem, rfl⟩
    · obtain ⟨label', hlookup, hn⟩ := hnames.defined name' offset hdefined
      exact ⟨label', hlookup, (hbound label' offset).2 (.inl hn)⟩
    · cases hitem
      exact ⟨label, hself, (hbound label _).2 (.inr ⟨rfl, hfree, hposition.symm⟩)⟩
  · rcases (hbound label' n).1 hn with hn | ⟨rfl, -, rfl⟩
    · rcases hnames.bound name' label' n hlookup hn with hdefined | ⟨offset, hliteral, hoffset⟩
      · exact .inl (SourceItem.definedAt_concat_iff.2 (.inl hdefined))
      · exact .inr ⟨offset, hliteral.append _, hoffset⟩
    · obtain rfl : name' = name := hnames.injective _ _ _ hlookup hself
      exact .inl (SourceItem.definedAt_concat_iff.2 (.inr ⟨rfl, hposition.symm⟩))

end

end Draft

end ShaderMachine
