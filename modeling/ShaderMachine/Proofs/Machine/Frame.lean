import ShaderMachine.Interpreter
import ShaderMachine.Proofs.Memory.Sizes

/-!
# Entering and leaving a frame

Before a body runs, the inputs are written to the global slots that the layout names for them; after
it has returned, the slots of `out` parameters are copied back to the arguments. Both go slot by
slot and end at the first slot that does not exist. `GlobalLayout.start_eq_none_iff` says when all
inputs can be written. `copyOut_eq` reduces the walk over the parameters to a walk over the slots of
the `out` parameters (`outSlots`), which ascend. Such a walk copies all its slots
(`copyAll_of_forall_lt`) or those before the first one that is missing (`copyAll_of_missing`).
-/

namespace ShaderMachine

/-! ## Writing the inputs -/

/-- A slot number that, as a signed index, is that of a global slot. -/
def GlobalLayout.InRange (layout : GlobalLayout) (slot : UInt64) : Prop :=
  0 ≤ slot.toInt64.toInt ∧ slot.toInt64.toInt.toNat < layout.globalCount

/-- The upper half of the slot numbers reads as negative. -/
theorem toInt_toInt64 (slot : UInt64) : slot.toInt64.toInt =
    if 2 * slot.toNat < 2 ^ 64 then (slot.toNat : Int) else slot.toNat - (2 ^ 64 : Nat) :=
  BitVec.toInt_eq_toNat_cond slot.toBitVec

/-- In a table that a signed index can span, the slots in range are those below its size. -/
theorem GlobalLayout.inRange_iff {layout : GlobalLayout} (h : layout.globalCount ≤ 2 ^ 63)
    (slot : UInt64) : layout.InRange slot ↔ slot.toNat < layout.globalCount := by
  have hlt := slot.toNat_lt
  rw [InRange, toInt_toInt64]
  split <;> omega

namespace Globals

/-- The fault of a write is that the slot does not exist, and without one the slot does. -/
theorem exists_outOfBounds_of_fill {inputs : List (UInt64 × Word)} {g : Globals} {k : FaultKind}
    (h : (fill inputs g).1 = some k) : ∃ index, k = .outOfBounds .globals index g.size := by
  induction inputs generalizing g with
  | nil => cases h
  | cons input inputs ih =>
    obtain ⟨slot, w⟩ := input
    rw [fill] at h
    cases hset : g.set slot.toInt64.toInt w with
    | ok g' =>
      rw [hset] at h
      rw [← size_of_set hset]
      exact ih h
    | error k' =>
      rw [hset] at h
      cases h
      exact ⟨_, (set_eq_error_iff.1 hset).2⟩

/-- All inputs can be written if all their slots exist. -/
theorem fill_eq_none_iff {inputs : List (UInt64 × Word)} {g : Globals} :
    (fill inputs g).1 = none ↔
      ∀ input ∈ inputs, Slots.InBounds g.slots input.1.toInt64.toInt := by
  induction inputs generalizing g with
  | nil => exact iff_of_true rfl (by simp)
  | cons input inputs ih =>
    obtain ⟨slot, w⟩ := input
    rw [fill, List.forall_mem_cons]
    cases hset : g.set slot.toInt64.toInt w with
    | ok g' =>
      have hslot : Slots.InBounds g.slots slot.toInt64.toInt := by
        by_contra hout
        rw [set_eq_error_iff.2 ⟨hout, rfl⟩] at hset
        cases hset
      have hsize : g'.slots.size = g.slots.size := size_of_set hset
      simp only [ih, Slots.InBounds, hsize] at hslot ⊢
      exact (and_iff_right hslot).symm
    | error k' =>
      have hout := (set_eq_error_iff.1 hset).1
      exact iff_of_false (by simp) fun h => hout h.1

end Globals

/-- The inputs of a layout, one for each of its slots, can be written if these are in range. -/
theorem GlobalLayout.start_eq_none_iff {layout : GlobalLayout} {inputs : Array Word}
    (h : inputs.size = layout.inputSlots.length) :
    (layout.start inputs).1 = none ↔ ∀ slot ∈ layout.inputSlots, layout.InRange slot := by
  have hslots : (layout.inputSlots.zip inputs.toList).map Prod.fst = layout.inputSlots :=
    List.map_fst_zip (Nat.le_of_eq (by simp [h]))
  have hsize : (Globals.filled layout.globalCount .uninitialized).slots.size = layout.globalCount :=
    Array.size_replicate
  rw [start, Globals.fill_eq_none_iff]
  conv_rhs => rw [← hslots, List.forall_mem_map]
  simp only [Slots.InBounds, hsize, InRange]

/-- The invocation supplies what the function needs to be executed. -/
structure Function.Accepts (f : Function) (inv : Invocation) : Prop where
  args : f.parameterSlots ≤ inv.args.size
  inputs : inv.inputs.size = f.layout.inputSlots.length
  slots : ∀ slot ∈ f.layout.inputSlots, f.layout.InRange slot

/-- The numbers of words are right if the arguments cover the slots of the parameters and there is
one input for each slot. -/
theorem Function.checkCounts_eq_ok_iff {f : Function} {inv : Invocation} :
    f.checkCounts inv = .ok () ↔
      f.parameterSlots ≤ inv.args.size ∧ inv.inputs.size = f.layout.inputSlots.length := by
  unfold checkCounts
  split
  · rename_i hargs
    exact iff_of_false nofun fun h => Nat.not_le.2 hargs h.1
  · rename_i hargs
    split
    · rename_i hinputs
      exact iff_of_false nofun fun h => hinputs h.2
    · rename_i hinputs
      exact iff_of_true rfl ⟨Nat.not_lt.1 hargs, not_not.1 hinputs⟩

/-- The faults that refuse an invocation for the number of words that it supplies. -/
def FaultKind.Refusal : FaultKind → Prop
  | argumentCount .. | inputCount .. => True
  | _ => False

/-- Wrong numbers of words are reported as such. -/
theorem Function.refusal_of_checkCounts {f : Function} {inv : Invocation} {k : FaultKind}
    (h : f.checkCounts inv = .error k) : k.Refusal := by
  unfold checkCounts at h
  split at h
  · cases h
    trivial
  · split at h
    · cases h
      trivial
    · cases h

/-- An invocation is accepted if its numbers of words are right and its inputs can be written. -/
theorem Function.accepts_iff {f : Function} {inv : Invocation} :
    f.Accepts inv ↔ f.checkCounts inv = .ok () ∧ (f.layout.start inv.inputs).1 = none := by
  rw [checkCounts_eq_ok_iff]
  constructor
  · rintro ⟨hargs, hinputs, hslots⟩
    exact ⟨⟨hargs, hinputs⟩, (GlobalLayout.start_eq_none_iff hinputs).2 hslots⟩
  · rintro ⟨⟨hargs, hinputs⟩, hstart⟩
    exact ⟨hargs, hinputs, (GlobalLayout.start_eq_none_iff hinputs).1 hstart⟩

/-! ## Copying back -/

/-- Copies the words of the listed slots from the stack into the arguments at the same places, up to
the first slot that the stack does not have. -/
def copyAll (stack : Stack) : List Nat → Array Word → Option FaultKind × Array Word
  | [], args => (none, args)
  | slot :: slots, args =>
    match stack.get slot with
    | .ok w => copyAll stack slots (args.setIfInBounds slot w)
    | .error k => (some k, args)

/-- The slots of the `out` parameters, when the parameters lie one after the other from `offset`
on. -/
def outSlots (offset : Nat) : List Parameter → List Nat
  | [] => []
  | p :: parameters =>
    (if p.out then List.range' offset p.width.toNat else []) ++
      outSlots (offset + p.width.toNat) parameters

section
variable {stack : Stack} {slots slots' : List Nat} {slot offset : Nat} {parameters : List Parameter}
  {args args' : Array Word} {k : FaultKind}

/-- A slot below the height of the stack is read. -/
theorem Stack.get_of_lt (h : slot < stack.size) : stack.get slot = .ok stack.slots[slot] :=
  dif_pos ⟨Int.natCast_nonneg slot, h⟩

/-- A slot that the stack does not have is out of bounds. -/
theorem Stack.get_of_le (h : stack.size ≤ slot) :
    stack.get slot = .error (.outOfBounds .stack slot stack.size) :=
  dif_neg fun hbounds => Nat.not_lt.2 h hbounds.2

/-- Slots are copied one list after the other, as long as none is missing. -/
theorem copyAll_append (h : copyAll stack slots args = (none, args')) :
    copyAll stack (slots ++ slots') args = copyAll stack slots' args' := by
  induction slots generalizing args with
  | nil =>
    cases h
    rfl
  | cons slot slots ih =>
    rw [List.cons_append, copyAll]
    rw [copyAll] at h
    cases hget : stack.get slot with
    | ok w =>
      rw [hget] at h
      exact ih h
    | error k =>
      rw [hget] at h
      cases h

/-- Behind a slot that is missing nothing is copied. -/
theorem copyAll_append_of_fault (h : copyAll stack slots args = (some k, args')) :
    copyAll stack (slots ++ slots') args = (some k, args') := by
  induction slots generalizing args with
  | nil => cases h
  | cons slot slots ih =>
    rw [List.cons_append, copyAll]
    rw [copyAll] at h
    cases hget : stack.get slot with
    | ok w =>
      rw [hget] at h
      exact ih h
    | error k' =>
      rw [hget] at h
      exact h

/-- The slots of a parameter are consecutive. -/
theorem copySlots_eq (stack : Stack) (offset width : Nat) (args : Array Word) :
    copySlots stack offset width args = copyAll stack (List.range' offset width) args := by
  induction width generalizing offset args with
  | zero => rfl
  | succ width ih =>
    rw [copySlots, List.range'_succ, copyAll]
    cases stack.get offset with
    | ok w => exact ih (offset + 1) _
    | error k => rfl

/-- Copying back goes over the slots of the `out` parameters. -/
theorem copyOut_eq (stack : Stack) (offset : Nat) (parameters : List Parameter)
    (args : Array Word) :
    copyOut stack offset parameters args = copyAll stack (outSlots offset parameters) args := by
  induction parameters generalizing offset args with
  | nil => rfl
  | cons p parameters ih =>
    rw [copyOut, outSlots]
    split
    · rw [copySlots_eq]
      rcases hcopy : copyAll stack (List.range' offset p.width.toNat) args with ⟨_ | k, args'⟩
      · rw [copyAll_append hcopy]
        exact ih _ args'
      · exact (copyAll_append_of_fault hcopy).symm
    · exact ih _ args

/-- A walk over slots ends only at one that the stack does not have. -/
theorem exists_outOfBounds_of_copyAll (h : (copyAll stack slots args).1 = some k) :
    ∃ slot : Nat, k = .outOfBounds .stack slot stack.size := by
  induction slots generalizing args with
  | nil => cases h
  | cons slot slots ih =>
    rw [copyAll] at h
    cases hget : stack.get slot with
    | ok w =>
      rw [hget] at h
      exact ih h
    | error k' =>
      rw [hget] at h
      cases h
      exact ⟨slot, (Stack.get_eq_error_iff.1 hget).2⟩

/-- The second arguments are the first ones with the words of some slots copied from the stack. -/
structure Copied (stack : Stack) (slots : Nat → Prop) (args args' : Array Word) : Prop where
  size : args'.size = args.size
  copied : ∀ slot, slots slot → args'[slot]? = stack.slots[slot]?
  kept : ∀ slot, ¬ slots slot → args'[slot]? = args[slot]?

/-- The words of slots that the stack has are copied, and nothing else. -/
theorem copyAll_of_forall_lt (hstack : ∀ slot ∈ slots, slot < stack.size)
    (hargs : ∀ slot ∈ slots, slot < args.size) :
    ∃ args', copyAll stack slots args = (none, args') ∧ Copied stack (· ∈ slots) args args' := by
  induction slots generalizing args with
  | nil => exact ⟨args, rfl, rfl, nofun, fun _ _ => rfl⟩
  | cons slot slots ih =>
    obtain ⟨hslot, hstack⟩ := List.forall_mem_cons.1 hstack
    obtain ⟨hslot', hargs⟩ := List.forall_mem_cons.1 hargs
    have hargs' : ∀ slot' ∈ slots, slot' < (args.setIfInBounds slot stack.slots[slot]).size := by
      simpa only [Array.size_setIfInBounds] using hargs
    obtain ⟨args', hcopy, hcopied⟩ := ih hstack hargs'
    refine ⟨args', ?_, ?_, fun i hi => ?_, fun i hi => ?_⟩
    · rw [copyAll, Stack.get_of_lt hslot]
      exact hcopy
    · rw [hcopied.size, Array.size_setIfInBounds]
    · by_cases hmem : i ∈ slots
      · exact hcopied.copied i hmem
      · obtain rfl : i = slot := (List.mem_cons.1 hi).resolve_right hmem
        rw [hcopied.kept i hmem, Array.getElem?_setIfInBounds_self_of_lt hslot',
          Array.getElem?_eq_getElem hslot]
    · obtain ⟨hne, hmem⟩ := not_or.1 (mt List.mem_cons.2 hi)
      rw [hcopied.kept i hmem, Array.getElem?_setIfInBounds_ne (Ne.symm hne)]

/-- At the first slot that the stack does not have the walk ends, with the slots before it copied. -/
theorem copyAll_of_missing (hslots : slots.Pairwise (· < ·)) (hmem : slot ∈ slots)
    (hmissing : stack.size ≤ slot)
    (hfirst : ∀ slot' ∈ slots, slot' < slot → slot' < stack.size)
    (hargs : ∀ slot ∈ slots, slot < args.size) :
    ∃ args', copyAll stack slots args = (some (.outOfBounds .stack slot stack.size), args') ∧
      Copied stack (fun slot' => slot' ∈ slots ∧ slot' < slot) args args' := by
  obtain ⟨before, after, rfl⟩ := List.append_of_mem hmem
  obtain ⟨-, hafter, hbefore⟩ := List.pairwise_append.1 hslots
  have hlt : ∀ slot' ∈ before, slot' < slot := fun slot' h => hbefore slot' h slot (.head _)
  have hmem' : ∀ slot' ∈ before, slot' ∈ before ++ slot :: after :=
    fun slot' h => List.mem_append_left _ h
  have hstack : ∀ slot' ∈ before, slot' < stack.size :=
    fun slot' h => hfirst slot' (hmem' slot' h) (hlt slot' h)
  have hargs' : ∀ slot' ∈ before, slot' < args.size := fun slot' h => hargs slot' (hmem' slot' h)
  have hiff : ∀ slot', slot' ∈ before ↔ slot' ∈ before ++ slot :: after ∧ slot' < slot := by
    intro slot'
    constructor
    · exact fun h => ⟨hmem' slot' h, hlt slot' h⟩
    · rintro ⟨h, hslot'⟩
      rcases List.mem_append.1 h with h | h
      · exact h
      · rcases List.mem_cons.1 h with rfl | h
        · exact absurd hslot' (Nat.lt_irrefl _)
        · exact absurd hslot' (Nat.not_lt.2 (Nat.le_of_lt (List.rel_of_pairwise_cons hafter h)))
  obtain ⟨args', hcopy, hcopied⟩ := copyAll_of_forall_lt hstack hargs'
  refine ⟨args', ?_, by simpa only [hiff] using hcopied⟩
  rw [copyAll_append hcopy, copyAll, Stack.get_of_le hmissing]

/-- Of slots that the stack does not all have there is a first one that is missing. -/
theorem exists_first_missing {size : Nat} (h : ¬ ∀ slot ∈ slots, slot < size) :
    ∃ slot ∈ slots, size ≤ slot ∧ ∀ slot' ∈ slots, slot' < slot → slot' < size := by
  have hmissing : ∃ slot, slot ∈ slots ∧ size ≤ slot := by simpa using h
  obtain ⟨hmem, hle⟩ := Nat.find_spec hmissing
  refine ⟨Nat.find hmissing, hmem, hle, fun slot' hmem' hlt => ?_⟩
  exact Nat.lt_of_not_le fun hle' => Nat.find_min hmissing hlt ⟨hmem', hle'⟩

end

/-! ## The slots of `out` parameters -/

section
variable {offset slot : Nat} {parameters : List Parameter}

/-- The number of slots that parameters occupy. -/
def totalWidth (parameters : List Parameter) : Nat := (parameters.map (·.width.toNat)).sum

@[simp] theorem totalWidth_nil : totalWidth [] = 0 := rfl

@[simp] theorem totalWidth_cons (p : Parameter) (parameters : List Parameter) :
    totalWidth (p :: parameters) = p.width.toNat + totalWidth parameters := List.sum_cons

@[simp] theorem totalWidth_append (parameters parameters' : List Parameter) :
    totalWidth (parameters ++ parameters') = totalWidth parameters + totalWidth parameters' := by
  rw [totalWidth, List.map_append, List.sum_append]
  rfl

/-- The parameters of a function take as many slots as their widths add up to. -/
theorem Function.parameterSlots_eq (f : Function) : f.parameterSlots = totalWidth f.parameters := by
  have hfoldl : ∀ offset, f.parameters.foldl (fun slots p => slots + p.width.toNat) offset =
      offset + totalWidth f.parameters := by
    induction f.parameters with
    | nil => intro offset; rfl
    | cons p parameters ih =>
      intro offset
      rw [List.foldl_cons, ih, totalWidth_cons, Nat.add_assoc]
  exact (hfoldl 0).trans (Nat.zero_add _)

/-- A slot of an `out` parameter lies behind all parameters before, within its width. -/
theorem mem_outSlots_iff :
    slot ∈ outSlots offset parameters ↔
      ∃ before p after, parameters = before ++ p :: after ∧ p.out = true ∧
        offset + totalWidth before ≤ slot ∧
        slot < offset + totalWidth before + p.width.toNat := by
  induction parameters generalizing offset with
  | nil => simp [outSlots]
  | cons p parameters ih =>
    rw [outSlots, List.mem_append, ih]
    constructor
    · rintro (h | ⟨before, q, after, rfl, hout, hle, hlt⟩)
      · split at h
        · rename_i hout
          obtain ⟨hle, hlt⟩ := List.mem_range'_1.1 h
          exact ⟨[], p, parameters, rfl, hout, hle, hlt⟩
        · cases h
      · have hwidth := totalWidth_cons p before
        exact ⟨p :: before, q, after, rfl, hout, by omega, by omega⟩
    · rintro ⟨before, q, after, hparameters, hout, hle, hlt⟩
      cases before with
      | nil =>
        obtain ⟨rfl, rfl⟩ := List.cons.inj hparameters
        rw [if_pos hout]
        exact .inl (List.mem_range'_1.2 ⟨hle, hlt⟩)
      | cons p' before =>
        obtain ⟨rfl, rfl⟩ := List.cons.inj hparameters
        rw [totalWidth_cons] at hle hlt
        exact .inr ⟨before, q, after, rfl, hout, by omega, by omega⟩

/-- Slots of parameters do not lie in front of where the parameters begin. -/
theorem le_of_mem_outSlots (h : slot ∈ outSlots offset parameters) : offset ≤ slot := by
  obtain ⟨before, p, after, -, -, hle, -⟩ := mem_outSlots_iff.1 h
  omega

/-- The slots are visited in ascending order. -/
theorem pairwise_outSlots (offset : Nat) (parameters : List Parameter) :
    (outSlots offset parameters).Pairwise (· < ·) := by
  induction parameters generalizing offset with
  | nil => exact .nil
  | cons p parameters ih =>
    rw [outSlots, List.pairwise_append]
    refine ⟨?_, ih _, fun slot hslot slot' hslot' => ?_⟩
    · split
      · exact List.pairwise_lt_range'
      · exact .nil
    · have hle := le_of_mem_outSlots hslot'
      split at hslot
      · have hlt := (List.mem_range'_1.1 hslot).2
        omega
      · cases hslot

/-- The slots of `out` parameters are among those that all parameters occupy. -/
theorem lt_of_mem_outSlots (h : slot ∈ outSlots offset parameters) :
    slot < offset + totalWidth parameters := by
  obtain ⟨before, p, after, rfl, -, -, hlt⟩ := mem_outSlots_iff.1 h
  rw [totalWidth_append, totalWidth_cons]
  omega

end

end ShaderMachine
