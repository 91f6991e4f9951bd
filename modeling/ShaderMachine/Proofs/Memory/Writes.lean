import ShaderMachine.Proofs.Machine.Frame

/-!
# Writes to the globals

A history of the global table is a list of writes, each a slot and a word. `Globals.written` replays
it, and `Globals.getElem?_written` says what can be read from it: in every slot stands the word of
the last write to it, or what stood there before if there is none. The table with which a body
starts is the replay of the inputs on uninitialized slots (`Function.globals_start`).
-/

namespace ShaderMachine

namespace Globals

/-- The table after writes, the first of the list first. -/
def written (g : Globals) (writes : List (Nat × Word)) : Globals :=
  ⟨writes.foldl (fun slots write => slots.setIfInBounds write.1 write.2) g.slots⟩

section
variable {g g' : Globals} {writes : List (Nat × Word)} {index : Int} {w : Word} {slot : Nat}

@[simp] theorem written_nil (g : Globals) : g.written [] = g := rfl

/-- The first write of a history is made first. -/
theorem written_cons (g : Globals) (write : Nat × Word) (writes : List (Nat × Word)) :
    g.written (write :: writes) = (g.written [write]).written writes := rfl

/-- A history is replayed one part after the other. -/
theorem written_append (g : Globals) (writes writes' : List (Nat × Word)) :
    g.written (writes ++ writes') = (g.written writes).written writes' :=
  congrArg mk List.foldl_append

/-- No write changes the number of slots. -/
@[simp] theorem size_written (g : Globals) (writes : List (Nat × Word)) :
    (g.written writes).size = g.size := by
  induction writes generalizing g with
  | nil => rfl
  | cons write writes ih =>
    rw [written_cons, ih]
    exact Array.size_setIfInBounds

/-- The last write to a slot decides what stands in it. -/
theorem getElem?_written (h : slot < g.size) :
    (g.written writes).slots[slot]? = (writes.reverse.lookup slot).or g.slots[slot]? := by
  induction writes generalizing g with
  | nil => rfl
  | cons write writes ih =>
    obtain ⟨target, w⟩ := write
    have hfirst : (g.written [(target, w)]).slots[slot]? =
        (List.lookup slot [(target, w)]).or g.slots[slot]? := by
      simp only [written, List.foldl_cons, List.foldl_nil, Array.getElem?_setIfInBounds,
        List.lookup_cons]
      by_cases hslot : target = slot
      · subst hslot
        simp [show target < g.slots.size from h]
      · simp [hslot, beq_false_of_ne (Ne.symm hslot)]
    rw [written_cons, ih ((size_written g [(target, w)]).symm ▸ h), hfirst, List.reverse_cons,
      List.lookup_append, Option.or_assoc]

/-- A successful access is a write to an existing slot. -/
theorem set_eq_ok_iff :
    g.set index w = .ok g' ↔
      Slots.InBounds g.slots index ∧ g' = g.written [(index.toNat, w)] := by
  by_cases hbounds : Slots.InBounds g.slots index
  · have hset : g.set index w = .ok (g.written [(index.toNat, w)]) := by
      simp only [set, Slots.set, dif_pos hbounds, Except.map, written, List.foldl_cons,
        List.foldl_nil, Array.setIfInBounds, dif_pos hbounds.2]
    rw [hset, Except.ok.injEq, and_iff_right hbounds, eq_comm]
  · rw [set_eq_error_iff.2 ⟨hbounds, rfl⟩]
    exact iff_of_false nofun fun h => hbounds h.1

end

end Globals

/-! ## The inputs -/

/-- The writes of the inputs of an invocation, in the order of their slots in the layout. -/
def Function.inputWrites (f : Function) (inv : Invocation) : List (Nat × Word) :=
  (f.layout.inputSlots.map UInt64.toNat).zip inv.inputs.toList

/-- A slot number that does not read as negative is read as it is. -/
theorem toNat_toInt64 {slot : UInt64} (h : 0 ≤ slot.toInt64.toInt) :
    slot.toInt64.toInt.toNat = slot.toNat := by
  have hlt := slot.toNat_lt
  rw [toInt_toInt64] at h ⊢
  split <;> omega

/-- Inputs that can all be written are written one after the other. -/
theorem Globals.fill_eq_written {inputs : List (UInt64 × Word)} {g : Globals}
    (h : (fill inputs g).1 = none) :
    (fill inputs g).2 = g.written (inputs.map (Prod.map UInt64.toNat id)) := by
  induction inputs generalizing g with
  | nil => rfl
  | cons input inputs ih =>
    obtain ⟨slot, w⟩ := input
    rw [fill] at h ⊢
    cases hset : g.set slot.toInt64.toInt w with
    | ok g' =>
      rw [hset] at h
      obtain ⟨hbounds, rfl⟩ := set_eq_ok_iff.1 hset
      rw [List.map_cons, written_cons, Prod.map_apply, id, ← toNat_toInt64 hbounds.1]
      exact ih h
    | error k =>
      rw [hset] at h
      cases h

/-- The globals with which a body starts. -/
theorem Function.globals_start {f : Function} {inv : Invocation} (h : f.Accepts inv) :
    (f.layout.start inv.inputs).2 =
      (Globals.filled f.layout.globalCount .uninitialized).written (f.inputWrites inv) := by
  have hstart : (f.layout.start inv.inputs).1 = none := (accepts_iff.1 h).2
  rw [inputWrites, List.zip_map_left]
  exact Globals.fill_eq_written hstart

end ShaderMachine
