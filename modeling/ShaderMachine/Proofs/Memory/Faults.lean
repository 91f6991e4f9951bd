import Mathlib
import ShaderMachine.Memory.Globals
import ShaderMachine.Memory.Stack

/-!
# When memory refuses an access

For each operation on the stack and on the globals, the exact condition under which it faults, and
the fault. An operation by position asks for a slot there; all others ask for so many slots, and the
stack underflows if there are fewer.
-/

namespace ShaderMachine

section
variable {k : FaultKind} {index : Int} {w : Word}

/-- An access behind a check faults when the check fails. -/
theorem dite_eq_error_iff {α : Type} {p : Prop} [Decidable p] {a : p → α} {e : FaultKind} :
    (if h : p then .ok (a h) else .error e : Except FaultKind α) = .error k ↔ ¬ p ∧ k = e := by
  split
  · simp [*]
  · simp [*, eq_comm]

/-- Wrapping the result of an access changes nothing about its faults. -/
theorem map_eq_error_iff {α β : Type} {f : α → β} {r : Except FaultKind α} :
    r.map f = .error k ↔ r = .error k := by
  cases r <;> simp [Except.map]

/-- Reading a slot faults exactly if the index is out of bounds. -/
theorem Slots.get_eq_error_iff {space : Space} {slots : Array Word} :
    Slots.get space slots index = .error k ↔
      ¬ InBounds slots index ∧ k = .outOfBounds space index slots.size := dite_eq_error_iff

/-- Writing a slot faults exactly if the index is out of bounds. -/
theorem Slots.set_eq_error_iff {space : Space} {slots : Array Word} :
    Slots.set space slots index w = .error k ↔
      ¬ InBounds slots index ∧ k = .outOfBounds space index slots.size := dite_eq_error_iff

/-- Reading a global faults exactly if its index is out of bounds, and names the globals. -/
theorem Globals.get_eq_error_iff {g : Globals} :
    g.get index = .error k ↔
      ¬ Slots.InBounds g.slots index ∧ k = .outOfBounds .globals index g.size :=
  Slots.get_eq_error_iff

/-- Writing a global faults exactly if its index is out of bounds, and names the globals. -/
theorem Globals.set_eq_error_iff {g : Globals} :
    g.set index w = .error k ↔
      ¬ Slots.InBounds g.slots index ∧ k = .outOfBounds .globals index g.size :=
  map_eq_error_iff.trans Slots.set_eq_error_iff

end

namespace Stack

section
variable {s : Stack} {k : FaultKind} {index : Int} {w : Word} {count : Nat}

/-- Reading a slot of the stack faults exactly if its index is out of bounds, and names the
stack. -/
theorem get_eq_error_iff :
    s.get index = .error k ↔
      ¬ Slots.InBounds s.slots index ∧ k = .outOfBounds .stack index s.size :=
  Slots.get_eq_error_iff

/-- Writing a slot of the stack faults exactly if its index is out of bounds, and names the
stack. -/
theorem set_eq_error_iff :
    s.set index w = .error k ↔
      ¬ Slots.InBounds s.slots index ∧ k = .outOfBounds .stack index s.size :=
  map_eq_error_iff.trans Slots.set_eq_error_iff

/-- There is a topmost word if there is a slot. -/
theorem back?_eq_none_iff : s.slots.back? = none ↔ s.size < 1 := by
  rw [Array.back?_eq_none_iff, ← Array.size_eq_zero_iff, Nat.lt_one_iff, size]

/-- Popping faults exactly on an empty stack. -/
theorem pop_eq_error_iff : s.pop = .error k ↔ s.size < 1 ∧ k = .stackUnderflow := by
  rw [← back?_eq_none_iff, pop]
  cases s.slots.back? <;> simp [eq_comm]

/-- Looking at the top faults exactly on an empty stack. -/
theorem top_eq_error_iff : s.top = .error k ↔ s.size < 1 ∧ k = .stackUnderflow := by
  rw [← back?_eq_none_iff, top]
  cases s.slots.back? <;> simp [eq_comm]

/-- Dropping words faults exactly if there are not as many. -/
theorem dropTop_eq_error_iff :
    s.dropTop count = .error k ↔ s.size < count ∧ k = .stackUnderflow := by
  rw [← Nat.not_le]
  exact dite_eq_error_iff

/-- Reading the top words faults exactly if there are not as many. -/
theorem topN_eq_error_iff : s.topN count = .error k ↔ s.size < count ∧ k = .stackUnderflow := by
  rw [← Nat.not_le]
  exact dite_eq_error_iff

/-- Replacing the top words faults exactly if there are not as many. -/
theorem replaceTop_eq_error_iff {words : List Word} :
    s.replaceTop words = .error k ↔ s.size < words.length ∧ k = .stackUnderflow := by
  rw [← Nat.not_le]
  exact dite_eq_error_iff

/-- Looking at a depth faults exactly if the stack is not deeper. -/
theorem peek_eq_error_iff {depth : Nat} :
    s.peek depth = .error k ↔ s.size < depth + 1 ∧ k = .stackUnderflow := by
  rw [← Nat.not_le]
  exact dite_eq_error_iff

/-- Copying words down faults exactly if there is no word below them. -/
theorem dupDown_eq_error_iff :
    s.dupDown count = .error k ↔ s.size < count + 1 ∧ k = .stackUnderflow := by
  rw [← Nat.not_le]
  exact dite_eq_error_iff

/-- Returning words faults exactly if there are not as many. -/
theorem returnToBottom_eq_error_iff :
    s.returnToBottom count = .error k ↔ s.size < count ∧ k = .stackUnderflow := by
  rw [← Nat.not_le]
  exact dite_eq_error_iff

end

end Stack

end ShaderMachine
