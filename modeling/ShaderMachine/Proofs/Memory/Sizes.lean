import ShaderMachine.Proofs.Memory.Faults

/-!
# How memory grows and shrinks

The number of slots that each operation leaves on the stack, and the number of words that it hands
out. An operation that fails leaves the stack as it was, so only success is considered. A write
changes no number of slots, on the stack or of the globals (`Slots.size_of_set`).
-/

namespace ShaderMachine

/-- Wrapping the result of an access changes nothing about its success. -/
theorem map_eq_ok_iff {α β : Type} {f : α → β} {r : Except FaultKind α} {b : β} :
    r.map f = .ok b ↔ ∃ a, r = .ok a ∧ f a = b := by
  cases r <;> simp [Except.map]

/-- Writing a slot keeps the number of slots. -/
theorem Slots.size_of_set {space : Space} {slots slots' : Array Word} {index : Int} {w : Word}
    (h : Slots.set space slots index w = .ok slots') : slots'.size = slots.size := by
  unfold Slots.set at h
  split at h
  · rename_i hbounds
    cases h
    exact Array.size_set hbounds.2
  · cases h

/-- Writing a global keeps the size of the table. -/
theorem Globals.size_of_set {g g' : Globals} {index : Int} {w : Word}
    (h : g.set index w = .ok g') : g'.size = g.size := by
  obtain ⟨slots, hset, rfl⟩ := map_eq_ok_iff.1 h
  exact Slots.size_of_set hset

namespace Stack

section
variable {s t : Stack} {w : Word} {words : List Word} {index : Int} {count : Nat}

@[simp] theorem size_push (s : Stack) (w : Word) : (s.push w).size = s.size + 1 :=
  Array.size_push w

/-- Popping leaves one word less. -/
theorem size_of_pop (h : s.pop = .ok (w, t)) : t.size + 1 = s.size := by
  have hpos : ¬ s.size < 1 := fun hlt => by rw [pop_eq_error_iff.2 ⟨hlt, rfl⟩] at h; cases h
  unfold pop at h
  split at h
  · cases h
    simp only [size, Array.size_pop] at hpos ⊢
    omega
  · cases h

/-- Dropping words leaves as many less. -/
theorem size_of_dropTop (h : s.dropTop count = .ok t) : t.size + count = s.size := by
  unfold dropTop at h
  split at h
  · cases h
    simp only [size, Array.size_shrink] at *
    omega
  · cases h

/-- As many words are read as were asked for. -/
theorem length_of_topN (h : s.topN count = .ok words) : words.length = count := by
  unfold topN at h
  split at h
  · cases h
    simp only [size, Array.length_toList, Array.size_extract] at *
    omega
  · cases h

/-- Replacing the top words keeps the height. -/
theorem size_of_replaceTop (h : s.replaceTop words = .ok t) : t.size = s.size := by
  unfold replaceTop at h
  split at h
  · rename_i hle
    cases h
    have hshrink : (s.slots.shrink (s.size - words.length)).size = s.size - words.length := by
      simp [size]
    rw [size, ← Array.length_toList, Array.toList_appendList, List.length_append,
      Array.length_toList, hshrink]
    exact Nat.sub_add_cancel hle
  · cases h

/-- Writing a slot keeps the height. -/
theorem size_of_set (h : s.set index w = .ok t) : t.size = s.size := by
  obtain ⟨slots, hset, rfl⟩ := map_eq_ok_iff.1 h
  exact Slots.size_of_set hset

/-- Copying words down adds as many. -/
theorem size_of_dupDown (h : s.dupDown count = .ok t) : t.size = s.size + count := by
  unfold dupDown at h
  split at h
  · cases h
    simp only [size, Array.size_append, Array.size_extract] at *
    omega
  · cases h

end

end Stack

end ShaderMachine
