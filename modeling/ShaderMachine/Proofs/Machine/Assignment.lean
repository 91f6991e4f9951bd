import ShaderMachine.Proofs.Machine.Scatter

/-!
# Assignments as expressions

An assignment stores words and has these words as its value. `dupDown` in front of a vector store
does that: the words are copied beneath their target before the store takes them, so they are still on
the stack when the next assignment begins. `Exec.sequence_assignments` is about several targets for
the same words, and `Exec.sequence_dupDown_store` about one of them and the words that are loaded
from it afterwards.
-/

namespace ShaderMachine

/-- The list with words in the place of as many of its own, from a position on. -/
def overwrite (before : List Word) (first : Nat) (words : List Word) : List Word :=
  before.take first ++ words ++ before.drop (first + words.length)

section
variable {before words : List Word} {first : Nat}

/-- Overwriting keeps the length of a list that has room for the words. -/
theorem length_overwrite (h : first + words.length ≤ before.length) :
    (overwrite before first words).length = before.length := by
  rw [overwrite, List.length_append, List.length_append, List.length_take, List.length_drop]
  omega

/-- What stands behind a list stays when the list is overwritten. -/
theorem overwrite_append (h : first + words.length ≤ before.length) (behind : List Word) :
    overwrite (before ++ behind) first words = overwrite before first words ++ behind := by
  rw [overwrite, overwrite, List.take_append_of_le_length (by omega),
    List.drop_append_of_le_length h, List.append_assoc _ _ behind]

/-- Where a list is overwritten stand the words, and everywhere else what stood there before. -/
theorem getElem?_overwrite (h : first + words.length ≤ before.length) (slot : Nat) :
    (overwrite before first words)[slot]? =
      if first ≤ slot ∧ slot < first + words.length then words[slot - first]?
      else before[slot]? := by
  have htake : (before.take first).length = first := List.length_take_of_le (by omega)
  by_cases hlow : slot < first
  · rw [if_neg (by omega), overwrite, List.append_assoc, List.getElem?_append_left (by omega),
      List.getElem?_take_of_lt hlow]
  · rw [overwrite, List.append_assoc, List.getElem?_append_right (by omega), htake]
    by_cases hhigh : slot < first + words.length
    · rw [if_pos (by omega), List.getElem?_append_left (by omega)]
    · have hslot : first + words.length + (slot - first - words.length) = slot := by omega
      rw [if_neg (by omega), List.getElem?_append_right (by omega), List.getElem?_drop, hslot]

/-- The words are where they have been put. -/
theorem take_drop_overwrite (h : first + words.length ≤ before.length) :
    ((overwrite before first words).drop first).take words.length = words := by
  have htake : (before.take first).length = first := List.length_take_of_le (by omega)
  rw [overwrite, List.append_assoc, List.drop_left' htake, List.take_left]

end

section
variable {count : LaneCount} {before words after : List Word} {first : Nat}

/-- Lanes that all have a slot are the offsets of a vector store without faults. -/
theorem inside_offsets (hlength : words.length = count.toNat)
    (h : first + words.length ≤ before.length) : Inside first count.offsets before.length := by
  intro offset hoffset
  have hlt : offset.toNat < count.toNat := toNat_lt_of_mem_bytesBelow hoffset
  omega

/-- Words that have been stored at the offsets of lanes stand in a row. -/
theorem Scattered.eq_overwrite (hscattered : Scattered first count.offsets words before after)
    (hlength : words.length = count.toNat) (h : first + words.length ≤ before.length) :
    after = overwrite before first words := by
  refine List.ext_getElem? fun slot => ?_
  rw [getElem?_overwrite h]
  by_cases hslot : first ≤ slot ∧ slot < first + words.length
  · have hlane : slot - first < count.offsets.length := by
      rw [count.length_offsets]
      omega
    have hwritten := hscattered.written _ (List.getElem_mem hlane)
    have htarget : ((first : Int) + (slot - first : Nat)).toNat = slot := by omega
    rw [count.nodup_offsets.idxOf_getElem, count.toNat_getElem_offsets hlane, htarget] at hwritten
    rw [if_pos hslot, hwritten]
  · refine (hscattered.kept slot fun offset hoffset => ?_).trans (if_neg hslot).symm
    have hlt : offset.toNat < count.toNat := toNat_lt_of_mem_bytesBelow hoffset
    omega

end

namespace Exec

section
variable {count : LaneCount} {rest words : List Word} {target : Word} {first : Nat}

/-- A vector store overwrites slots in a row. -/
theorem step_vector_store_overwrite (s : State) (hlength : words.length = count.toNat)
    (htarget : target.toInt = first) (hinside : first + words.length ≤ rest.length) :
    step (.vector count .store) (s.withStack (rest ++ [target] ++ words)) =
      .ok .next (s.withStack (overwrite rest first words)) := by
  have hoffsets : Inside target.toInt count.offsets rest.length :=
    htarget ▸ inside_offsets hlength hinside
  have hscattered := scattered_zip (hlength.trans count.length_offsets.symm) hoffsets
  rw [htarget] at hscattered
  rw [step_vector_store_append s hlength hoffsets, htarget, hscattered.eq_overwrite hlength hinside]

/-- A vector load pushes the words of slots in a row. -/
theorem sequence_vector_load (s : State) (htarget : target.toInt = first)
    (hinside : first + count.toNat ≤ words.length) :
    sequence [.pushImmediate target, .vector count .load] (s.withStack words) =
      .ok .next (s.withStack (words ++ (words.drop first).take count.toNat)) := by
  have hcount : 0 < count.toNat := count.pos
  have hfirst : first < words.length := by omega
  rw [sequence_cons (x := push target) rfl, sequence_singleton, vector_load_eq,
    push_bind_loadSwizzle, count.map_toNat_offsets, htarget,
    bind_eq_of_ok (gather_range s hfirst _), (window_eq_iff hfirst).2 hinside]
  rfl

/-- The words that are assigned stay on the stack. -/
theorem sequence_assign (s : State) (hlength : words.length = count.toNat)
    (htarget : target.toInt = first) (hinside : first + words.length ≤ rest.length)
    (is : List Instruction) :
    sequence ([.dupDown count.val, .vector count .store] ++ is)
        (s.withStack (rest ++ [target] ++ words)) =
      sequence is (s.withStack (overwrite rest first words ++ words)) := by
  have hcopies := changeStack_dupDown_append s rest words target
  rw [hlength] at hcopies
  have hinside' : first + words.length ≤ (rest ++ words).length := by
    rw [List.length_append]
    omega
  have hstore := step_vector_store_overwrite s hlength htarget hinside'
  rw [overwrite_append hinside] at hstore
  rw [List.cons_append, List.singleton_append,
    sequence_cons (x := changeStack (·.dupDown count.toNat)) rfl, bind_eq_of_ok hcopies, sequence,
    bind_eq_of_ok hstore]

/-- **Several targets.** Targets on the stack beneath words are all assigned these words, the last
target first. -/
theorem sequence_assignments (s : State) {targets : List Word}
    (hlength : words.length = count.toNat)
    (hinside : ∀ target ∈ targets, 0 ≤ target.toInt ∧ target.toInt + words.length ≤ rest.length) :
    sequence (List.replicate targets.length [.dupDown count.val, .vector count .store]).flatten
        (s.withStack (rest ++ targets ++ words)) =
      .ok .next (s.withStack
        (targets.foldr (fun target rest => overwrite rest target.toInt.toNat words) rest ++
          words)) := by
  induction targets using List.reverseRecOn generalizing rest with
  | nil =>
    rw [List.append_nil]
    rfl
  | append_singleton targets target ih =>
    obtain ⟨hlow, hhigh⟩ := hinside target (by simp)
    have hfirst : target.toInt = target.toInt.toNat := (Int.toNat_of_nonneg hlow).symm
    have hrest : target.toInt.toNat + words.length ≤ rest.length := by omega
    have hbelow : target.toInt.toNat + words.length ≤ (rest ++ targets).length := by
      rw [List.length_append]
      omega
    have hothers := @ih (overwrite rest target.toInt.toNat words) fun other hother => by
      rw [length_overwrite hrest]
      exact hinside other (List.mem_append_left _ hother)
    rw [List.length_append, List.length_singleton, List.replicate_succ, List.flatten_cons,
      ← List.append_assoc rest, sequence_assign s hlength hfirst hbelow, overwrite_append hrest,
      hothers, List.foldr_append]
    rfl

/-- **An assignment and its value.** If there are slots for all words from the target on, the words
are stored into these slots and stay on the stack, and no other slot changes. Loading from the
target pushes them once more. -/
theorem sequence_dupDown_store (s : State) (hstack : s.stack.toList = rest ++ [target] ++ words)
    (hlength : words.length = count.toNat) (htarget : target.toInt = first)
    (hinside : first + count.toNat ≤ rest.length) :
    sequence [.dupDown count.val, .vector count .store] s =
        .ok .next (s.withStack (overwrite rest first words ++ words)) ∧
      sequence [.pushImmediate target, .vector count .load]
          (s.withStack (overwrite rest first words ++ words)) =
        .ok .next (s.withStack (overwrite rest first words ++ words ++ words)) := by
  rw [← hlength] at hinside
  have hloaded : ((overwrite rest first words ++ words).drop first).take count.toNat = words := by
    have hbelow : first + words.length ≤ (rest ++ words).length := by
      rw [List.length_append]
      omega
    rw [← overwrite_append hinside, ← hlength, take_drop_overwrite hbelow]
  have hslots : first + count.toNat ≤ (overwrite rest first words ++ words).length := by
    rw [List.length_append, length_overwrite hinside]
    omega
  refine ⟨?_, (sequence_vector_load s htarget hslots).trans (by rw [hloaded])⟩
  rw [State.eq_withStack hstack]
  exact sequence_assign s hlength htarget hinside []

/-- Two words are assigned to the upper two of three slots. -/
theorem sequence_dupDown_store_wordsOnTop :
    ∃ (count : LaneCount) (t : State), count.toNat = 2 ∧
      t.stack.toList = [⟨5⟩, ⟨10⟩, ⟨20⟩] ++ [⟨10⟩, ⟨20⟩] ∧
      sequence [.dupDown 2, .vector count .store] (wordsOnTop [⟨10⟩, ⟨20⟩]) = .ok .next t ∧
      sequence [.pushImmediate ⟨1⟩, .vector count .load] t =
        .ok .next (t.withStack ([⟨5⟩, ⟨10⟩, ⟨20⟩] ++ [⟨10⟩, ⟨20⟩] ++ [⟨10⟩, ⟨20⟩])) := by
  obtain ⟨hassign, hload⟩ := @sequence_dupDown_store ⟨2, by decide, by decide⟩ [⟨5⟩, ⟨6⟩, ⟨7⟩]
    [⟨10⟩, ⟨20⟩] ⟨1⟩ 1 (wordsOnTop [⟨10⟩, ⟨20⟩]) rfl rfl rfl (by decide)
  exact ⟨⟨2, by decide, by decide⟩, _, rfl, rfl, hassign, hload⟩

end

end Exec

end ShaderMachine
