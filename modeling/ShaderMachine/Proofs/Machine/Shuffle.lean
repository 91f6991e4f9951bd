import ShaderMachine.Proofs.Machine.Words

/-!
# Swizzles as selections

A swizzle takes a group of words from the top of the stack and pushes a selection from it: for each
of its indices the word at this position of the group (`select`). Selecting from a selection is
selecting once, by selected indices (`select_select`), so two swizzles in a row are one
(`Exec.sequence_swizzle`).
-/

namespace ShaderMachine

/-- The entries at the indices, in the order of the indices. -/
def select {α : Type} [Inhabited α] (indices : List UInt8) (entries : List α) : List α :=
  indices.map fun i => entries[i.toNat]!

section
variable {α : Type} [Inhabited α] {indices : List UInt8} {entries : List α}

/-- There is an entry for each index. -/
theorem length_select (indices : List UInt8) (entries : List α) :
    (select indices entries).length = indices.length := List.length_map _

/-- A selection from a selection. -/
theorem select_select {p q : List UInt8} (hq : ∀ j ∈ q, j.toNat < p.length) :
    select q (select p entries) = select (select q p) entries := by
  have hentry : ∀ j ∈ q, (select p entries)[j.toNat]! = entries[p[j.toNat]!.toNat]! := by
    intro j hj
    have hj := hq j hj
    rw [getElem!_pos _ _ ((length_select p entries).symm ▸ hj), getElem!_pos p _ hj]
    exact List.getElem_map _
  calc select q (select p entries)
      = q.map fun j => entries[p[j.toNat]!.toNat]! := List.map_congr_left hentry
    _ = select (select q p) entries := by
      rw [select, select, List.map_map]
      rfl

/-- The selection by all positions in their order. -/
theorem select_bytesBelow {b : UInt8} (h : entries.length = b.toNat) :
    select (bytesBelow b) entries = entries := by
  have hrange : select (bytesBelow b) entries = (List.range b.toNat).map fun i => entries[i]! := by
    rw [← map_toNat_bytesBelow, List.map_map]
    rfl
  rw [hrange]
  refine List.ext_getElem (by rw [List.length_map, List.length_range, h]) fun i _ hi => ?_
  rw [List.getElem_map, List.getElem_range, getElem!_pos entries i hi]

/-- The indices that are selected from a list are indices of that list. -/
theorem mem_of_mem_select (h : ∀ i ∈ indices, i.toNat < entries.length) {a : α}
    (ha : a ∈ select indices entries) : a ∈ entries := by
  obtain ⟨i, hi, rfl⟩ := List.mem_map.1 ha
  rw [getElem!_pos entries _ (h i hi)]
  exact List.getElem_mem _

end

namespace Exec

/-- The words at the indices are pushed one after the other. -/
theorem forM_push_select (s : State) {f : UInt8 → Exec Unit} {indices : List UInt8}
    {taken : List Word} (below : List Word)
    (hpush : ∀ i ∈ indices, ∃ w, taken[i.toNat]? = some w ∧ f i = push w) :
    indices.forM f (s.withStack below) = .ok () (s.withStack (below ++ select indices taken)) := by
  induction indices generalizing below with
  | nil =>
    rw [select, List.map_nil, List.append_nil]
    rfl
  | cons i indices ih =>
    obtain ⟨w, hw, hf⟩ := hpush i (.head _)
    have hselect : select (i :: indices) taken = w :: select indices taken := by
      rw [select, List.map_cons, List.getElem!_of_getElem? hw]
      rfl
    have hrest := ih (below ++ [w]) fun j hj => hpush j (.tail _ hj)
    rw [hselect, List.append_cons, forM_cons, hf, bind_eq_of_ok (push_withStack ..), hrest]

/-- A swizzle replaces the words that it takes by a selection from them. -/
theorem step_swizzle_append (s : State) {sources : UInt8} {indices : List UInt8}
    (below : List Word) {taken : List Word} (hsources : sources.toNat ≤ maxLanes)
    (htaken : taken.length = sources.toNat) (hindices : ∀ i ∈ indices, i < sources) :
    step (.swizzle sources indices) (s.withStack (below ++ taken)) =
      .ok .next (s.withStack (below ++ select indices taken)) := by
  have hpops := popMany_append s below taken
  rw [htaken] at hpops
  rw [step, swizzle, if_neg (Nat.not_lt.2 hsources), bind_assoc, bind_eq_of_ok hpops]
  refine bind_eq_of_ok (forM_push_select s below fun i hi => ?_)
  have hi : i.toNat < taken.length := htaken ▸ UInt8.lt_iff_toNat_lt.1 (hindices i hi)
  refine ⟨taken[i.toNat], List.getElem?_eq_getElem hi, ?_⟩
  rw [List.getElem?_eq_getElem hi]

/-- **Two swizzles are one.** If there are enough words on the stack, a swizzle that takes what
another one has pushed leaves what a single swizzle leaves, by the indices that it selects from those
of the other one. A swizzle by all indices in their order changes nothing. No swizzle touches the
words beneath those it takes. -/
theorem sequence_swizzle {sources count : UInt8} {p q : List UInt8} (s : State)
    (hsources : sources.toNat ≤ maxLanes) (hcount : count.toNat ≤ maxLanes)
    (hp : ∀ i ∈ p, i < sources) (hlength : p.length = count.toNat) (hq : ∀ j ∈ q, j < count)
    (hstack : sources.toNat ≤ s.stack.size) :
    ∃ below taken, s.stack.toList = below ++ taken ∧ taken.length = sources.toNat ∧
      step (.swizzle sources p) s = .ok .next (s.withStack (below ++ select p taken)) ∧
      step (.swizzle sources (select q p)) s =
        .ok .next (s.withStack (below ++ select (select q p) taken)) ∧
      sequence [.swizzle sources p, .swizzle count q] s = step (.swizzle sources (select q p)) s ∧
      step (.swizzle sources (bytesBelow sources)) s = .ok .next s := by
  obtain ⟨below, taken, hwords, htaken⟩ : ∃ below taken,
      s.stack.toList = below ++ taken ∧ taken.length = sources.toNat := by
    have hsize : s.stack.toList.length = s.stack.size := Array.length_toList
    refine ⟨_, _, (List.take_append_drop (s.stack.size - sources.toNat) _).symm, ?_⟩
    rw [List.length_drop]
    omega
  have hs := State.eq_withStack hwords
  have hpositions : ∀ j ∈ q, j.toNat < p.length := fun j hj =>
    hlength ▸ UInt8.lt_iff_toNat_lt.1 (hq j hj)
  have hfirst := step_swizzle_append s below hsources htaken hp
  have hsecond := step_swizzle_append s below hcount ((length_select p taken).trans hlength) hq
  have honce := step_swizzle_append s below hsources htaken fun i hi =>
    hp i (mem_of_mem_select hpositions hi)
  have hsame := step_swizzle_append s below hsources htaken fun i hi =>
    UInt8.lt_iff_toNat_lt.2 (toNat_lt_of_mem_bytesBelow hi)
  rw [select_select hpositions] at hsecond
  rw [select_bytesBelow htaken] at hsame
  rw [← hs] at hfirst honce hsame
  refine ⟨below, taken, hwords, htaken, hfirst, honce, ?_, hsame⟩
  rw [sequence, bind_eq_of_ok hfirst, sequence_singleton]
  exact hsecond.trans honce.symm

/-- A state with three words above another one. -/
def threeOnTop : State := ⟨0, 0, ⟨#[⟨9⟩, ⟨10⟩, ⟨20⟩, ⟨30⟩]⟩, {}, #[]⟩

/-- A swizzle that widens three words to four, and one that takes three of these. -/
theorem sequence_swizzle_threeOnTop :
    select [3, 0, 0] [2, 2, 0, 1] = [1, 2, (2 : UInt8)] ∧
      sequence [.swizzle 3 [2, 2, 0, 1], .swizzle 4 [3, 0, 0]] threeOnTop =
        step (.swizzle 3 [1, 2, 2]) threeOnTop ∧
      step (.swizzle 3 [1, 2, 2]) threeOnTop =
        .ok .next (threeOnTop.withStack ([⟨9⟩] ++ [⟨20⟩, ⟨30⟩, ⟨30⟩])) ∧
      step (.swizzle 3 [0, 1, 2]) threeOnTop = .ok .next threeOnTop := by
  obtain ⟨below, taken, -, -, -, -, hsequence, hsame⟩ :=
    @sequence_swizzle 3 4 [2, 2, 0, 1] [3, 0, 0] threeOnTop (by decide) (by decide) (by simp) rfl
      (by simp) (by decide)
  exact ⟨rfl, hsequence, rfl, hsame⟩

end Exec

end ShaderMachine
