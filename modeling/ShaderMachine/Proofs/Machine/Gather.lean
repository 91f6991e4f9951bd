import ShaderMachine.Proofs.Machine.Words

/-!
# Gathering words

`loadSwizzle`, and `vector` with `load` or `loadGlobal`, push several words. They are as good as the
instructions that push these words one by one (`Exec.step_gathers`), which has a consequence for a
vector load near the top of the stack: the words that the first lanes have pushed are then slots
like all others, so the lanes whose slots were not on the stack before read these words
(`Exec.step_vector_load`).
-/

namespace ShaderMachine

/-- The lanes of a vector as offsets. -/
def LaneCount.offsets (count : LaneCount) : List UInt8 := bytesBelow count.val

/-- There is an offset for each lane. -/
theorem LaneCount.length_offsets (count : LaneCount) : count.offsets.length = count.toNat :=
  length_bytesBelow count.val

/-- The offsets of lanes are the numbers below the number of lanes. -/
theorem LaneCount.map_toNat_offsets (count : LaneCount) :
    count.offsets.map UInt8.toNat = List.range count.toNat := map_toNat_bytesBelow count.val

/-- Different lanes have different offsets. -/
theorem LaneCount.nodup_offsets (count : LaneCount) : count.offsets.Nodup :=
  .of_map UInt8.toNat (count.map_toNat_offsets ▸ List.nodup_range)

/-- The offset of a lane is its number. -/
theorem LaneCount.toNat_getElem_offsets (count : LaneCount) {i : Nat}
    (h : i < count.offsets.length) : count.offsets[i].toNat = i := by
  have hmap : (count.offsets.map UInt8.toNat)[i]? = (List.range count.toNat)[i]? := by
    rw [count.map_toNat_offsets]
  rw [List.getElem?_map, List.getElem?_eq_getElem h,
    List.getElem?_range (count.length_offsets ▸ h)] at hmap
  exact Option.some.inj hmap

/-- A word holds an integer in the range of its signed view. -/
theorem Word.toInt_ofSigned_ofInt {i : Int} (hlow : -2 ^ 31 ≤ i) (hhigh : i ≤ 2 ^ 31 - 1) :
    (ofSigned (.ofInt i)).toInt = i := by
  rw [toInt, signed_ofSigned]
  exact Int32.toInt_ofInt_of_le hlow (by omega)

namespace Exec

/-! ## Gathering as loads one by one -/

/-- A word pushed as an address and loaded. -/
theorem sequence_load (address : Word) (is : List Instruction) :
    sequence ([.pushImmediate address, .plain .load] ++ is) =
      (do let w ← load address.toInt; push w; sequence is) := by
  have hload : step (.plain .load) = (do plain .load; return .next) := rfl
  have hpush : step (.pushImmediate address) = (do push address; return .next) := rfl
  rw [List.cons_append, List.singleton_append, sequence_cons hpush, sequence_cons hload, plain]
  simp only [bind_assoc, push_bind_pop]

/-- The words at offsets from a base, each loaded from an address of its own. -/
theorem gather_eq_sequence {base : Int} {offsets : List UInt8} (hlow : -2 ^ 31 ≤ base)
    (h : ∀ offset ∈ offsets, base + offset.toNat ≤ 2 ^ 31 - 1) :
    (do gather base (offsets.map UInt8.toNat); return .next) =
      sequence (offsets.flatMap fun offset =>
        [.pushImmediate (.ofSigned (.ofInt (base + offset.toNat))), .plain .load]) := by
  have hgather : gather base (offsets.map UInt8.toNat) =
      offsets.forM (fun offset => do let w ← load (base + offset.toNat); push w) := List.forM_map
  rw [hgather, sequence_flatMap]
  intro offset hoffset is
  rw [sequence_load, Word.toInt_ofSigned_ofInt (by omega) (h offset hoffset), bind_assoc]

/-- A base that is pushed for the words at offsets from it. -/
theorem push_bind_loadSwizzle (base : Word) (offsets : List UInt8) :
    (do push base; step (.loadSwizzle offsets)) =
      (do gather base.toInt (offsets.map UInt8.toNat); return .next) := by
  simp only [step, loadSwizzle, bind_assoc, push_bind_pop]

/-- Lanes are offsets from the base of a load. -/
theorem vector_load_eq (count : LaneCount) :
    step (.vector count .load) = step (.loadSwizzle count.offsets) := by
  rw [step, step, lanes, loadSwizzle, count.map_toNat_offsets]

/-- A vector of globals is as many loads of globals, as long as their indices are bytes. -/
theorem vector_loadGlobal_eq {count : LaneCount} {index : UInt8}
    (h : index.toNat + count.toNat - 1 ≤ 255) :
    step (.vector count (.loadGlobal index)) =
      sequence (count.offsets.map fun lane => .loadGlobal (index + lane)) := by
  have hlanes : lanes count.toNat (.loadGlobal index) = count.offsets.forM (fun lane => do
      let w ← loadGlobal (index.toNat + lane.toNat); push w) := by
    rw [lanes, ← count.map_toNat_offsets]
    exact List.forM_map
  rw [step, hlanes, List.map_eq_flatMap, sequence_flatMap]
  intro lane hlane is
  have hlt : lane.toNat < count.toNat := toNat_lt_of_mem_bytesBelow hlane
  have hindex : (index + lane).toNat = index.toNat + lane.toNat := by
    rw [UInt8.toNat_add]
    omega
  have hstep : step (.loadGlobal (index + lane)) =
      (do (do let w ← loadGlobal (index.toNat + lane.toNat); push w); return .next) := by
    rw [step, hindex, bind_assoc]
    rfl
  exact sequence_cons hstep is

/-- **Gathering one by one.** From the stack beneath its base, a swizzled load does what loads of its
words do, each from an address that is pushed for it, and ends where the first of these faults. The
addresses have to be signed words. A vector load is the swizzled load of all offsets below the number
of lanes, and a vector of globals is as many loads of globals. -/
theorem step_gathers :
    (∀ (base : Word) (offsets : List UInt8) (s : State),
      (∀ offset ∈ offsets, base.toInt + offset.toNat ≤ 2 ^ 31 - 1) →
      step (.loadSwizzle offsets) { s with stack := s.stack.push base } =
        sequence (offsets.flatMap fun offset =>
          [.pushImmediate (.ofSigned (.ofInt (base.toInt + offset.toNat))), .plain .load]) s) ∧
    (∀ count : LaneCount, step (.vector count .load) = step (.loadSwizzle count.offsets)) ∧
    ∀ (count : LaneCount) (index : UInt8), index.toNat + count.toNat - 1 ≤ 255 →
      step (.vector count (.loadGlobal index)) =
        sequence (count.offsets.map fun lane => .loadGlobal (index + lane)) := by
  refine ⟨fun base offsets s h => ?_, vector_load_eq, fun _ _ => vector_loadGlobal_eq⟩
  have hlow : -2 ^ 31 ≤ base.toInt := Int32.le_toInt base.signed
  rw [← gather_eq_sequence hlow h, ← push_bind_loadSwizzle]
  rfl

/-- A state with one word on its stack. -/
def oneWord : State := ⟨0, 0, ⟨#[⟨5⟩]⟩, {}, #[]⟩

/-- The second load finds the word that the first one has pushed, and the third finds none. -/
theorem step_gathers_oneWord :
    step (.loadSwizzle [0, 1, 9]) { oneWord with stack := oneWord.stack.push ⟨0⟩ } =
      sequence [.pushImmediate ⟨0⟩, .plain .load, .pushImmediate ⟨1⟩, .plain .load,
        .pushImmediate ⟨9⟩, .plain .load] oneWord ∧
    step (.loadSwizzle [0, 1, 9]) { oneWord with stack := oneWord.stack.push ⟨0⟩ } =
      .error (.outOfBounds .stack 9 3) { oneWord with stack := ⟨#[⟨5⟩, ⟨5⟩, ⟨5⟩]⟩ } ∧
    ∃ count : LaneCount, count.toNat = 2 ∧
      step (.vector count .load) = step (.loadSwizzle [0, 1]) ∧
      step (.vector count (.loadGlobal 254)) = sequence [.loadGlobal 254, .loadGlobal 255] := by
  have haddress : ∀ offset ∈ [0, 1, (9 : UInt8)],
      (⟨0⟩ : Word).toInt + offset.toNat ≤ 2 ^ 31 - 1 := by
    intro offset _
    have hbase : (⟨0⟩ : Word).toInt = 0 := rfl
    have hoffset := offset.toNat_lt
    omega
  refine ⟨step_gathers.1 ⟨0⟩ [0, 1, 9] oneWord haddress, rfl, ⟨2, by decide, by decide⟩, rfl, ?_⟩
  exact ⟨step_gathers.2.1 _, step_gathers.2.2 _ 254 (by decide)⟩

/-! ## Gathering from a growing stack -/

/-- Words are gathered one after the other. -/
theorem gather_cons (base : Int) (offset : Nat) (offsets : List Nat) :
    gather base (offset :: offsets) =
      (do let w ← load (base + offset); push w; gather base offsets) := by
  rw [gather, forM_cons, bind_assoc]
  rfl

/-- The words that a gather pushes are words of the stack that it leaves: each of them stands in its
slot already when it is pushed, and slots keep their words. -/
theorem gather_append (s : State) {base : Int} {offsets : List Nat} {below loaded : List Word}
    (hlength : loaded.length = offsets.length)
    (hslots : ∀ i (hi : i < offsets.length), ∃ slot : Nat, base + offsets[i] = slot ∧
      slot < below.length + i ∧ (below ++ loaded)[slot]? = loaded[i]?) :
    gather base offsets (s.withStack below) = .ok () (s.withStack (below ++ loaded)) := by
  induction offsets generalizing below loaded with
  | nil =>
    obtain rfl := List.length_eq_zero_iff.1 hlength
    rw [List.append_nil]
    rfl
  | cons offset offsets ih =>
    obtain ⟨w, loaded, rfl⟩ := List.exists_cons_of_length_eq_add_one hlength
    obtain ⟨slot, hslot, hlt, hw⟩ := hslots 0 (Nat.succ_pos _)
    have hload : load (base + offset) (s.withStack below) = .ok w (s.withStack below) := by
      rw [show base + offset = slot from hslot]
      refine load_eq_ok s ?_
      rwa [List.getElem?_append_left hlt] at hw
    have hrest : gather base offsets (s.withStack (below ++ [w])) =
        .ok () (s.withStack (below ++ [w] ++ loaded)) := by
      refine ih (Nat.succ.inj hlength) fun i hi => ?_
      obtain ⟨slot, hslot, hlt, hw⟩ := hslots (i + 1) (Nat.succ_lt_succ hi)
      refine ⟨slot, hslot, ?_, ?_⟩
      · rw [List.length_append, List.length_singleton]
        omega
      · rwa [List.append_assoc]
    rw [List.append_cons, ← hrest, gather_cons, bind_eq_of_ok hload,
      bind_eq_of_ok (push_withStack ..)]

end Exec

/-- So many words of a list from a position on, which begin again at this position where the list
ends. -/
def window (words : List Word) (first count : Nat) : List Word :=
  (List.range count).map fun i => words[first + i % (words.length - first)]!

section
variable {words : List Word} {first count i : Nat}

/-- A window has as many words as it is asked for. -/
theorem length_window (words : List Word) (first count : Nat) :
    (window words first count).length = count := by
  rw [window, List.length_map, List.length_range]

/-- A word of a window is the one at its place, counted again from the start of the window behind
the end of the list. -/
theorem getElem?_window (hfirst : first < words.length) (h : i < count) :
    (window words first count)[i]? = words[first + i % (words.length - first)]? := by
  have hmod : i % (words.length - first) < words.length - first := Nat.mod_lt _ (by omega)
  have hslot : first + i % (words.length - first) < words.length := by omega
  rw [window, List.getElem?_map, List.getElem?_range h, Option.map_some,
    getElem!_pos words _ hslot, List.getElem?_eq_getElem hslot]

/-- A list with its window behind it has the words of the window from `first` on. -/
theorem getElem?_append_window (hfirst : first < words.length) (h : i < count) :
    (words ++ window words first count)[first + i]? = (window words first count)[i]? := by
  rw [getElem?_window hfirst h]
  by_cases hi : first + i < words.length
  · rw [List.getElem?_append_left hi, Nat.mod_eq_of_lt (by omega)]
  · have hbehind : first + i - words.length = i - (words.length - first) := by omega
    rw [List.getElem?_append_right (by omega), hbehind, getElem?_window hfirst (by omega),
      Nat.mod_eq_sub_mod (show words.length - first ≤ i by omega)]

/-- The window does not begin again if the list has the words. -/
theorem window_eq_iff (hfirst : first < words.length) :
    window words first count = (words.drop first).take count ↔ first + count ≤ words.length := by
  constructor
  · intro h
    have hlength := congrArg List.length h
    rw [length_window, List.length_take, List.length_drop] at hlength
    omega
  · intro h
    refine List.ext_getElem? fun i => ?_
    by_cases hi : i < count
    · rw [getElem?_window hfirst hi, Nat.mod_eq_of_lt (by omega), List.getElem?_take_of_lt hi,
        List.getElem?_drop]
    · have hwindow : (window words first count).length ≤ i := by
        rw [length_window]
        omega
      have htake : ((words.drop first).take count).length ≤ i := by
        rw [List.length_take]
        omega
      rw [List.getElem?_eq_none hwindow, List.getElem?_eq_none htake]

end

namespace Exec

/-- Lanes that start at a slot push the window from there on, whose words come again where the stack
has ended before. -/
theorem gather_range (s : State) {below : List Word} {first : Nat} (h : first < below.length)
    (count : Nat) :
    gather first (List.range count) (s.withStack below) =
      .ok () (s.withStack (below ++ window below first count)) := by
  have hlength : (window below first count).length = (List.range count).length := by
    rw [length_window, List.length_range]
  refine gather_append s hlength fun i hi => ⟨first + i, ?_, ?_, ?_⟩
  · rw [List.getElem_range, Int.natCast_add]
  · omega
  · exact getElem?_append_window h (List.length_range (n := count) ▸ hi)

/-- The first lane faults if the base is no slot. -/
theorem gather_range_of_not (s : State) {below : List Word} {base : Int}
    (h : ¬ (0 ≤ base ∧ base < below.length)) {count : Nat} (hcount : 0 < count) :
    gather base (List.range count) (s.withStack below) =
      .error (.outOfBounds .stack base below.length) (s.withStack below) := by
  obtain ⟨count, rfl⟩ := Nat.exists_eq_succ_of_ne_zero (Nat.ne_of_gt hcount)
  rw [List.range_succ_eq_map, gather_cons, Int.natCast_zero, Int.add_zero,
    bind_eq_of_error (load_eq_error s h)]

/-- **Loads on lanes.** A vector load succeeds exactly if its base is a slot beneath it, for only the
first lane can fault. The lanes push the words from this slot on. If there are fewer words than
lanes, these are the same words again and again, since the lanes that are left read what earlier
lanes have pushed. -/
theorem step_vector_load (count : LaneCount) (s : State) {below : List Word} {base : Word}
    (h : s.stack.toList = below ++ [base]) :
    ((∃ flow t, step (.vector count .load) s = .ok flow t) ↔
      0 ≤ base.toInt ∧ base.toInt < below.length) ∧
    (¬ (0 ≤ base.toInt ∧ base.toInt < below.length) →
      step (.vector count .load) s =
        .error (.outOfBounds .stack base.toInt below.length) (s.withStack below)) ∧
    ∀ first : Nat, base.toInt = first → first < below.length →
      step (.vector count .load) s =
        .ok .next (s.withStack (below ++ window below first count.toNat)) ∧
      (window below first count.toNat = (below.drop first).take count.toNat ↔
        first + count.toNat ≤ below.length) := by
  have hstep : step (.vector count .load) s =
      (do gather base.toInt (List.range count.toNat); return Flow.next) (s.withStack below) := by
    rw [State.eq_withStack h, step, lanes, bind_assoc, bind_eq_of_ok (pop_append s below base)]
    rfl
  have hinside : ∀ first : Nat, base.toInt = first → first < below.length →
      step (.vector count .load) s =
        .ok .next (s.withStack (below ++ window below first count.toNat)) := by
    intro first hbase hfirst
    rw [hstep, hbase, bind_eq_of_ok (gather_range s hfirst _)]
    rfl
  have houtside : ¬ (0 ≤ base.toInt ∧ base.toInt < below.length) →
      step (.vector count .load) s =
        .error (.outOfBounds .stack base.toInt below.length) (s.withStack below) := by
    intro hbase
    have hcount : 0 < count.toNat := count.pos
    rw [hstep, bind_eq_of_error (gather_range_of_not s hbase hcount)]
  refine ⟨⟨?_, ?_⟩, houtside, fun first hbase hfirst => ?_⟩
  · rintro ⟨flow, t, hok⟩
    by_contra hbase
    rw [houtside hbase] at hok
    cases hok
  · rintro ⟨hlow, hhigh⟩
    obtain ⟨first, hfirst⟩ := Int.eq_ofNat_of_zero_le hlow
    exact ⟨_, _, hinside first hfirst (by omega)⟩
  · exact ⟨hinside first hbase hfirst, window_eq_iff hfirst⟩

/-- A state with three words beneath an address on its stack. -/
def addressOnTop (address : Word) : State := ⟨0, 0, ⟨#[⟨5⟩, ⟨6⟩, ⟨7⟩, address]⟩, {}, #[]⟩

/-- Five lanes from the second of three words on push the last two words again and again. -/
theorem step_vector_load_addressOnTop :
    ∃ count : LaneCount, count.toNat = 5 ∧
      (addressOnTop ⟨1⟩).stack.toList = [⟨5⟩, ⟨6⟩, ⟨7⟩] ++ [⟨1⟩] ∧
      step (.vector count .load) (addressOnTop ⟨1⟩) = .ok .next
        ((addressOnTop ⟨1⟩).withStack ([⟨5⟩, ⟨6⟩, ⟨7⟩] ++ [⟨6⟩, ⟨7⟩, ⟨6⟩, ⟨7⟩, ⟨6⟩])) ∧
      step (.vector count .load) (addressOnTop ⟨3⟩) =
        .error (.outOfBounds .stack 3 3) ((addressOnTop ⟨3⟩).withStack [⟨5⟩, ⟨6⟩, ⟨7⟩]) := by
  refine ⟨⟨5, by decide, by decide⟩, rfl, rfl, ?_, ?_⟩
  · obtain ⟨-, -, hload⟩ := @step_vector_load ⟨5, by decide, by decide⟩ (addressOnTop ⟨1⟩)
      [⟨5⟩, ⟨6⟩, ⟨7⟩] ⟨1⟩ rfl
    exact (hload 1 rfl (by decide)).1
  · obtain ⟨-, hfault, -⟩ := @step_vector_load ⟨5, by decide, by decide⟩ (addressOnTop ⟨3⟩)
      [⟨5⟩, ⟨6⟩, ⟨7⟩] ⟨3⟩ rfl
    exact hfault (by decide)

/-- The lanes do not all read what stood on the stack before: two lanes from the last word on
succeed, although there is only one word. -/
theorem not_forall_step_vector_load :
    ¬ ∀ (count : LaneCount) (s : State) (below : List Word) (base : Word),
      s.stack.toList = below ++ [base] →
      ((∃ flow t, step (.vector count .load) s = .ok flow t) ↔
        0 ≤ base.toInt ∧ base.toInt + count.toNat ≤ below.length) ∧
      ∀ flow t, step (.vector count .load) s = .ok flow t →
        t.stack.toList = below ++ (below.drop base.toInt.toNat).take count.toNat := by
  intro h
  have hiff := (h ⟨2, by decide, by decide⟩ (addressOnTop ⟨2⟩) [⟨5⟩, ⟨6⟩, ⟨7⟩] ⟨2⟩ rfl).1
  exact absurd (hiff.1 ⟨_, _, rfl⟩).2 (by decide)

end Exec

end ShaderMachine
