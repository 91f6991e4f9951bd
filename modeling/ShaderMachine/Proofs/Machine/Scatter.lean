import ShaderMachine.Proofs.Machine.Gather

/-!
# Scattering words

`storeSwizzle` takes words from the top of the stack one after the other and stores each of them
beneath, while `vector` with `store` takes them all before it stores the first. As long as all words
are stored beneath the base, both leave the same stack (`Exec.step_storeSwizzle`): the words are
stored from the last to the first, so where several offsets lead to one slot, it holds the word of
the first of them.
-/

namespace ShaderMachine

/-- The words of a list after others have been stored at offsets from a base, the last of them
first. -/
def scattered (base : Int) (writes : List (UInt8 × Word)) (words : List Word) : List Word :=
  writes.foldr (fun write words => words.set (base + write.1.toNat).toNat write.2) words

/-- Words have been stored into a list at offsets from a base: a slot that offsets lead to holds the
word of the first of them, and all others are as before. -/
structure Scattered (base : Int) (offsets : List UInt8) (words before after : List Word) :
    Prop where
  length_eq : after.length = before.length
  written : ∀ offset ∈ offsets,
    after[(base + offset.toNat).toNat]? = words[offsets.idxOf offset]?
  kept : ∀ slot : Nat, (∀ offset ∈ offsets, base + offset.toNat ≠ slot) →
    after[slot]? = before[slot]?

/-- All offsets lead to slots of a list of this length. -/
def Inside (base : Int) (offsets : List UInt8) (length : Nat) : Prop :=
  ∀ offset ∈ offsets, 0 ≤ base + offset.toNat ∧ base + offset.toNat < length

section
variable {base : Int} {offsets : List UInt8} {words before : List Word}

/-- The last offset leads to a slot, and so do those before it. -/
theorem Inside.of_concat {writes : List (UInt8 × Word)} {write : UInt8 × Word} {length : Nat}
    (h : Inside base ((writes ++ [write]).map Prod.fst) length) :
    Inside base (writes.map Prod.fst) length ∧
      0 ≤ base + write.1.toNat ∧ base + write.1.toNat < length := by
  rw [List.map_append, List.map_singleton] at h
  exact ⟨fun offset hmem => h offset (List.mem_append_left _ hmem), h write.1 (by simp)⟩

/-- The last word of a list of writes is stored first. -/
theorem scattered_concat (base : Int) (writes : List (UInt8 × Word)) (write : UInt8 × Word)
    (words : List Word) :
    scattered base (writes ++ [write]) words =
      scattered base writes (words.set (base + write.1.toNat).toNat write.2) :=
  List.foldr_append

/-- Storing from the last word to the first leaves in each slot the word of the first offset that
leads there. -/
theorem scattered_zip (hlength : words.length = offsets.length)
    (hinside : Inside base offsets before.length) :
    Scattered base offsets words before (scattered base (offsets.zip words) before) := by
  induction offsets generalizing words with
  | nil => exact ⟨rfl, nofun, fun _ _ => rfl⟩
  | cons offset offsets ih =>
    obtain ⟨w, words, rfl⟩ := List.exists_cons_of_length_eq_add_one hlength
    obtain ⟨hlow, hhigh⟩ := hinside offset (.head _)
    obtain ⟨hsize, hwritten, hkept⟩ := ih (Nat.succ.inj hlength) fun o ho => hinside o (.tail _ ho)
    -- The first word is stored last, so it stays whatever the other offsets are.
    have hset : scattered base ((offset :: offsets).zip (w :: words)) before =
        (scattered base (offsets.zip words) before).set (base + offset.toNat).toNat w := rfl
    rw [hset]
    refine ⟨List.length_set.trans hsize, fun o ho => ?_, fun slot hslot => ?_⟩
    · by_cases hne : o = offset
      · rw [hne, List.idxOf_cons_self, List.getElem?_set_self (by omega)]
        rfl
      · have ho := (List.mem_cons.1 ho).resolve_left hne
        have hslot : (base + offset.toNat).toNat ≠ (base + o.toNat).toNat := by
          have hbyte : o.toNat ≠ offset.toNat := fun h => hne (UInt8.toNat_inj.1 h)
          have hinside := hinside o (.tail _ ho)
          omega
        rw [List.getElem?_set_ne hslot, List.idxOf_cons_ne _ (Ne.symm hne), hwritten o ho]
        rfl
    · have hslot' := hslot offset (.head _)
      rw [List.getElem?_set_ne (by omega), hkept slot fun o ho => hslot o (.tail _ ho)]

end

namespace Exec

section
variable {base : Int} {writes : List (UInt8 × Word)} {words : List Word}

/-- Words are stored from the last to the first. -/
theorem forM_store (s : State) (hinside : Inside base (writes.map Prod.fst) words.length) :
    (writes.reverse.forM fun write => store (base + write.1.toNat) write.2) (s.withStack words) =
      .ok () (s.withStack (scattered base writes words)) := by
  induction writes using List.reverseRecOn generalizing words with
  | nil => rfl
  | append_singleton writes write ih =>
    obtain ⟨hrest, hwrite⟩ := hinside.of_concat
    rw [scattered_concat, ← ih (by rwa [List.length_set]), List.reverse_concat, forM_cons,
      bind_eq_of_ok (store_eq_ok s hwrite write.2)]

/-- Words are taken and stored one after the other, all of them beneath those that are still to be
taken. -/
theorem forM_pop_store (s : State) (hinside : Inside base (writes.map Prod.fst) words.length)
    (above : List Word) :
    ((writes.map Prod.fst).reverse.forM fun offset => do
        let w ← pop
        store (base + offset.toNat) w) (s.withStack (words ++ (above ++ writes.map Prod.snd))) =
      .ok () (s.withStack (scattered base writes words ++ above)) := by
  induction writes using List.reverseRecOn generalizing words with
  | nil =>
    have habove : above ++ ([] : List (UInt8 × Word)).map Prod.snd = above := List.append_nil _
    rw [habove]
    rfl
  | append_singleton writes write ih =>
    obtain ⟨hrest, hwrite⟩ := hinside.of_concat
    have hpop := pop_append s (words ++ (above ++ writes.map Prod.snd)) write.2
    have hstore := store_append s hwrite write.2 (above ++ writes.map Prod.snd)
    rw [scattered_concat, ← ih (by rwa [List.length_set]), List.map_append, List.map_append,
      List.map_singleton, List.map_singleton, List.reverse_concat, forM_cons,
      ← List.append_assoc above, ← List.append_assoc words]
    exact bind_eq_of_ok ((bind_eq_of_ok hpop).trans hstore)

end

section
variable {offsets : List UInt8} {rest words : List Word} {base : Word}

/-- A scattering store finds its base beneath its words, and stores them in what is beneath the
base. -/
theorem step_storeSwizzle_append (s : State) (hlength : words.length = offsets.length)
    (hinside : Inside base.toInt offsets rest.length) :
    step (.storeSwizzle offsets) (s.withStack (rest ++ [base] ++ words)) =
      .ok .next (s.withStack (scattered base.toInt (offsets.zip words) rest)) := by
  have hfst : (offsets.zip words).map Prod.fst = offsets := List.map_fst_zip (by omega)
  have hsnd : (offsets.zip words).map Prod.snd = words := List.map_snd_zip (by omega)
  have hpeek := readStack_peek_append s rest words base
  rw [hlength] at hpeek
  have hstores := @forM_pop_store base.toInt (offsets.zip words) rest s (by rwa [hfst]) [base]
  rw [hfst, hsnd, ← List.append_assoc] at hstores
  rw [step, storeSwizzle, bind_assoc, bind_eq_of_ok hpeek, bind_assoc, bind_eq_of_ok hstores,
    bind_assoc, bind_eq_of_ok (pop_append ..)]
  rfl

/-- The words with their lanes are the offsets with their words, the other way around. -/
theorem zipIdx_eq_map_zip {count : LaneCount} (hlength : words.length = count.toNat) :
    words.zipIdx = (count.offsets.zip words).map fun write => (write.2, write.1.toNat) := by
  calc words.zipIdx
      = words.zip (List.range count.toNat) := by
        rw [List.zipIdx_eq_zip_range', hlength, ← List.range_eq_range']
    _ = ((count.offsets.map UInt8.toNat).zip words).map Prod.swap := by
        rw [List.zip_swap, count.map_toNat_offsets]
    _ = (count.offsets.zip words).map fun write => (write.2, write.1.toNat) := by
        rw [List.zip_map_left, List.map_map]
        rfl

/-- A vector store takes its words and its base, and stores the words one behind the other. -/
theorem step_vector_store_append (s : State) {count : LaneCount}
    (hlength : words.length = count.toNat)
    (hinside : Inside base.toInt count.offsets rest.length) :
    step (.vector count .store) (s.withStack (rest ++ [base] ++ words)) =
      .ok .next (s.withStack (scattered base.toInt (count.offsets.zip words) rest)) := by
  have hfst : (count.offsets.zip words).map Prod.fst = count.offsets :=
    List.map_fst_zip (by rw [count.length_offsets, hlength])
  have hpops := popMany_append s (rest ++ [base]) words
  have hstores := @forM_store base.toInt (count.offsets.zip words) rest s (by rwa [hfst])
  have hlanes (f : Word × Nat → Exec Unit) : words.zipIdx.reverse.forM f =
      (count.offsets.zip words).reverse.forM fun write => f (write.2, write.1.toNat) := by
    rw [zipIdx_eq_map_zip hlength, ← List.map_reverse]
    exact List.forM_map
  rw [hlength] at hpops
  rw [step, lanes, bind_assoc, bind_eq_of_ok hpops, bind_assoc, bind_eq_of_ok (pop_append ..),
    hlanes]
  exact bind_eq_of_ok hstores

/-- Words that have been stored at distinct offsets are there to be loaded. -/
theorem sequence_loadSwizzle_scattered (s : State) {target : List Word}
    (hlength : words.length = offsets.length) (hinside : Inside base.toInt offsets rest.length)
    (hscattered : Scattered base.toInt offsets words rest target) (hnodup : offsets.Nodup) :
    sequence [.pushImmediate base, .loadSwizzle offsets] (s.withStack target) =
      .ok .next (s.withStack (target ++ words)) := by
  have hgather : gather base.toInt (offsets.map UInt8.toNat) (s.withStack target) =
      .ok () (s.withStack (target ++ words)) := by
    refine gather_append s (by rw [List.length_map, hlength]) fun i hi => ?_
    rw [List.length_map] at hi
    obtain ⟨hlow, hhigh⟩ := hinside _ (List.getElem_mem hi)
    obtain ⟨slot, hslot⟩ := Int.eq_ofNat_of_zero_le hlow
    have hlt : slot < target.length := by
      rw [hscattered.length_eq]
      omega
    have hword := hscattered.written _ (List.getElem_mem hi)
    rw [hslot, Int.toNat_natCast, hnodup.idxOf_getElem] at hword
    refine ⟨slot, by rwa [List.getElem_map], by omega, ?_⟩
    rwa [List.getElem?_append_left hlt]
  rw [sequence_cons (x := push base) rfl, sequence_singleton, push_bind_loadSwizzle,
    bind_eq_of_ok hgather]
  rfl

/-- **Scattering words.** If all offsets lead to slots beneath the base, a swizzled store succeeds
and leaves these slots with the words stored into them. A vector store does the same if the offsets
are those of its lanes. If no offset occurs twice, a swizzled load with the same base and offsets
brings back the words in their order. -/
theorem step_storeSwizzle (s : State) (hstack : s.stack.toList = rest ++ [base] ++ words)
    (hlength : words.length = offsets.length)
    (hinside : ∀ offset ∈ offsets,
      0 ≤ base.toInt + offset.toNat ∧ base.toInt + offset.toNat < rest.length) :
    ∃ target, Scattered base.toInt offsets words rest target ∧
      step (.storeSwizzle offsets) s = .ok .next (s.withStack target) ∧
      (∀ count : LaneCount, offsets = count.offsets →
        step (.vector count .store) s = .ok .next (s.withStack target)) ∧
      (offsets.Nodup →
        sequence [.pushImmediate base, .loadSwizzle offsets] (s.withStack target) =
          .ok .next (s.withStack (target ++ words))) := by
  have hscattered := scattered_zip hlength hinside
  refine ⟨_, hscattered, ?_, ?_, sequence_loadSwizzle_scattered s hlength hinside hscattered⟩
  · rw [State.eq_withStack hstack]
    exact step_storeSwizzle_append s hlength hinside
  · rintro count rfl
    rw [State.eq_withStack hstack]
    exact step_vector_store_append s (hlength.trans count.length_offsets) hinside

end

/-- A state with three words, an address above them, and words to be stored on top. -/
def wordsOnTop (words : List Word) : State :=
  ⟨0, 0, .ofList ([⟨5⟩, ⟨6⟩, ⟨7⟩] ++ [⟨1⟩] ++ words), {}, #[]⟩

/-- Of two words for one slot the first is the one that stays. Words for slots in a row come back
when they are loaded. -/
theorem step_storeSwizzle_wordsOnTop :
    (Scattered 1 [1, 0, 1] [⟨10⟩, ⟨20⟩, ⟨30⟩] [⟨5⟩, ⟨6⟩, ⟨7⟩] [⟨5⟩, ⟨20⟩, ⟨10⟩] ∧
      step (.storeSwizzle [1, 0, 1]) (wordsOnTop [⟨10⟩, ⟨20⟩, ⟨30⟩]) =
        .ok .next ((wordsOnTop [⟨10⟩, ⟨20⟩, ⟨30⟩]).withStack [⟨5⟩, ⟨20⟩, ⟨10⟩])) ∧
    ∃ (count : LaneCount) (t : State), count.toNat = 2 ∧ t.stack.toList = [⟨5⟩, ⟨10⟩, ⟨20⟩] ∧
      step (.storeSwizzle [0, 1]) (wordsOnTop [⟨10⟩, ⟨20⟩]) = .ok .next t ∧
      step (.vector count .store) (wordsOnTop [⟨10⟩, ⟨20⟩]) = .ok .next t ∧
      sequence [.pushImmediate ⟨1⟩, .loadSwizzle [0, 1]] t =
        .ok .next (t.withStack ([⟨5⟩, ⟨10⟩, ⟨20⟩] ++ [⟨10⟩, ⟨20⟩])) := by
  constructor
  · obtain ⟨target, hscattered, hstep, -, -⟩ := @step_storeSwizzle [1, 0, 1] [⟨5⟩, ⟨6⟩, ⟨7⟩]
      [⟨10⟩, ⟨20⟩, ⟨30⟩] ⟨1⟩ (wordsOnTop [⟨10⟩, ⟨20⟩, ⟨30⟩]) rfl rfl (by decide +kernel)
    obtain rfl : target = [⟨5⟩, ⟨20⟩, ⟨10⟩] := by
      injection hstep with _ hstate
      exact congrArg (·.stack.toList) hstate.symm
    exact ⟨hscattered, hstep⟩
  · obtain ⟨target, -, hstep, hvector, hload⟩ := @step_storeSwizzle [0, 1] [⟨5⟩, ⟨6⟩, ⟨7⟩]
      [⟨10⟩, ⟨20⟩] ⟨1⟩ (wordsOnTop [⟨10⟩, ⟨20⟩]) rfl rfl (by decide +kernel)
    obtain rfl : target = [⟨5⟩, ⟨10⟩, ⟨20⟩] := by
      injection hstep with _ hstate
      exact congrArg (·.stack.toList) hstate.symm
    refine ⟨⟨2, by decide, by decide⟩, (wordsOnTop [⟨10⟩, ⟨20⟩]).withStack [⟨5⟩, ⟨10⟩, ⟨20⟩], rfl,
      rfl, hstep, hvector _ rfl, ?_⟩
    exact hload (by decide)

end Exec

end ShaderMachine
