import ShaderMachine.Machine.Step
import ShaderMachine.Proofs.Memory.Contents
import ShaderMachine.Proofs.Memory.Faults

/-!
# The words on the stack

What computations do to a stack that is given by its words. Those at the top of the stack have one
equation each, for a list that ends in the words they take, and those by position have one for a
slot of the list. `Exec.sequence` executes several instructions, so that a law about them is an
equation as well. Instructions list positions as bytes, and `bytesBelow` lists all of them.
-/

namespace ShaderMachine

/-- The bytes below a byte, in ascending order. -/
def bytesBelow (b : UInt8) : List UInt8 := (List.range b.toNat).map .ofNat

/-- There are as many bytes below a byte as it says. -/
theorem length_bytesBelow (b : UInt8) : (bytesBelow b).length = b.toNat := by
  rw [bytesBelow, List.length_map, List.length_range]

/-- The bytes below a byte are the numbers below its number. -/
theorem map_toNat_bytesBelow (b : UInt8) : (bytesBelow b).map UInt8.toNat = List.range b.toNat := by
  have hbyte : ∀ i ∈ List.range b.toNat, (UInt8.ofNat i).toNat = i := fun i hi =>
    UInt8.toNat_ofNat_of_lt (Nat.lt_trans (List.mem_range.1 hi) b.toNat_lt)
  rw [bytesBelow, List.map_map]
  exact (List.map_congr_left hbyte).trans (List.map_id _)

/-- The bytes below a byte are smaller. -/
theorem toNat_lt_of_mem_bytesBelow {b i : UInt8} (h : i ∈ bytesBelow b) : i.toNat < b.toNat :=
  List.mem_range.1 (map_toNat_bytesBelow b ▸ List.mem_map_of_mem h)

/-- The state with other words on its stack. -/
def State.withStack (s : State) (words : List Word) : State := { s with stack := .ofList words }

/-- A state is the one with its own words. -/
theorem State.eq_withStack {s : State} {words : List Word} (h : s.stack.toList = words) :
    s = s.withStack words := by
  rw [withStack, ← Stack.eq_ofList_iff.2 h]

namespace Exec

section
variable {α β : Type} {x : Exec α} {f : α → Exec β} {s t : State}

/-- What follows a computation that succeeds goes on from the state that it leaves. -/
theorem bind_eq_of_ok {a : α} (h : x s = .ok a t) : (x >>= f) s = f a t := by
  simp only [Bind.bind, EStateM.bind, h]

/-- A fault ends a sequence. -/
theorem bind_eq_of_error {k : FaultKind} (h : x s = .error k t) : (x >>= f) s = .error k t := by
  simp only [Bind.bind, EStateM.bind, h]

/-- A loop begins with its first round. -/
theorem forM_cons (a : α) (l : List α) (g : α → Exec Unit) :
    (a :: l).forM g = (do g a; l.forM g) := rfl

end

/-! ## Words at the top -/

/-- A word is pushed behind those of the stack. -/
theorem push_withStack (s : State) (words : List Word) (w : Word) :
    push w (s.withStack words) = .ok () (s.withStack (words ++ [w])) := by
  simp only [push, State.withStack, Stack.push_ofList]

/-- The last word of the stack is popped. -/
theorem pop_append (s : State) (below : List Word) (w : Word) :
    pop (s.withStack (below ++ [w])) = .ok w (s.withStack below) := by
  simp only [pop, State.withStack, Stack.pop_concat]

/-- A word that has been pushed is the next one to be taken. -/
theorem push_bind_pop {α : Type} (w : Word) (f : Word → Exec α) :
    (do push w; let w ← pop; f w) = f w := by
  funext s
  have hpush : push w s = .ok () { s with stack := s.stack.push w } := rfl
  have hpop : pop { s with stack := s.stack.push w } = .ok w s := by
    simp [pop, Stack.pop, Stack.push]
  rw [bind_eq_of_ok hpush, bind_eq_of_ok hpop]

/-- The words on top of the stack are taken together. -/
theorem popMany_append (s : State) (below words : List Word) :
    popMany words.length (s.withStack (below ++ words)) = .ok words (s.withStack below) := by
  induction words using List.reverseRecOn with
  | nil =>
    rw [List.append_nil]
    rfl
  | append_singleton words w ih =>
    rw [List.length_append, List.length_singleton, popMany, ← List.append_assoc,
      bind_eq_of_ok (pop_append ..), bind_eq_of_ok ih]
    rfl

/-- The top words are the last of the stack. -/
theorem readStack_topN_append (s : State) (below words : List Word) :
    readStack (·.topN words.length) (s.withStack (below ++ words)) =
      .ok words (s.withStack (below ++ words)) := by
  simp only [readStack, State.withStack, Stack.topN_append]

/-- The top words are replaced by as many others, and those beneath them stay. -/
theorem changeStack_replaceTop_append (s : State) (below : List Word) {words words' : List Word}
    (h : words'.length = words.length) :
    changeStack (·.replaceTop words') (s.withStack (below ++ words)) =
      .ok () (s.withStack (below ++ words')) := by
  simp only [changeStack, State.withStack, Stack.replaceTop_append below words h]

/-- The word beneath those on top of the stack. -/
theorem readStack_peek_append (s : State) (below words : List Word) (w : Word) :
    readStack (·.peek words.length) (s.withStack (below ++ [w] ++ words)) =
      .ok w (s.withStack (below ++ [w] ++ words)) := by
  simp only [readStack, State.withStack, Stack.peek_append]

/-- Copies of the words on top are put beneath the word beneath them. -/
theorem changeStack_dupDown_append (s : State) (below words : List Word) (w : Word) :
    changeStack (·.dupDown words.length) (s.withStack (below ++ [w] ++ words)) =
      .ok () (s.withStack (below ++ words ++ [w] ++ words)) := by
  simp only [changeStack, State.withStack, Stack.dupDown_append]

/-! ## Words by position -/

/-- A load reads the word in its slot. -/
theorem load_eq_ok (s : State) {words : List Word} {slot : Nat} {w : Word}
    (h : words[slot]? = some w) :
    load slot (s.withStack words) = .ok w (s.withStack words) := by
  simp only [load, readStack, State.withStack, Stack.get_ofList h]

/-- A load from no slot faults and changes nothing. -/
theorem load_eq_error (s : State) {words : List Word} {index : Int}
    (h : ¬ (0 ≤ index ∧ index < words.length)) :
    load index (s.withStack words) =
      .error (.outOfBounds .stack index words.length) (s.withStack words) := by
  have hget : (Stack.ofList words).get index = .error (.outOfBounds .stack index words.length) :=
    Stack.get_eq_error_iff.2 ⟨fun ⟨hlow, hhigh⟩ => h ⟨hlow, (Int.toNat_lt hlow).1 hhigh⟩, rfl⟩
  simp only [load, readStack, State.withStack, hget]

/-- A store writes its slot and no other. -/
theorem store_eq_ok (s : State) {words : List Word} {index : Int}
    (h : 0 ≤ index ∧ index < words.length) (w : Word) :
    store index w (s.withStack words) = .ok () (s.withStack (words.set index.toNat w)) := by
  simp only [store, changeStack, State.withStack, Stack.set_ofList h]

/-- The words above a slot stay as they are. -/
theorem store_append (s : State) {words : List Word} {index : Int}
    (h : 0 ≤ index ∧ index < words.length) (w : Word) (above : List Word) :
    store index w (s.withStack (words ++ above)) =
      .ok () (s.withStack (words.set index.toNat w ++ above)) := by
  have hlength : index < (words ++ above).length := by
    rw [List.length_append]
    omega
  rw [store_eq_ok s ⟨h.1, hlength⟩, List.set_append_left _ _ (by omega)]

/-! ## Several instructions -/

/-- Executes instructions one after the other, up to one that returns or faults. -/
def sequence : List Instruction → Exec Flow
  | [] => return .next
  | i :: instructions => do
    match ← step i with
    | .next => sequence instructions
    | .finish count => return .finish count

section
variable {α : Type} {i : Instruction} {x : Exec Unit}

/-- An instruction that goes on is followed by the others. -/
theorem sequence_cons (h : step i = (do x; return .next)) (is : List Instruction) :
    sequence (i :: is) = (do x; sequence is) := by
  simp only [sequence, h, bind_assoc, pure_bind]

/-- A sequence of one instruction is this instruction. -/
theorem sequence_singleton (i : Instruction) : sequence [i] = step i := by
  rw [sequence, ← bind_pure (step i), bind_assoc]
  refine bind_congr fun flow => ?_
  cases flow <;> rfl

/-- Groups of instructions, one for each element of a list, are a loop over the list. -/
theorem sequence_flatMap {f : α → List Instruction} {g : α → Exec Unit} {l : List α}
    (h : ∀ a ∈ l, ∀ is, sequence (f a ++ is) = (do g a; sequence is)) :
    sequence (l.flatMap f) = (do l.forM g; return .next) := by
  induction l with
  | nil => rfl
  | cons a l ih =>
    rw [List.flatMap_cons, h a (.head _), ih fun b hb => h b (.tail _ hb), forM_cons, bind_assoc]

end

end Exec

end ShaderMachine
