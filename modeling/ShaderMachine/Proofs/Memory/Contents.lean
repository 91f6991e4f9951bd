import Mathlib
import ShaderMachine.Memory.Stack

/-!
# Stacks by their words

A stack is determined by its words, so the operations on it are described by what they do to a list:
`Stack.ofList` is the stack of a list, from the bottom to the top. Operations at the top of the stack
have one equation each, for a list that ends in the words they are about; the words beneath these
are not touched. Operations by position have one for a slot of the list.
-/

namespace ShaderMachine.Stack

/-- The stack that holds the words, the lowest first. -/
def ofList (words : List Word) : Stack := ⟨words.toArray⟩

@[simp] theorem toList_ofList (words : List Word) : (ofList words).toList = words := rfl

@[simp] theorem size_ofList (words : List Word) : (ofList words).size = words.length := rfl

/-- A stack is that of its words. -/
theorem eq_ofList_iff {s : Stack} {words : List Word} : s = ofList words ↔ s.toList = words := by
  constructor
  · rintro rfl
    rfl
  · rintro rfl
    rfl

section
variable (below words : List Word)

/-- A word is pushed behind the others. -/
theorem push_ofList (w : Word) : (ofList below).push w = ofList (below ++ [w]) := by
  simp [push, ofList]

/-- The last word is the one that is popped. -/
theorem pop_concat (w : Word) : (ofList (below ++ [w])).pop = .ok (w, ofList below) := by
  simp [pop, ofList]

/-- The top words are the last of all words, in the order in which they stand. -/
theorem topN_append : (ofList (below ++ words)).topN words.length = .ok words := by
  have hextract : ((ofList (below ++ words)).slots.extract below.length
      (below ++ words).length).toList = words := by
    rw [Array.toList_extract, List.extract_eq_take_drop]
    simp [ofList]
  have hbase : (below ++ words).length - words.length = below.length := by simp
  simp only [topN, size_ofList, hbase, hextract]
  exact if_pos (by simp)

/-- The words above `below` are replaced by as many others. -/
theorem replaceTop_append {words' : List Word} (h : words'.length = words.length) :
    (ofList (below ++ words)).replaceTop words' = .ok (ofList (below ++ words')) := by
  have hbase : (below ++ words).length - words'.length = below.length := by simp [h]
  have hshrink : ((ofList (below ++ words)).slots.shrink below.length ++ words').toList =
      below ++ words' := by
    simp [ofList]
  simp only [replaceTop, size_ofList, hbase]
  rw [if_pos (by simp [h])]
  exact congrArg Except.ok (eq_ofList_iff.2 hshrink)

/-- The word beneath those on top of the stack. -/
theorem peek_append (w : Word) : (ofList (below ++ [w] ++ words)).peek words.length = .ok w := by
  have hsize : (ofList (below ++ [w] ++ words)).slots.size = below.length + 1 + words.length := by
    rw [← size, size_ofList, List.length_append, List.length_append, List.length_singleton]
  have hslot : below.length + 1 + words.length - words.length - 1 = below.length := by omega
  rw [peek, dif_pos (by omega)]
  simp only [hsize, hslot]
  simp [ofList]

/-- The copies stand beneath the word that was beneath the words. -/
theorem dupDown_append (w : Word) :
    (ofList (below ++ [w] ++ words)).dupDown words.length =
      .ok (ofList (below ++ words ++ [w] ++ words)) := by
  have hsize : (ofList (below ++ [w] ++ words)).size = below.length + 1 + words.length := by
    rw [size_ofList, List.length_append, List.length_append, List.length_singleton]
  have hbase : below.length + 1 + words.length - (words.length + 1) = below.length := by omega
  have htop : below.length + 1 + words.length - words.length = below.length + 1 := by omega
  have habove : below.length + 1 + words.length - below.length = words.length + 1 := by omega
  rw [dupDown, if_pos (by omega)]
  simp only [hsize, hbase, htop]
  refine congrArg Except.ok (eq_ofList_iff.2 ?_)
  simp [toList, ofList, List.extract_eq_take_drop, habove]

end

section
variable {words : List Word} {slot : Nat} {index : Int} {w : Word}

/-- A slot that has a word is read. -/
theorem get_ofList (h : words[slot]? = some w) : (ofList words).get slot = .ok w := by
  obtain ⟨hslot, rfl⟩ := List.getElem?_eq_some_iff.1 h
  exact dif_pos ⟨Int.natCast_nonneg slot, hslot⟩

/-- A slot that has a word is written, and no other. -/
theorem set_ofList (h : 0 ≤ index ∧ index < words.length) :
    (ofList words).set index w = .ok (ofList (words.set index.toNat w)) := by
  have hset : Slots.set .stack (ofList words).slots index w =
      .ok (words.set index.toNat w).toArray := by
    rw [Slots.set, dif_pos ⟨h.1, (Int.toNat_lt h.1).2 h.2⟩]
    exact congrArg Except.ok (List.set_toArray ..)
  rw [set, hset]
  rfl

end

end ShaderMachine.Stack
