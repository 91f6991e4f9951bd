import ShaderMachine.Memory.Globals
import ShaderMachine.Memory.Stack
import ShaderMachine.Proofs.Checked.Access

/-!
# Memory with raw accesses

The operations on the stack and on the globals check first that there are enough slots, or that an
index is the position of one, and then access the slots without looking again. Here the second half
of each is made of raw accesses. The check always covers them: an operation comes to the same as
the one without raw accesses, with the same faults (`dropTop_eq` and its like).
-/

namespace ShaderMachine.Checked

/-- The height of a stack that must have so many slots. -/
def require (s : Stack) (count : Nat) : Except Abort Nat :=
  if s.size < count then .error (.fault .stackUnderflow) else .ok s.size

/-- The position that an index stands for. -/
def resolve (space : Space) (slots : Array Word) (index : Int) : Except Abort Nat :=
  if Slots.InBounds slots index then .ok index.toNat
  else .error (.fault (.outOfBounds space index slots.size))

def readSlot (space : Space) (slots : Array Word) (index : Int) : Except Abort Word := do
  let position ← resolve space slots index
  Raw.get slots position

def writeSlot (space : Space) (slots : Array Word) (index : Int) (w : Word) :
    Except Abort (Array Word) := do
  let position ← resolve space slots index
  Raw.set slots position w

def dropTop (s : Stack) (count : Nat) : Except Abort Stack := do
  let size ← require s count
  let kept ← Raw.sub size count
  return ⟨s.slots.shrink kept⟩

def topN (s : Stack) (count : Nat) : Except Abort (List Word) := do
  let size ← require s count
  let start ← Raw.sub size count
  let words ← Raw.slice s.slots start s.size
  return words.toList

def peek (s : Stack) (depth : Nat) : Except Abort Word := do
  let count ← Raw.add depth 1
  let size ← require s count
  let above ← Raw.sub size depth
  let position ← Raw.sub above 1
  Raw.get s.slots position

def dupDown (s : Stack) (count : Nat) : Except Abort Stack := do
  let needed ← Raw.add count 1
  let size ← require s needed
  let start ← Raw.sub size count
  let copies ← Raw.slice s.slots start s.size
  let base ← Raw.sub start 1
  let slots ← Raw.splice s.slots base copies
  return ⟨slots⟩

def returnToBottom (s : Stack) (count : Nat) : Except Abort Stack := do
  let size ← require s count
  let start ← Raw.sub size count
  let slots ← Raw.copyWithin s.slots start 0
  return ⟨slots⟩

section
variable {s : Stack} {count : Nat} {α : Type}

/-- With enough slots the check passes on the height of the stack. -/
theorem bind_require_of_le (h : count ≤ s.size) (f : Nat → Except Abort α) :
    (require s count >>= f) = f s.size := by
  rw [require, if_neg (Nat.not_lt.2 h)]
  rfl

/-- With too few slots the check ends everything behind it, so no raw access is made. -/
theorem bind_require_of_lt (h : s.size < count) (f : Nat → Except Abort α) :
    (require s count >>= f) = .error (.fault .stackUnderflow) := by
  rw [require, if_pos h]
  rfl

/-- The slots from some depth to the top can be cut out, since a difference of sizes is no larger
than the first of them. -/
theorem slice_top (s : Stack) (count : Nat) : Raw.slice s.slots (s.size - count) s.size =
    .ok (s.slots.extract (s.size - count) s.size) :=
  Raw.slice_eq_ok (Nat.sub_le _ _) (Nat.le_refl _)

/-- Dropping words is covered by the check: what is kept is not a negative number of slots. -/
theorem dropTop_eq (s : Stack) (count : Nat) :
    dropTop s count = (s.dropTop count).mapError .fault := by
  unfold dropTop Stack.dropTop
  split
  · rename_i h
    rw [bind_require_of_le h, bind_raw (Raw.sub_eq_ok h)]
    rfl
  · rename_i h
    rw [bind_require_of_lt (Nat.lt_of_not_le h)]
    rfl

/-- Reading the top words is covered by the check, which bounds where the part starts. -/
theorem topN_eq (s : Stack) (count : Nat) : topN s count = (s.topN count).mapError .fault := by
  unfold topN Stack.topN
  split
  · rename_i h
    rw [bind_require_of_le h, bind_raw (Raw.sub_eq_ok h), bind_raw (slice_top s count)]
    rfl
  · rename_i h
    rw [bind_require_of_lt (Nat.lt_of_not_le h)]
    rfl

/-- Looking at a depth is covered by the check that one slot more is there. A depth is a byte, so
this one more does not overflow. -/
theorem peek_eq (s : Stack) {depth : Nat} (h : depth < 256) :
    peek s depth = (s.peek depth).mapError .fault := by
  have hcount : depth + 1 < UInt64.size := Nat.lt_trans (Nat.succ_lt_succ h) (by decide)
  unfold peek Stack.peek
  rw [bind_raw (Raw.add_eq_ok hcount)]
  split
  · rename_i h
    have hdepth : depth < s.size := h
    have hposition : s.size - depth - 1 < s.slots.size := by
      unfold Stack.size
      omega
    rw [bind_require_of_le (Nat.succ_le_of_lt hdepth),
      bind_raw (Raw.sub_eq_ok (Nat.le_of_lt hdepth)),
      bind_raw (Raw.sub_eq_ok (Nat.sub_pos_of_lt hdepth)), Raw.get_eq_ok hposition]
    rfl
  · rename_i h
    rw [bind_require_of_lt (Nat.lt_succ_of_le (Nat.le_of_not_lt h))]
    rfl

/-- Copying words down is covered by the check for one slot below them, which is where they are
inserted. -/
theorem dupDown_eq (s : Stack) {count : Nat} (hcount : count < 256) :
    dupDown s count = (s.dupDown count).mapError .fault := by
  have hneeded : count + 1 < UInt64.size := Nat.lt_trans (Nat.succ_lt_succ hcount) (by decide)
  unfold dupDown Stack.dupDown
  rw [bind_raw (Raw.add_eq_ok hneeded)]
  split
  · rename_i h
    have hle : count ≤ s.size := Nat.le_of_succ_le h
    have hone : 1 ≤ s.size - count := Nat.sub_pos_of_lt h
    have hbase : s.size - count - 1 ≤ s.slots.size :=
      Nat.le_trans (Nat.sub_le _ _) (Nat.sub_le _ _)
    rw [bind_require_of_le h, bind_raw (Raw.sub_eq_ok hle),
      bind_raw (slice_top s count), bind_raw (Raw.sub_eq_ok hone),
      bind_raw (Raw.splice_eq_ok _ hbase)]
    rfl
  · rename_i h
    rw [bind_require_of_lt (Nat.lt_of_not_le h)]
    rfl

/-- Moving the top words to the bottom is covered by the check: they are copied to where they
fit. -/
theorem returnToBottom_eq (s : Stack) (count : Nat) :
    returnToBottom s count = (s.returnToBottom count).mapError .fault := by
  unfold returnToBottom Stack.returnToBottom
  split
  · rename_i h
    have hcount : s.slots.size - (s.size - count) = count := Nat.sub_sub_self h
    have hcopy : Raw.copyWithin s.slots (s.size - count) 0 =
        .ok (s.slots.extract (s.size - count) s.size ++ s.slots.extract count s.size) := by
      unfold Raw.copyWithin
      dsimp only
      rw [hcount, Nat.zero_add, if_pos ⟨Nat.sub_le _ _, h⟩, Array.extract_zero, Array.empty_append]
      rfl
    rw [bind_require_of_le h, bind_raw (Raw.sub_eq_ok h), bind_raw hcopy]
    rfl
  · rename_i h
    rw [bind_require_of_lt (Nat.lt_of_not_le h)]
    rfl

end

/-- Reading a slot is covered by the check of its index. -/
theorem readSlot_eq (space : Space) (slots : Array Word) (index : Int) :
    readSlot space slots index = (Slots.get space slots index).mapError .fault := by
  unfold readSlot Slots.get resolve
  split
  · rename_i h
    show (liftM (Raw.get slots index.toNat) : Except Abort Word) = _
    rw [Raw.get_eq_ok h.2]
    rfl
  · rfl

/-- Writing a slot is covered by the check of its index. -/
theorem writeSlot_eq (space : Space) (slots : Array Word) (index : Int) (w : Word) :
    writeSlot space slots index w = (Slots.set space slots index w).mapError .fault := by
  unfold writeSlot Slots.set resolve
  split
  · rename_i h
    show (liftM (Raw.set slots index.toNat w) : Except Abort (Array Word)) = _
    rw [Raw.set_eq_ok w h.2]
    rfl
  · rfl

end ShaderMachine.Checked
