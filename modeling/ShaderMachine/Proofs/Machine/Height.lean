import ShaderMachine.Proofs.Machine.Convention
import ShaderMachine.Proofs.Machine.Words
import ShaderMachine.Proofs.Memory.Sizes

/-!
# The height of the stack

An instruction by itself tells how many slots it needs on the stack (`Instruction.need`) and by how
much it changes the height of the stack (`Instruction.delta`). `Exec.shifts_step` says that it
underflows exactly if there are fewer slots than it needs, and that it changes the height by its
delta if it does not fault. The height of a run is therefore that of its frame and the deltas of the
instructions that it has executed (`height_of_run`).

The proofs put the effects of computations together as the instructions put together their
operations. A computation that only moves words (`Exec.Moves`) succeeds on every stack with enough
slots, so what follows it can ask for more of them. One that can fault in other ways (`Exec.Shifts`)
cannot be followed by such a demand: the later underflow would be hidden by the earlier fault.
-/

namespace ShaderMachine

/-! ## The effect of an instruction -/

/-- The number of slots that the operation needs. -/
def PlainOp.need : PlainOp → Nat
  | binary _ | store | storeGlobal => 2
  | unary _ | debugPrint | dup | load => 1
  | reserved _ | nop => 0

/-- The change of the height by the operation. -/
def PlainOp.delta : PlainOp → Int
  | store | storeGlobal => -2
  | binary _ | debugPrint => -1
  | unary _ | reserved _ | load | nop => 0
  | dup => 1

/-- The number of slots that the operation needs on so many lanes. -/
def LaneOp.need (lanes : Nat) : LaneOp → Nat
  | binary _ => 2 * lanes
  | unary _ => lanes
  | load => 1
  | store => lanes + 1
  | loadGlobal _ | branch _ => 0
  | conditionalBranch _ => 1

/-- The change of the height by the operation on so many lanes. -/
def LaneOp.delta (lanes : Nat) : LaneOp → Int
  | binary _ => -lanes
  | unary _ => 0
  | load => lanes - 1
  | store => -(lanes + 1)
  | loadGlobal _ => lanes
  | branch _ => 0
  | conditionalBranch _ => -1

/-- The number of slots that the instruction needs. -/
def Instruction.need : Instruction → Nat
  | plain op => op.need
  | branch _ => 0
  | conditionalBranch _ => 1
  | dupDown count => count.toNat + 1
  | loadGlobal _ | pushImmediate _ => 0
  | pop count | ret count => count.toNat
  | loadSwizzle _ => 1
  | storeSwizzle offsets => offsets.length + 1
  | swizzle sources _ => sources.toNat
  | vector lanes op => op.need lanes.toNat

/-- The change of the height by the instruction. -/
def Instruction.delta : Instruction → Int
  | plain op => op.delta
  | branch _ => 0
  | conditionalBranch _ => -1
  | dupDown count => count.toNat
  | loadGlobal _ | pushImmediate _ => 1
  | pop count => -count.toNat
  | ret _ => 0
  | loadSwizzle offsets => offsets.length - 1
  | storeSwizzle offsets => -(offsets.length + 1)
  | swizzle sources indices => indices.length - sources.toNat
  | vector lanes op => op.delta lanes.toNat

/-- The change of the height by instructions that are executed one after the other. -/
def totalDelta (instructions : List Instruction) : Int := (instructions.map Instruction.delta).sum

/-- Without instructions the height does not change. -/
theorem totalDelta_nil : totalDelta [] = 0 := rfl

/-- The changes of instructions add up. -/
theorem totalDelta_cons (i : Instruction) (instructions : List Instruction) :
    totalDelta (i :: instructions) = i.delta + totalDelta instructions := List.sum_cons

/-- A swizzle does not take more words than there are lanes. -/
def Instruction.WithinLanes : Instruction → Prop
  | swizzle sources _ => sources.toNat ≤ maxLanes
  | _ => True

/-- The left operands are replaced by as many words, wherever the evaluation ends. -/
theorem BinaryOp.length_evalLanes (op : BinaryOp) (lefts rights : List Word) :
    (op.evalLanes lefts rights).1.length = lefts.length := by
  fun_induction op.evalLanes lefts rights with
  | case1 left lefts right rights w hw words fault hrest ih =>
    rw [hrest] at ih
    simpa using ih
  | case2 => rfl
  | case3 => rfl

namespace Exec

/-! ## Effects of computations -/

section
variable {α β : Type} {need m total : Nat} {delta e sum : Int} {x : Exec α} {f : α → Exec β}

/-- With enough slots the computation does not underflow, and if it does not fault at all, it
changes the height by `delta`. -/
def Within (need : Nat) (delta : Int) (x : Exec α) : Prop :=
  ∀ s : State, need ≤ s.stack.size →
    (∀ a t, x s = .ok a t → (t.stack.size : Int) = s.stack.size + delta) ∧
    ∀ t, x s ≠ .error .stackUnderflow t

/-- The computation underflows exactly if there are too few slots. -/
structure Shifts (need : Nat) (delta : Int) (x : Exec α) : Prop where
  within : Within need delta x
  underflow : ∀ s : State, s.stack.size < need → ∃ t, x s = .error .stackUnderflow t

/-- The computation faults in no other way either. -/
structure Moves (need : Nat) (delta : Int) (x : Exec α) : Prop extends Shifts need delta x where
  succeeds : ∀ s : State, need ≤ s.stack.size → ∃ a t, x s = .ok a t

/-- With more slots than needed there are enough. -/
theorem Within.mono (h : Within need delta x) (hle : need ≤ m) : Within m delta x :=
  fun s hs => h s (Nat.le_trans hle hs)

/-- It is enough to say what the computation does where it succeeds, and that it has another fault
where it does not. -/
theorem Within.of_cases
    (h : ∀ s : State, (∃ a t, x s = .ok a t ∧ (t.stack.size : Int) = s.stack.size + delta) ∨
      ∃ k t, x s = .error k t ∧ k ≠ .stackUnderflow) : Within 0 delta x := by
  intro s _
  rcases h s with ⟨a, t, hok, hsize⟩ | ⟨k, t, herror, hk⟩
  · rw [hok]
    refine ⟨fun b u hu => ?_, nofun⟩
    cases hu
    exact hsize
  · rw [herror]
    refine ⟨nofun, fun u hu => ?_⟩
    cases hu
    exact hk rfl

/-- A computation that does not need a slot has none too few. -/
theorem Within.shifts (h : Within 0 delta x) : Shifts 0 delta x :=
  ⟨h, fun _ hs => absurd hs (Nat.not_lt_zero _)⟩

/-- The slots that are needed are the least number without an underflow. -/
theorem Shifts.underflow_iff (h : Shifts need delta x) (s : State) :
    (∃ t, x s = .error .stackUnderflow t) ↔ s.stack.size < need := by
  constructor
  · rintro ⟨t, ht⟩
    by_contra hs
    exact (h.within s (Nat.le_of_not_lt hs)).2 t ht
  · exact h.underflow s

/-- Where a computation succeeds it has changed the height. -/
theorem Shifts.size_eq (h : Shifts need delta x) {s t : State} {a : α} (hok : x s = .ok a t) :
    (t.stack.size : Int) = s.stack.size + delta := by
  by_cases hs : s.stack.size < need
  · obtain ⟨t', ht'⟩ := h.underflow s hs
    rw [hok] at ht'
    cases ht'
  · exact (h.within s (Nat.le_of_not_lt hs)).1 a t hok

/-! ## Putting effects together -/

/-- A computation that does nothing needs no slots. -/
theorem Within.pure (a : α) : Within 0 0 (pure a) :=
  .of_cases fun s => .inl ⟨a, s, rfl, by omega⟩

/-- A computation that faults in another way needs no slots, and may have any effect. -/
theorem Within.throw {k : FaultKind} (hk : k ≠ .stackUnderflow) (delta : Int) :
    Within 0 delta (throw k : Exec α) :=
  .of_cases fun s => .inr ⟨k, s, rfl, hk⟩

/-- What follows a computation may need the slots that are left. -/
theorem Within.bind (hx : Within need delta x)
    (hf : ∀ s a t, x s = .ok a t → Within m e (f a)) (hle : (m : Int) ≤ need + delta)
    (hsum : delta + e = sum) : Within need sum (x >>= f) := by
  intro s hs
  cases hr : x s with
  | ok a t =>
    rw [bind_eq_of_ok hr]
    have ht := (hx s hs).1 a t hr
    obtain ⟨hok, herror⟩ := hf s a t hr t (by omega)
    refine ⟨fun b u hu => ?_, herror⟩
    have hu := hok b u hu
    omega
  | error k t =>
    rw [bind_eq_of_error hr]
    refine ⟨nofun, fun u hu => ?_⟩
    cases hu
    exact (hx s hs).2 t hr

/-- If what follows finds enough slots, the need of the whole is that of what comes first. -/
theorem Shifts.bind (hx : Shifts need delta x)
    (hf : ∀ s a t, x s = .ok a t → Within m e (f a)) (hle : (m : Int) ≤ need + delta)
    (hsum : delta + e = sum) : Shifts need sum (x >>= f) := by
  refine ⟨hx.within.bind hf hle hsum, fun s hs => ?_⟩
  obtain ⟨t, ht⟩ := hx.underflow s hs
  exact ⟨t, bind_eq_of_error ht⟩

/-- What follows a computation that only moves words may need more slots than it left. -/
theorem Moves.bind_shifts (hx : Moves need delta x)
    (hf : ∀ s a t, x s = .ok a t → Shifts m e (f a)) (hneed : need ≤ total)
    (htotal : (total : Int) + delta = m) (hsum : delta + e = sum) :
    Shifts total sum (x >>= f) := by
  refine ⟨(hx.within.mono hneed).bind (fun s a t h => (hf s a t h).within) (by omega) hsum,
    fun s hs => ?_⟩
  by_cases hlt : s.stack.size < need
  · obtain ⟨t, ht⟩ := hx.underflow s hlt
    exact ⟨t, bind_eq_of_error ht⟩
  · obtain ⟨a, t, ht⟩ := hx.succeeds s (Nat.le_of_not_lt hlt)
    have hsize := hx.size_eq ht
    rw [bind_eq_of_ok ht]
    exact (hf s a t ht).underflow t (by omega)

/-- Two computations that only move words make one that only moves words. -/
theorem Moves.bind (hx : Moves need delta x)
    (hf : ∀ s a t, x s = .ok a t → Moves m e (f a)) (hneed : need ≤ total)
    (htotal : (total : Int) + delta = m) (hsum : delta + e = sum) :
    Moves total sum (x >>= f) := by
  refine ⟨hx.bind_shifts (fun s a t h => (hf s a t h).toShifts) hneed htotal hsum, fun s hs => ?_⟩
  obtain ⟨a, t, ht⟩ := hx.succeeds s (Nat.le_trans hneed hs)
  have hsize := hx.size_eq ht
  rw [bind_eq_of_ok ht]
  exact (hf s a t ht).succeeds t (by omega)

/-- Saying how execution goes on afterwards changes nothing. -/
theorem Shifts.next {y : Exec Unit} (hy : Shifts need delta y) :
    Shifts need delta (do y; return Flow.next) := by
  refine ⟨fun s hs => ?_, fun s hs => ?_⟩
  · obtain ⟨hok, herror⟩ := hy.within s hs
    cases hr : y s with
    | ok a t =>
      rw [bind_eq_of_ok hr]
      refine ⟨fun flow u hu => ?_, nofun⟩
      cases hu
      exact hok a t hr
    | error k t =>
      rw [bind_eq_of_error hr]
      refine ⟨nofun, fun u hu => ?_⟩
      cases hu
      exact herror t hr
  · obtain ⟨t, ht⟩ := hy.underflow s hs
    exact ⟨t, bind_eq_of_error ht⟩

/-- A computation that does nothing moves no words. -/
theorem Moves.pure (a : α) : Moves 0 0 (pure a) :=
  ⟨(Within.pure a).shifts, fun s _ => ⟨a, s, rfl⟩⟩

/-- It is enough to say what the computation does with enough slots and what with too few. -/
theorem Moves.of_cases
    (henough : ∀ s : State, need ≤ s.stack.size →
      ∃ a t, x s = .ok a t ∧ (t.stack.size : Int) = s.stack.size + delta)
    (hfew : ∀ s : State, s.stack.size < need → ∃ t, x s = .error .stackUnderflow t) :
    Moves need delta x := by
  refine ⟨⟨fun s hs => ?_, hfew⟩, fun s hs => ?_⟩
  · obtain ⟨a, t, hok, hsize⟩ := henough s hs
    rw [hok]
    refine ⟨fun b u hu => ?_, nofun⟩
    cases hu
    exact hsize
  · obtain ⟨a, t, hok, -⟩ := henough s hs
    exact ⟨a, t, hok⟩

/-- Repeating a computation repeats its effect. -/
theorem Within.forM {l : List β} {f : β → Exec Unit} (hf : ∀ b, Within need delta (f b))
    (hdelta : 0 ≤ need + delta) : Within (l.length * need) (l.length * delta) (l.forM f) := by
  induction l with
  | nil => simpa using Within.pure ()
  | cons b l ih =>
    rw [List.length_cons, Nat.succ_mul]
    refine ((hf b).mono (Nat.le_add_left _ _)).bind (fun _ _ _ _ => ih) ?_ ?_
    · push_cast
      omega
    · push_cast
      ring

end

/-! ## Single accesses -/

section
variable {α : Type} {need : Nat} {delta : Int}

/-- A look at the stack that fails for want of slots only. -/
theorem moves_readStack {f : Stack → Except FaultKind α}
    (herror : ∀ {s k}, f s = .error k ↔ s.size < need ∧ k = .stackUnderflow) :
    Moves need 0 (readStack f) := by
  refine .of_cases (fun s hs => ?_) fun s hs => ⟨s, ?_⟩
  · unfold readStack
    cases hf : f s.stack with
    | ok a => exact ⟨a, s, rfl, by omega⟩
    | error k => exact absurd (herror.1 hf).1 (Nat.not_lt.2 hs)
  · unfold readStack
    rw [herror.2 ⟨hs, rfl⟩]

/-- A change of the stack that fails for want of slots only. -/
theorem moves_changeStack {f : Stack → Except FaultKind Stack}
    (herror : ∀ {s k}, f s = .error k ↔ s.size < need ∧ k = .stackUnderflow)
    (hsize : ∀ {s t}, f s = .ok t → (t.size : Int) = s.size + delta) :
    Moves need delta (changeStack f) := by
  refine .of_cases (fun s hs => ?_) fun s hs => ⟨s, ?_⟩
  · unfold changeStack
    cases hf : f s.stack with
    | ok stack => exact ⟨(), _, rfl, hsize hf⟩
    | error k => exact absurd (herror.1 hf).1 (Nat.not_lt.2 hs)
  · unfold changeStack
    rw [herror.2 ⟨hs, rfl⟩]

/-- A push needs no slots and adds one. -/
theorem moves_push (w : Word) : Moves 0 1 (push w) := by
  refine .of_cases (fun s _ => ⟨(), _, rfl, ?_⟩) fun _ hs => absurd hs (Nat.not_lt_zero _)
  simp

/-- A pop needs one slot and takes it. -/
theorem moves_pop : Moves 1 (-1) pop := by
  refine .of_cases (fun s hs => ?_) fun s hs => ⟨s, ?_⟩
  · unfold pop
    cases hpop : s.stack.pop with
    | ok r =>
      obtain ⟨w, stack⟩ := r
      have hsize := Stack.size_of_pop hpop
      exact ⟨w, _, rfl, by simp only; omega⟩
    | error k => exact absurd (Stack.pop_eq_error_iff.1 hpop).1 (Nat.not_lt.2 hs)
  · unfold pop
    rw [Stack.pop_eq_error_iff.2 ⟨hs, rfl⟩]

/-- Popping several words needs as many slots. The needs of the single pops add up, as each only
moves a word. -/
theorem moves_popMany (count : Nat) : Moves count (-count) (popMany count) := by
  induction count with
  | zero => exact .pure []
  | succ count ih =>
    refine moves_pop.bind (m := count) (e := -count) (fun _ w _ _ => ?_) (by omega)
      (by omega) (by omega)
    exact ih.bind (fun _ _ _ _ => .pure _) (Nat.le_refl _) (by omega) (by omega)

/-- The top word has to be there, and stays. -/
theorem moves_top : Moves 1 0 (readStack (·.top)) := moves_readStack Stack.top_eq_error_iff

/-- The top words have to be there, and stay. -/
theorem moves_topN (count : Nat) : Moves count 0 (readStack (·.topN count)) :=
  moves_readStack Stack.topN_eq_error_iff

/-- Looking at a depth needs one slot more than that. -/
theorem moves_peek (depth : Nat) : Moves (depth + 1) 0 (readStack (·.peek depth)) :=
  moves_readStack Stack.peek_eq_error_iff

/-- The words that are replaced have to be there. -/
theorem moves_replaceTop (words : List Word) :
    Moves words.length 0 (changeStack (·.replaceTop words)) :=
  moves_changeStack Stack.replaceTop_eq_error_iff fun h => by
    rw [Stack.size_of_replaceTop h, Int.add_zero]

/-- The words that are dropped have to be there. -/
theorem moves_dropTop (count : Nat) : Moves count (-count) (changeStack (·.dropTop count)) :=
  moves_changeStack Stack.dropTop_eq_error_iff fun h => by
    rw [← Stack.size_of_dropTop h]
    omega

/-- The words that are copied have to be there, and one beneath them. -/
theorem moves_dupDown (count : Nat) : Moves (count + 1) count (changeStack (·.dupDown count)) :=
  moves_changeStack Stack.dupDown_eq_error_iff fun h => by
    rw [Stack.size_of_dupDown h, Int.natCast_add]

/-- The words that are returned have to be there, and the height stays. -/
theorem moves_returnToBottom (count : Nat) :
    Moves count 0 (changeStack (·.returnToBottom count)) :=
  moves_changeStack Stack.returnToBottom_eq_error_iff fun h => by
    rw [Stack.size_of_returnToBottom h, Int.add_zero]

/-- The stack keeps its height where an access by position succeeds. -/
theorem within_load (index : Int) : Within 0 0 (load index) := by
  refine .of_cases fun s => ?_
  dsimp only [load, readStack]
  cases hget : s.stack.get index with
  | ok w => exact .inl ⟨w, s, rfl, by omega⟩
  | error k => exact .inr ⟨k, s, rfl, by simp [(Stack.get_eq_error_iff.1 hget).2]⟩

/-- A store by position keeps the height where it succeeds, and else it is out of bounds. -/
theorem within_store (index : Int) (w : Word) : Within 0 0 (store index w) := by
  refine .of_cases fun s => ?_
  dsimp only [store, changeStack]
  cases hset : s.stack.set index w with
  | ok stack => exact .inl ⟨(), _, rfl, by simp [Stack.size_of_set hset]⟩
  | error k => exact .inr ⟨k, s, rfl, by simp [(Stack.set_eq_error_iff.1 hset).2]⟩

/-- A load from the globals does not touch the stack. -/
theorem within_loadGlobal (index : Int) : Within 0 0 (loadGlobal index) := by
  refine .of_cases fun s => ?_
  dsimp only [loadGlobal]
  cases hget : s.globals.get index with
  | ok w => exact .inl ⟨w, s, rfl, by omega⟩
  | error k => exact .inr ⟨k, s, rfl, by simp [(Globals.get_eq_error_iff.1 hget).2]⟩

/-- A store to the globals does not touch the stack. -/
theorem within_storeGlobal (index : Int) (w : Word) : Within 0 0 (storeGlobal index w) := by
  refine .of_cases fun s => ?_
  dsimp only [storeGlobal]
  cases hset : s.globals.set index w with
  | ok globals => exact .inl ⟨(), _, rfl, by simp⟩
  | error k => exact .inr ⟨k, s, rfl, by simp [(Globals.set_eq_error_iff.1 hset).2]⟩

/-- Reporting an event does not touch the stack. -/
theorem within_record (event : Event) : Within 0 0 (record event) :=
  .of_cases fun _ => .inl ⟨(), _, rfl, by simp⟩

/-- A jump does not touch the stack. -/
theorem within_jump (target : UInt16) : Within 0 0 (jump target) :=
  .of_cases fun _ => .inl ⟨(), _, rfl, by simp⟩

/-- Arithmetic does not touch the stack, and its only fault is a zero divisor. -/
theorem within_eval (op : BinaryOp) (a b : Word) : Within 0 0 (ofExcept (op.eval a b)) := by
  refine .of_cases fun s => ?_
  cases heval : op.eval a b with
  | ok w => exact .inl ⟨w, s, rfl, by omega⟩
  | error k => exact .inr ⟨k, s, rfl, by simp [BinaryOp.eval_eq_error heval]⟩

end

/-- The words that are looked at are as many as are asked for. -/
theorem length_of_topN {count : Nat} {s t : State} {words : List Word}
    (h : readStack (·.topN count) s = .ok words t) : words.length = count := by
  unfold readStack at h
  split at h
  · rename_i htop
    cases h
    exact Stack.length_of_topN htop
  · cases h

/-! ## Operations -/

/-- A conditional jump takes its condition, whether it jumps or not. -/
theorem shifts_jumpIf (target : UInt16) : Shifts 1 (-1) (jumpIf target) := by
  refine moves_pop.toShifts.bind (m := 0) (e := 0) (fun _ w _ _ => ?_) (by omega)
    (by omega)
  split
  · exact within_jump target
  · exact .pure ()

/-- An operation without operands underflows exactly if it has fewer slots than it needs. -/
theorem shifts_plain (op : PlainOp) : Shifts op.need op.delta (plain op) := by
  cases op with
  | binary op =>
    refine moves_pop.bind_shifts (m := 1) (e := 0) (fun _ right _ _ => ?_)
      (Nat.le_succ 1) rfl rfl
    refine moves_top.toShifts.bind (m := 1) (e := 0) (fun _ left _ _ => ?_) (by decide) rfl
    refine ((within_eval op left right).mono (Nat.zero_le 1)).bind (m := 1) (e := 0)
      (fun _ result _ _ => ?_) (by decide) rfl
    exact (moves_replaceTop [result]).within
  | unary op =>
    exact moves_top.toShifts.bind (m := 1)
      (fun _ w _ _ => (moves_replaceTop [op.eval w]).within) (by decide) rfl
  | reserved op => exact (Within.throw (by simp) 0).shifts
  | nop => exact (Within.pure ()).shifts
  | dup => exact moves_top.toShifts.bind (fun _ w _ _ => (moves_push w).within) (by decide) rfl
  | debugPrint => exact moves_pop.toShifts.bind (fun _ w _ _ => within_record _) (by decide) rfl
  | load =>
    refine moves_pop.toShifts.bind (m := 0) (e := 1) (fun _ address _ _ => ?_) (by decide)
      rfl
    exact (within_load _).bind (fun _ w _ _ => (moves_push w).within) (by decide) rfl
  | store =>
    refine moves_pop.bind_shifts (m := 1) (e := -1) (fun _ w _ _ => ?_) (by decide) rfl rfl
    exact moves_pop.toShifts.bind (fun _ address _ _ => within_store _ w) (by decide) rfl
  | storeGlobal =>
    refine moves_pop.bind_shifts (m := 1) (e := -1) (fun _ w _ _ => ?_) (by decide) rfl rfl
    exact moves_pop.toShifts.bind (fun _ address _ _ => within_storeGlobal _ w) (by decide) rfl

/-- Each offset adds a word, unless its slot is out of bounds. -/
theorem within_gather (base : Int) (offsets : List Nat) :
    Within 0 offsets.length (gather base offsets) := by
  have hword : ∀ offset : Nat, Within 0 1 (do let w ← load (base + offset); push w) := fun offset =>
    (within_load _).bind (fun _ w _ _ => (moves_push w).within) (by decide) rfl
  simpa [gather] using Within.forM (l := offsets) hword (by decide)

/-- A gathering load takes its base and adds a word for each offset. -/
theorem shifts_loadSwizzle (offsets : List UInt8) :
    Shifts 1 (offsets.length - 1) (loadSwizzle offsets) := by
  refine moves_pop.toShifts.bind (fun _ base _ _ => within_gather _ _) (by decide) ?_
  rw [List.length_map]
  omega

/-- The base is looked at first, so all slots are there before the first word is stored. -/
theorem shifts_storeSwizzle (offsets : List UInt8) :
    Shifts (offsets.length + 1) (-(offsets.length + 1)) (storeSwizzle offsets) := by
  refine (moves_peek offsets.length).toShifts.bind (m := offsets.length + 1)
    (e := -(offsets.length + 1)) (fun _ base _ _ => ?_) (by omega) (by omega)
  have hword : ∀ offset : UInt8, Within 1 (-1) (do
      let w ← pop
      store (base.toInt + offset.toNat) w) := fun offset =>
    moves_pop.within.bind (fun _ w _ _ => within_store _ w) (by decide) rfl
  have hwords := Within.forM (l := offsets.reverse) hword (by decide)
  rw [List.length_reverse, Nat.mul_one] at hwords
  refine (hwords.mono (Nat.le_succ _)).bind (m := 1) (e := -1) (fun _ _ _ _ => ?_) (by omega)
    (by omega)
  exact moves_pop.within.bind (fun _ _ _ _ => .pure ()) (by decide) rfl

/-- A swizzle takes its sources and adds a word for each index, unless one is out of range. -/
theorem shifts_swizzle {sources : UInt8} (indices : List UInt8)
    (hlanes : sources.toNat ≤ maxLanes) :
    Shifts sources.toNat (indices.length - sources.toNat) (swizzle sources indices) := by
  unfold swizzle
  rw [if_neg (Nat.not_lt.2 hlanes)]
  refine (moves_popMany sources.toNat).toShifts.bind
    (m := indices.length * 0) (e := indices.length * 1)
    (fun _ taken _ _ => Within.forM (fun index => ?_) (by decide)) (by omega) (by omega)
  split
  · exact (moves_push _).within
  · exact .throw (by simp) 1

/-- Both operands of a lane-wide operation are there before the first lane is evaluated. -/
theorem shifts_binaryLanes (count : Nat) (op : BinaryOp) :
    Shifts (2 * count) (-count) (binaryLanes count op) := by
  refine (moves_popMany count).bind_shifts (m := count) (e := 0)
    (fun _ rights _ _ => ?_) (by omega) (by omega) (by omega)
  refine (moves_topN count).toShifts.bind (m := count) (e := 0)
    (fun _ lefts _ hlefts => ?_) (by omega) (by omega)
  have hlength : (op.evalLanes lefts rights).1.length = count := by
    rw [BinaryOp.length_evalLanes, length_of_topN hlefts]
  have hreplace := (moves_replaceTop (op.evalLanes lefts rights).1).within
  rw [hlength] at hreplace
  refine hreplace.bind (m := 0) (e := 0) (fun _ _ _ _ => ?_) (by omega) (by omega)
  cases hfault : (op.evalLanes lefts rights).2 with
  | none => exact .pure ()
  | some k => exact .throw (by rw [BinaryOp.evalLanes_fault hfault]; simp) 0

/-- A lane-wide operation underflows exactly if it has fewer slots than its lanes need. -/
theorem shifts_lanes (count : Nat) (op : LaneOp) :
    Shifts (op.need count) (op.delta count) (lanes count op) := by
  cases op with
  | binary op => exact shifts_binaryLanes count op
  | unary op =>
    refine (moves_topN count).toShifts.bind (m := count) (e := 0)
      (fun _ words _ hwords => ?_) (by omega) (by rfl)
    have hreplace := (moves_replaceTop (words.map op.eval)).within
    rwa [List.length_map, length_of_topN hwords] at hreplace
  | load =>
    refine moves_pop.toShifts.bind (fun _ base _ _ => within_gather _ _) (by decide) ?_
    rw [List.length_range, LaneOp.delta]
    omega
  | store =>
    refine (moves_popMany count).bind_shifts (m := 1) (e := -1) (fun _ words _ _ => ?_)
      (Nat.le_succ _) (by rw [LaneOp.need]; omega) (by rw [LaneOp.delta]; omega)
    refine moves_pop.toShifts.bind (m := 0) (e := 0) (fun _ base _ _ => ?_) (by decide) rfl
    have hwords := Within.forM (l := words.zipIdx.reverse)
      (f := fun p => store (base.toInt + p.2) p.1) (fun _ => within_store _ _) (by decide)
    rwa [Int.mul_zero] at hwords
  | loadGlobal index =>
    have hword : ∀ lane : Nat, Within 0 1 (do let w ← loadGlobal (index.toNat + lane); push w) :=
      fun lane => (within_loadGlobal _).bind (fun _ w _ _ => (moves_push w).within) (by decide) rfl
    have hwords := Within.forM (l := List.range count) hword (by decide)
    simp only [List.length_range, Nat.mul_zero, Int.mul_one] at hwords
    exact hwords.shifts
  | branch target => exact (within_jump target).shifts
  | conditionalBranch target => exact shifts_jumpIf target

/-- **The effect of an instruction.** It underflows exactly if there are fewer slots than it needs,
and it changes the height by its delta. -/
theorem shifts_step {i : Instruction} (hi : i.WithinLanes) : Shifts i.need i.delta (step i) := by
  cases i with
  | plain op => exact (shifts_plain op).next
  | branch target => exact (within_jump target).shifts.next
  | conditionalBranch target => exact (shifts_jumpIf target).next
  | dupDown count => exact (moves_dupDown count.toNat).toShifts.next
  | loadGlobal index =>
    refine (Within.bind (m := 0) (e := 1) (within_loadGlobal _) (fun _ w _ _ => ?_)
      (by decide) rfl).shifts
    exact (moves_push w).toShifts.next.within
  | pop count => exact (moves_dropTop count.toNat).toShifts.next
  | pushImmediate value => exact (moves_push value).toShifts.next
  | ret count =>
    exact (moves_returnToBottom count.toNat).toShifts.bind (fun _ _ _ _ => .pure _) (by omega) rfl
  | loadSwizzle offsets => exact (shifts_loadSwizzle offsets).next
  | storeSwizzle offsets => exact (shifts_storeSwizzle offsets).next
  | swizzle sources indices => exact (shifts_swizzle indices hi).next
  | vector count op => exact (shifts_lanes count.toNat op).next

/-- A swizzle that takes more words than there are lanes does not succeed. -/
theorem withinLanes_of_step {i : Instruction} {s t : State} {flow : Flow}
    (h : step i s = .ok flow t) : i.WithinLanes := by
  cases i with
  | swizzle sources indices =>
    by_contra hlanes
    have hthrow : swizzle sources indices s = .error (.invalidLaneCount sources) s := by
      unfold swizzle
      rw [if_pos (Nat.not_le.1 hlanes)]
      rfl
    rw [step, bind_eq_of_error hthrow] at h
    cases h
  | _ => trivial

/-- An instruction that succeeds changes the height by its delta. -/
theorem size_of_step {i : Instruction} {s t : State} {flow : Flow} (h : step i s = .ok flow t) :
    (t.stack.size : Int) = s.stack.size + i.delta :=
  (shifts_step (withinLanes_of_step h)).size_eq h

end Exec

/-! ## Runs -/

/-- The instructions that a run executes without a fault in so many turns, one after the other. -/
def executed (code : Code) (settings : RunSettings) : Nat → State → List Instruction
  | 0, _ => []
  | turns + 1, s =>
    match code.readInstruction s.ip, turn code settings s with
    | .ok i _, (none, s) => i :: executed code settings turns s
    | .ok i _, (some (.ok _), _) => [i]
    | _, _ => []

section
variable {code : Code} {settings : RunSettings} {turns : Nat} {s t : State} {count : Nat}

/-- A turn after which execution goes on has changed the height by the delta of its instruction. -/
theorem executed_of_next (h : turn code settings s = (none, t)) (turns : Nat) :
    ∃ i, executed code settings (turns + 1) s = i :: executed code settings turns t ∧
      (t.stack.size : Int) = s.stack.size + i.delta := by
  cases turn_iff.2 h with
  | @next i _ u _ hread hstep =>
    refine ⟨i, by rw [executed, hread, h], ?_⟩
    have hsize := Exec.size_of_step hstep
    rwa [← (u.observed_agrees settings.verbose s.ip i).stack] at hsize

/-- So has the turn in which the body returns. -/
theorem executed_of_finish (h : turn code settings s = (some (.ok count), t)) (turns : Nat) :
    ∃ i, executed code settings (turns + 1) s = [i] ∧
      (t.stack.size : Int) = s.stack.size + i.delta := by
  cases turn_iff.2 h with
  | @finish i _ _ u _ hread hstep =>
    refine ⟨i, by rw [executed, hread, h], ?_⟩
    have hsize := Exec.size_of_step hstep
    rwa [← (u.observed_agrees settings.verbose s.ip i).stack] at hsize

/-- Every turn of a run that goes on has executed an instruction. -/
theorem length_executed (h : stateAfter code settings turns s = some t) :
    (executed code settings turns s).length = turns := by
  induction turns generalizing s with
  | zero => rfl
  | succ turns ih =>
    obtain ⟨s', hturn, h⟩ := exists_next_of_stateAfter h
    obtain ⟨i, hi, -⟩ := executed_of_next hturn turns
    rw [hi, List.length_cons, ih h]

/-- After so many turns the height is that at the start and the changes of the instructions that
were executed. The induction is on the turns. -/
theorem size_stateAfter (h : stateAfter code settings turns s = some t) :
    (t.stack.size : Int) = s.stack.size + totalDelta (executed code settings turns s) := by
  induction turns generalizing s with
  | zero =>
    cases h
    exact (Int.add_zero _).symm
  | succ turns ih =>
    obtain ⟨s', hturn, h⟩ := exists_next_of_stateAfter h
    obtain ⟨i, hi, hsize⟩ := executed_of_next hturn turns
    rw [hi, totalDelta_cons, ih h, hsize, Int.add_assoc]

/-- A run that returns has the changes of all its instructions, the `return` included. -/
theorem size_of_execute (h : execute code settings turns s = some (.ok count, t)) :
    (t.stack.size : Int) = s.stack.size + totalDelta (executed code settings turns s) := by
  induction turns generalizing s with
  | zero => cases h
  | succ turns ih =>
    rcases execute_cases h with hturn | ⟨s', hturn, h⟩
    · obtain ⟨i, hi, hsize⟩ := executed_of_finish hturn turns
      rw [hi, totalDelta_cons, totalDelta_nil, hsize, Int.add_zero]
    · obtain ⟨i, hi, hsize⟩ := executed_of_next hturn turns
      rw [hi, totalDelta_cons, ih h, hsize, Int.add_assoc]

end

/-- A frame has a slot for each word of a parameter and one for each local. -/
theorem Function.size_frame {f : Function} {args : Array Word}
    (h : f.parameterSlots ≤ args.size) :
    (f.frame args).size = f.parameterSlots + f.localCount := by
  simp only [frame, Stack.size, Array.size_append, Array.size_extract, Array.size_replicate]
  omega

namespace Interpreter

/-- **The height of the stack.** An instruction underflows exactly if the stack has fewer slots than
it needs, and one that succeeds changes the height by its delta. In every state of a run, and where
it returns, the height is that of the frame and the deltas of the instructions executed so far. -/
theorem height_of_run :
    (∀ (i : Instruction) (s : State), i.WithinLanes →
      ((∃ t, Exec.step i s = .error .stackUnderflow t) ↔ s.stack.size < i.need) ∧
      ∀ flow t, Exec.step i s = .ok flow t → (t.stack.size : Int) = s.stack.size + i.delta) ∧
    ∀ (vm : Interpreter) (f : Function) (inv : Invocation) (verbose : Bool) (turns : Nat),
      f.Accepts inv →
      let settings : RunSettings := ⟨vm.options.budget, verbose⟩
      let start := startState f inv verbose (f.layout.start inv.inputs).2
      let height := f.parameterSlots + f.localCount +
        totalDelta (executed f.code settings turns start)
      (∀ s, ShaderMachine.stateAfter f.code settings turns start = some s →
        (executed f.code settings turns start).length = turns ∧ (s.stack.size : Int) = height) ∧
      ∀ count s, execute f.code settings turns start = some (.ok count, s) →
        (s.stack.size : Int) = height := by
  refine ⟨fun i s hi => ?_, fun vm f inv verbose turns haccepts => ?_⟩
  · have heffect := Exec.shifts_step hi
    exact ⟨heffect.underflow_iff s, fun flow t => heffect.size_eq⟩
  · intro settings start height
    have hframe : (start.stack.size : Int) = f.parameterSlots + f.localCount := by
      rw [← Int.natCast_add, ← f.size_frame haccepts.args]
      rfl
    refine ⟨fun s hs => ⟨length_executed hs, ?_⟩, fun count s hs => ?_⟩
    · rw [size_stateAfter hs, hframe]
    · rw [size_of_execute hs, hframe]

/-- A function that adds its two parameters and its two locals on two lanes, and then returns the
second sum twice behind the first. -/
def widenFunction : Function :=
  ⟨"widen", [⟨2, false⟩], 2, #[55, 2, 1, 53, 2, 3, 0, 1, 1, 46, 3], ⟨0, []⟩⟩

/-- The height of a run on two lanes, and a swizzle that lacks a word. -/
theorem height_of_widenFunction :
    (Instruction.swizzle 2 [0, 1, 1]).WithinLanes ∧
      (∃ t, Exec.step (.swizzle 2 [0, 1, 1]) ⟨0, 0, ⟨#[⟨7⟩]⟩, {}, #[]⟩ =
        .error .stackUnderflow t) ∧
      widenFunction.Accepts ⟨#[⟨1⟩, ⟨2⟩], #[]⟩ ∧
      ∃ s, execute widenFunction.code ⟨none, false⟩ 3
          (startState widenFunction ⟨#[⟨1⟩, ⟨2⟩], #[]⟩ false {}) = some (.ok 3, s) ∧
        (s.stack.size : Int) = 2 + 2 + (-2 + (1 + 0)) := by
  have hlanes : (Instruction.swizzle 2 [0, 1, 1]).WithinLanes := by
    show (2 : UInt8).toNat ≤ maxLanes
    decide
  have haccepts : widenFunction.Accepts ⟨#[⟨1⟩, ⟨2⟩], #[]⟩ := ⟨by decide, rfl, nofun⟩
  have hexecuted : executed widenFunction.code ⟨none, false⟩ 3
      (startState widenFunction ⟨#[⟨1⟩, ⟨2⟩], #[]⟩ false {}) =
        [.vector ⟨2, by decide, by decide⟩ (.binary .addInt), .swizzle 2 [0, 1, 1], .ret 3] := by
    decide +kernel
  have hexecute : (execute widenFunction.code ⟨none, false⟩ 3
      (startState widenFunction ⟨#[⟨1⟩, ⟨2⟩], #[]⟩ false {})).map Prod.fst = some (.ok 3) := by
    decide +kernel
  obtain ⟨⟨stop, s⟩, hs, hstop⟩ := Option.map_eq_some_iff.1 hexecute
  obtain rfl : stop = .ok 3 := hstop
  refine ⟨hlanes, (height_of_run.1 _ _ hlanes).1.2 (by decide), haccepts, s, hs, ?_⟩
  have hheight := (height_of_run.2 {} widenFunction _ false 3 haccepts).2 3 s hs
  rw [show (widenFunction.layout.start #[]).2 = {} from rfl, hexecuted] at hheight
  exact hheight

end Interpreter

end ShaderMachine
