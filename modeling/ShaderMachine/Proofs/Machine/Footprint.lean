import ShaderMachine.Machine.Step

/-!
# What instructions leave alone

Most of what instructions do happens on the stack. `Exec.Keeps` says that a view of the state is as
it was, however a computation ends. It is closed under the ways in which the instructions put their
operations together, so a view that shows neither the stack nor the offset (`State.Beside`) can
change in two instructions at most: `storeGlobal`, which writes to the globals, and `debugPrint`,
which reports a word (`Exec.keeps_step`).
-/

namespace ShaderMachine

/-- A view of the state that shows neither the stack nor the offset. -/
structure State.Beside {γ : Type} (view : State → γ) : Prop where
  stack : ∀ s stack, view { s with stack := stack } = view s
  ip : ∀ s ip, view { s with ip := ip } = view s

namespace Exec

section
variable {α β γ : Type} {view : State → γ} {x : Exec α}

/-- However the computation ends, the view of the state is as it was. -/
def Keeps (view : State → γ) (x : Exec α) : Prop :=
  ∀ s, match x s with
    | .ok _ t | .error _ t => view t = view s

/-- A computation that does nothing keeps every view. -/
theorem Keeps.pure (a : α) : Keeps view (pure a) := fun _ => rfl

/-- A computation that only faults keeps every view. -/
theorem Keeps.throw (k : FaultKind) : Keeps view (throw k : Exec α) := fun _ => rfl

/-- Computations in sequence keep a view if each of them does, wherever the sequence ends. -/
theorem Keeps.bind {f : α → Exec β} (hx : Keeps view x) (hf : ∀ a, Keeps view (f a)) :
    Keeps view (x >>= f) := by
  intro s
  have hx := hx s
  simp only [Bind.bind, EStateM.bind]
  cases hr : x s with
  | error k t =>
    rw [hr] at hx
    exact hx
  | ok a t =>
    rw [hr] at hx
    have hf := hf a t
    dsimp only at hx ⊢
    rw [hx] at hf
    exact hf

/-- A loop keeps a view if its rounds do. -/
theorem Keeps.forM {l : List β} {f : β → Exec Unit} (hf : ∀ b, Keeps view (f b)) :
    Keeps view (l.forM f) := by
  induction l with
  | nil => exact .pure ()
  | cons b l ih => exact (hf b).bind fun _ => ih

/-- A computation behind a check that faults where it applies. -/
theorem Keeps.guarded {c : Prop} [Decidable c] {k : FaultKind} (hx : Keeps view x) :
    Keeps view (if c then (MonadExcept.throw k : Exec Unit) >>= fun _ => x else x) := by
  split
  · exact (Keeps.throw k).bind fun _ => hx
  · exact hx

/-- Saying how execution goes on afterwards changes nothing. -/
theorem Keeps.next {y : Exec Unit} (hy : Keeps view y) : Keeps view (do y; return Flow.next) :=
  hy.bind fun _ => .pure _

/-- A result that is known already keeps every view. -/
theorem keeps_ofExcept (r : Except FaultKind α) : Keeps view (ofExcept r) := by
  intro s
  cases r <;> rfl

/-- Looking at the stack keeps every view. -/
theorem keeps_readStack (look : Stack → Except FaultKind α) : Keeps view (readStack look) := by
  intro s
  unfold readStack
  cases look s.stack <;> rfl

/-- Looking at a global keeps every view. -/
theorem keeps_loadGlobal (index : Int) : Keeps view (loadGlobal index) := by
  intro s
  unfold loadGlobal
  cases s.globals.get index <;> rfl

end

section
variable {γ : Type} {view : State → γ} (hview : State.Beside view)
include hview

/-- Changing the stack keeps a view that does not show it. -/
theorem keeps_changeStack (change : Stack → Except FaultKind Stack) :
    Keeps view (changeStack change) := by
  intro s
  unfold changeStack
  cases change s.stack with
  | ok stack => exact hview.stack s stack
  | error => rfl

/-- Pushing changes the stack and nothing else. -/
theorem keeps_push (w : Word) : Keeps view (push w) := fun s => hview.stack s _

/-- Popping changes the stack and nothing else. -/
theorem keeps_pop : Keeps view pop := by
  intro s
  unfold pop
  cases s.stack.pop with
  | ok popped => exact hview.stack s popped.2
  | error => rfl

/-- Popping several words changes the stack and nothing else. -/
theorem keeps_popMany (count : Nat) : Keeps view (popMany count) := by
  induction count with
  | zero => exact .pure []
  | succ count ih => exact (keeps_pop hview).bind fun _ => ih.bind fun _ => .pure _

/-- A jump changes the offset and nothing else. -/
theorem keeps_jump (target : UInt16) : Keeps view (jump target) := fun s => hview.ip s _

/-- A conditional jump pops its condition and may change the offset. -/
theorem keeps_jumpIf (target : UInt16) : Keeps view (jumpIf target) := by
  refine (keeps_pop hview).bind fun condition => ?_
  cases condition.truth with
  | true => exact keeps_jump hview target
  | false => exact .pure ()

/-- Operations without inline operands change only the stack, but for the two that write to the
globals or report a word. -/
theorem keeps_plain {op : PlainOp} (hstore : op ≠ .storeGlobal) (hprint : op ≠ .debugPrint) :
    Keeps view (plain op) := by
  cases op with
  | binary =>
    refine (keeps_pop hview).bind fun _ => (keeps_readStack _).bind fun _ => ?_
    exact (keeps_ofExcept _).bind fun _ => keeps_changeStack hview _
  | unary => exact (keeps_readStack _).bind fun _ => keeps_changeStack hview _
  | reserved op => exact .throw (.unsupported op)
  | nop => exact .pure ()
  | dup => exact (keeps_readStack _).bind fun _ => keeps_push hview _
  | debugPrint => exact absurd rfl hprint
  | load =>
    exact (keeps_pop hview).bind fun _ => (keeps_readStack _).bind fun _ => keeps_push hview _
  | store =>
    exact (keeps_pop hview).bind fun _ => (keeps_pop hview).bind fun _ => keeps_changeStack hview _
  | storeGlobal => exact absurd rfl hstore

/-- Gathering pushes words that it finds on the stack. -/
theorem keeps_gather (base : Int) (offsets : List Nat) : Keeps view (gather base offsets) :=
  .forM fun _ => (keeps_readStack _).bind fun _ => keeps_push hview _

/-- A scattering store pops words and writes them to the stack. -/
theorem keeps_storeSwizzle (offsets : List UInt8) : Keeps view (storeSwizzle offsets) := by
  have hslot : ∀ (base : Word) (offset : UInt8),
      Keeps view (do let w ← pop; store (base.toInt + offset.toNat) w) :=
    fun _ _ => (keeps_pop hview).bind fun _ => keeps_changeStack hview _
  refine (keeps_readStack _).bind fun base => (Keeps.forM (hslot base)).bind fun _ => ?_
  exact (keeps_pop hview).bind fun _ => .pure ()

/-- A swizzle pops words and pushes some of them, behind the checks of their number and of each
index. -/
theorem keeps_swizzle (sources : UInt8) (indices : List UInt8) :
    Keeps view (swizzle sources indices) := by
  refine Keeps.guarded ((keeps_popMany hview _).bind fun taken => .forM fun index => ?_)
  cases taken[index.toNat]? with
  | some w => exact keeps_push hview w
  | none => exact .throw _

/-- Operands are popped and replaced by results, up to a fault. -/
theorem keeps_binaryLanes (lanes : Nat) (op : BinaryOp) : Keeps view (binaryLanes lanes op) := by
  refine (keeps_popMany hview _).bind fun rights => (keeps_readStack _).bind fun lefts => ?_
  refine (keeps_changeStack hview _).bind fun _ => ?_
  cases (op.evalLanes lefts rights).2 with
  | none => exact .pure ()
  | some k => exact .throw k

/-- Lane-wide operations change the stack or the offset and nothing else. -/
theorem keeps_lanes (count : Nat) (op : LaneOp) : Keeps view (lanes count op) := by
  cases op with
  | binary op => exact keeps_binaryLanes hview count op
  | unary => exact (keeps_readStack _).bind fun _ => keeps_changeStack hview _
  | load => exact (keeps_pop hview).bind fun _ => keeps_gather hview _ _
  | store =>
    refine (keeps_popMany hview _).bind fun _ => (keeps_pop hview).bind fun _ => ?_
    exact .forM fun _ => keeps_changeStack hview _
  | loadGlobal => exact .forM fun _ => (keeps_loadGlobal _).bind fun _ => keeps_push hview _
  | branch target => exact keeps_jump hview target
  | conditionalBranch target => exact keeps_jumpIf hview target

/-- Only `storeGlobal` and `debugPrint` can change what is beside the stack and the offset. -/
theorem keeps_step {i : Instruction} (hstore : i ≠ .plain .storeGlobal)
    (hprint : i ≠ .plain .debugPrint) : Keeps view (step i) := by
  cases i with
  | plain op =>
    have hkeeps : Keeps view (plain op) :=
      keeps_plain hview (fun h => hstore (congrArg _ h)) fun h => hprint (congrArg _ h)
    exact hkeeps.next
  | branch target => exact (keeps_jump hview target).next
  | conditionalBranch target => exact (keeps_jumpIf hview target).next
  | dupDown | pop => exact (keeps_changeStack hview _).next
  | loadGlobal => exact (keeps_loadGlobal _).bind fun _ => (keeps_push hview _).next
  | pushImmediate => exact (keeps_push hview _).next
  | ret => exact (keeps_changeStack hview _).bind fun _ => .pure _
  | loadSwizzle => exact ((keeps_pop hview).bind fun _ => keeps_gather hview _ _).next
  | storeSwizzle => exact (keeps_storeSwizzle hview _).next
  | swizzle => exact (keeps_swizzle hview _ _).next
  | vector => exact (keeps_lanes hview _ _).next

end

end Exec

end ShaderMachine
