import ShaderMachine.Machine.Step
import ShaderMachine.Proofs.Memory.Faults

/-!
# What an instruction depends on

An instruction works on the words of the machine, on stack and globals, and on nothing else of its
state: where the instruction stands and how many came before it make no difference, and it leaves
both alone unless it branches (`Exec.Local`). `Exec.step_alike` says this of every instruction: from
states that hold the same words it does the same to them, faults alike, and goes on behind itself or
at its target.
-/

namespace ShaderMachine

/-- The states hold the same words. -/
structure State.Agrees (s s' : State) : Prop where
  stack : s.stack = s'.stack
  globals : s.globals = s'.globals

/-- The faults that executing an instruction can end in, whichever instruction it is. -/
def FaultKind.Ordinary : FaultKind → Prop
  | unsupported _ | stackUnderflow | outOfBounds .. | divisionByZero => True
  | _ => False

/-- The faults that executing the instruction can end in: a lane count is only refused by a swizzle
that takes too many words. -/
def Instruction.MayFault (i : Instruction) (k : FaultKind) : Prop :=
  k.Ordinary ∨ ∃ sources indices, i = .swizzle sources indices ∧ maxLanes < sources.toNat ∧
    k = .invalidLaneCount sources

/-- The offset that an instruction can branch to. -/
def Instruction.target? : Instruction → Option UInt16
  | branch target | conditionalBranch target => some target
  | vector _ (.branch target) | vector _ (.conditionalBranch target) => some target
  | _ => none

/-- Instructions that differ at most in the offset they branch to, with `R` between these. -/
inductive Instruction.Matches (R : UInt16 → UInt16 → Prop) : Instruction → Instruction → Prop
  | same {i} : i.target? = none → Matches R i i
  | branch {t t'} : R t t' → Matches R (.branch t) (.branch t')
  | conditionalBranch {t t'} : R t t' → Matches R (.conditionalBranch t) (.conditionalBranch t')
  | vectorBranch {lanes t t'} : R t t' →
      Matches R (.vector lanes (.branch t)) (.vector lanes (.branch t'))
  | vectorConditionalBranch {lanes t t'} : R t t' →
      Matches R (.vector lanes (.conditionalBranch t)) (.vector lanes (.conditionalBranch t'))

/-- An instruction matches itself when `R` relates its target, if it has one, to itself. -/
theorem Instruction.matches_of_target? {R : UInt16 → UInt16 → Prop} {i : Instruction}
    (h : ∀ t, i.target? = some t → R t t) : i.Matches R i := by
  cases i with
  | branch => exact .branch (h _ rfl)
  | conditionalBranch => exact .conditionalBranch (h _ rfl)
  | vector lanes op =>
    cases op with
    | branch => exact .vectorBranch (h _ rfl)
    | conditionalBranch => exact .vectorConditionalBranch (h _ rfl)
    | _ => exact .same rfl
  | _ => exact .same rfl

/-- An instruction matches itself, with its own target on both sides. -/
theorem Instruction.matches_self (i : Instruction) :
    i.Matches (fun t _ => i.target? = some t) i :=
  matches_of_target? fun _ => id

/-- The only fault of arithmetic is a zero divisor. -/
theorem BinaryOp.eval_eq_error {op : BinaryOp} {a b : Word} {k : FaultKind}
    (h : op.eval a b = .error k) : k = .divisionByZero := by
  have hdivided : ∀ {result}, divided b result = .error k → k = .divisionByZero := by
    intro result h
    unfold divided at h
    split at h
    · cases h; rfl
    · cases h
  cases op with
  | divideSigned | divideUnsigned | remainderSigned | remainderUnsigned => exact hdivided h
  | _ => cases h

/-- The only fault of lanes is a zero divisor on one of them. -/
theorem BinaryOp.evalLanes_fault {op : BinaryOp} {lefts rights : List Word} {k : FaultKind}
    (h : (op.evalLanes lefts rights).2 = some k) : k = .divisionByZero := by
  fun_induction op.evalLanes lefts rights with
  | case1 left lefts right rights w hw words fault hrest ih => exact ih (hrest ▸ h)
  | case2 left lefts right rights k' hk =>
    cases h
    exact eval_eq_error hk
  | case3 => cases h

namespace Exec

/-- Two computations, begun in `s` and `s'`, ended alike: with the same value, or with the same
fault, which is one of `P`. They left the same words and counted no instruction; and where they did
not fault, `J` holds of their offsets. -/
inductive Alike {α : Type} (P : FaultKind → Prop) (J : Nat → Nat → Prop) (s s' : State) :
    EStateM.Result FaultKind State α → EStateM.Result FaultKind State α → Prop
  | ok {a t t'} : t.Agrees t' → t.steps = s.steps → t'.steps = s'.steps → J t.ip t'.ip →
      Alike P J s s' (.ok a t) (.ok a t')
  | error {k t t'} : P k → t.Agrees t' → t.steps = s.steps → t'.steps = s'.steps →
      Alike P J s s' (.error k t) (.error k t')

/-- Computations that ended alike did so for weaker demands too. -/
theorem Alike.mono {α : Type} {P Q : FaultKind → Prop} {J J' : Nat → Nat → Prop} {s s' : State}
    {r r' : EStateM.Result FaultKind State α} (h : Alike P J s s' r r') (hPQ : ∀ k, P k → Q k)
    (hJ : ∀ n n', J n n' → J' n n') : Alike Q J' s s' r r' := by
  cases h with
  | error hk hu hsteps hsteps' => exact .error (hPQ _ hk) hu hsteps hsteps'
  | ok hu hsteps hsteps' hip => exact .ok hu hsteps hsteps' (hJ _ _ hip)

/-- A computation that works on the words of the state only and faults with `P` only. -/
def Local {α : Type} (P : FaultKind → Prop) (x : Exec α) : Prop :=
  ∀ ⦃s s' : State⦄, s.Agrees s' → Alike P (fun n n' => n = s.ip ∧ n' = s'.ip) s s' (x s) (x s')

/-! ## Putting local computations together -/

section
variable {α β : Type} {P Q : FaultKind → Prop} {x : Exec α}

/-- A computation that does nothing is local. -/
theorem Local.pure (a : α) : Local P (pure a) := fun _ _ h => .ok h rfl rfl ⟨rfl, rfl⟩

/-- A computation that only faults is local. -/
theorem Local.throw {k : FaultKind} (hk : P k) : Local P (throw k : Exec α) :=
  fun _ _ h => .error hk h rfl rfl

/-- Local computations in sequence are local: the first one leaves the same words and gives the same
value, on which the second one goes on. -/
theorem Local.bind {f : α → Exec β} (hx : Local P x) (hf : ∀ a, Local P (f a)) :
    Local P (x >>= f) := by
  intro s s' h
  have hx := hx h
  simp only [Bind.bind, EStateM.bind]
  generalize x s = r at hx
  generalize x s' = r' at hx
  cases hx with
  | error hk ht hsteps hsteps' => exact .error hk ht hsteps hsteps'
  | @ok a t t' ht hsteps hsteps' hip =>
    have hf := hf a ht
    dsimp only
    generalize f a t = r at hf
    generalize f a t' = r' at hf
    cases hf with
    | error hk hu hsteps₂ hsteps₂' =>
      exact .error hk hu (hsteps₂.trans hsteps) (hsteps₂'.trans hsteps')
    | ok hu hsteps₂ hsteps₂' hip₂ =>
      exact .ok hu (hsteps₂.trans hsteps) (hsteps₂'.trans hsteps')
        ⟨hip₂.1.trans hip.1, hip₂.2.trans hip.2⟩

/-- A computation that faults with some kinds faults with more of them allowed. -/
theorem Local.mono (hx : Local P x) (hPQ : ∀ k, P k → Q k) : Local Q x :=
  fun _ _ h => (hx h).mono hPQ fun _ _ => id

/-- A computation behind a check that faults where it applies. -/
theorem Local.guarded {c : Prop} [Decidable c] {k : FaultKind} (hk : c → P k) (hx : Local P x) :
    Local P (if c then (MonadExcept.throw k : Exec Unit) >>= fun _ => x else x) := by
  split
  · exact (Local.throw (hk ‹_›)).bind fun _ => hx
  · exact hx

/-- A loop of local computations is local. -/
theorem Local.forM {l : List β} {f : β → Exec Unit} (hf : ∀ b, Local P (f b)) :
    Local P (l.forM f) := by
  induction l with
  | nil => exact .pure ()
  | cons b l ih => exact (hf b).bind fun _ => ih

/-- A result that is known already depends on nothing. -/
theorem local_ofExcept {r : Except FaultKind α} (h : ∀ k, r = .error k → P k) :
    Local P (ofExcept r) := by
  intro s s' hs
  cases r with
  | ok a => exact .ok hs rfl rfl ⟨rfl, rfl⟩
  | error k => exact .error (h k rfl) hs rfl rfl

/-- What is looked at on the stack depends on its words. -/
theorem local_readStack {f : Stack → Except FaultKind α} (h : ∀ s k, f s = .error k → P k) :
    Local P (readStack f) := by
  intro s s' hs
  unfold readStack
  rw [← hs.stack]
  cases hf : f s.stack with
  | ok a => exact .ok hs rfl rfl ⟨rfl, rfl⟩
  | error k => exact .error (h _ k hf) hs rfl rfl

/-- How the stack is changed depends on its words. -/
theorem local_changeStack {f : Stack → Except FaultKind Stack} (h : ∀ s k, f s = .error k → P k) :
    Local P (changeStack f) := by
  intro s s' hs
  unfold changeStack
  rw [← hs.stack]
  cases hf : f s.stack with
  | ok stack => exact .ok ⟨rfl, hs.globals⟩ rfl rfl ⟨rfl, rfl⟩
  | error k => exact .error (h _ k hf) hs rfl rfl

end

/-! ## Single accesses -/

section
variable {P : FaultKind → Prop}

/-- A push depends on nothing but the stack. -/
theorem local_push (w : Word) : Local P (push w) :=
  fun _ _ h => .ok ⟨congrArg (Stack.push · w) h.stack, h.globals⟩ rfl rfl ⟨rfl, rfl⟩

/-- An event that is reported is no word of the state. -/
theorem local_record (event : Event) : Local P (record event) :=
  fun _ _ h => .ok ⟨h.stack, h.globals⟩ rfl rfl ⟨rfl, rfl⟩

/-- A pop depends on the stack and may underflow. -/
theorem local_pop : Local FaultKind.Ordinary pop := by
  intro s s' h
  unfold pop
  rw [← h.stack]
  cases hpop : s.stack.pop with
  | ok r => exact .ok ⟨rfl, h.globals⟩ rfl rfl ⟨rfl, rfl⟩
  | error k => exact .error ((Stack.pop_eq_error_iff.1 hpop).2 ▸ trivial) h rfl rfl

/-- Popping several words is popping each of them. -/
theorem local_popMany (count : Nat) : Local FaultKind.Ordinary (popMany count) := by
  induction count with
  | zero => exact .pure []
  | succ count ih => exact local_pop.bind fun _ => ih.bind fun _ => .pure _

/-- The top word depends on the stack. -/
theorem local_top : Local FaultKind.Ordinary (readStack (·.top)) :=
  local_readStack fun _ _ h => (Stack.top_eq_error_iff.1 h).2 ▸ trivial

/-- The top words depend on the stack. -/
theorem local_topN (count : Nat) : Local FaultKind.Ordinary (readStack (·.topN count)) :=
  local_readStack fun _ _ h => (Stack.topN_eq_error_iff.1 h).2 ▸ trivial

/-- Replacing the top words depends on the stack. -/
theorem local_replaceTop (words : List Word) :
    Local FaultKind.Ordinary (changeStack (·.replaceTop words)) :=
  local_changeStack fun _ _ h => (Stack.replaceTop_eq_error_iff.1 h).2 ▸ trivial

/-- The word at a depth depends on the stack. -/
theorem local_peek (depth : Nat) : Local FaultKind.Ordinary (readStack (·.peek depth)) :=
  local_readStack fun _ _ h => (Stack.peek_eq_error_iff.1 h).2 ▸ trivial

/-- Dropping words depends on the stack. -/
theorem local_dropTop (count : Nat) : Local FaultKind.Ordinary (changeStack (·.dropTop count)) :=
  local_changeStack fun _ _ h => (Stack.dropTop_eq_error_iff.1 h).2 ▸ trivial

/-- Copying words down depends on the stack. -/
theorem local_dupDown (count : Nat) : Local FaultKind.Ordinary (changeStack (·.dupDown count)) :=
  local_changeStack fun _ _ h => (Stack.dupDown_eq_error_iff.1 h).2 ▸ trivial

/-- Returning words depends on the stack. -/
theorem local_returnToBottom (count : Nat) :
    Local FaultKind.Ordinary (changeStack (·.returnToBottom count)) :=
  local_changeStack fun _ _ h => (Stack.returnToBottom_eq_error_iff.1 h).2 ▸ trivial

/-- A load depends on the stack and may be out of bounds. -/
theorem local_load (index : Int) : Local FaultKind.Ordinary (load index) :=
  local_readStack fun _ _ h => (Stack.get_eq_error_iff.1 h).2 ▸ trivial

/-- A store depends on the stack and may be out of bounds. -/
theorem local_store (index : Int) (w : Word) : Local FaultKind.Ordinary (store index w) :=
  local_changeStack fun _ _ h => (Stack.set_eq_error_iff.1 h).2 ▸ trivial

/-- A load from the globals depends on them and may be out of bounds. -/
theorem local_loadGlobal (index : Int) : Local FaultKind.Ordinary (loadGlobal index) := by
  intro s s' h
  unfold loadGlobal
  rw [← h.globals]
  cases hget : s.globals.get index with
  | ok w => exact .ok h rfl rfl ⟨rfl, rfl⟩
  | error k => exact .error ((Globals.get_eq_error_iff.1 hget).2 ▸ trivial) h rfl rfl

/-- A store to the globals depends on them and may be out of bounds. -/
theorem local_storeGlobal (index : Int) (w : Word) : Local FaultKind.Ordinary (storeGlobal index w) := by
  intro s s' h
  unfold storeGlobal
  rw [← h.globals]
  cases hset : s.globals.set index w with
  | ok globals => exact .ok ⟨h.stack, rfl⟩ rfl rfl ⟨rfl, rfl⟩
  | error k => exact .error ((Globals.set_eq_error_iff.1 hset).2 ▸ trivial) h rfl rfl

end

/-! ## Operations -/

/-- Operations without inline operands are local, and fault with ordinary faults. -/
theorem local_plain (op : PlainOp) : Local FaultKind.Ordinary (plain op) := by
  cases op with
  | binary op =>
    refine local_pop.bind fun right => local_top.bind fun left => ?_
    refine (local_ofExcept fun k h => ?_).bind fun _ => local_replaceTop _
    exact BinaryOp.eval_eq_error h ▸ trivial
  | unary => exact local_top.bind fun _ => local_replaceTop _
  | reserved => exact .throw trivial
  | nop => exact .pure ()
  | dup => exact local_top.bind fun _ => local_push _
  | debugPrint => exact local_pop.bind fun _ => local_record _
  | load => exact local_pop.bind fun _ => (local_load _).bind fun _ => local_push _
  | store => exact local_pop.bind fun _ => local_pop.bind fun _ => local_store _ _
  | storeGlobal => exact local_pop.bind fun _ => local_pop.bind fun _ => local_storeGlobal _ _

/-- Gathering is a loop of loads and pushes. -/
theorem local_gather (base : Int) (offsets : List Nat) :
    Local FaultKind.Ordinary (gather base offsets) :=
  .forM fun _ => (local_load _).bind fun _ => local_push _

/-- A gathering load pops its base and gathers. -/
theorem local_loadSwizzle (offsets : List UInt8) :
    Local FaultKind.Ordinary (loadSwizzle offsets) :=
  local_pop.bind fun _ => local_gather _ _

/-- A scattering store looks for its base, and then pops and stores each word. -/
theorem local_storeSwizzle (offsets : List UInt8) :
    Local FaultKind.Ordinary (storeSwizzle offsets) := by
  refine (local_peek _).bind fun _ => ?_
  refine (Local.forM fun _ => local_pop.bind fun _ => local_store _ _).bind fun _ => ?_
  exact local_pop.bind fun _ => .pure ()

/-- A swizzle is local. It is the only instruction that can refuse a number of lanes. -/
theorem local_swizzle (sources : UInt8) (indices : List UInt8) :
    Local (Instruction.swizzle sources indices).MayFault (swizzle sources indices) := by
  refine Local.guarded (fun hlanes => .inr ⟨_, _, rfl, hlanes, rfl⟩) ?_
  refine Local.mono (P := FaultKind.Ordinary) ?_ fun _ => .inl
  refine (local_popMany _).bind fun taken => .forM fun index => ?_
  cases taken[index.toNat]? with
  | some w => exact local_push w
  | none => exact .throw trivial

/-- Operands on lanes are popped and replaced, and a zero divisor is the only fault of their
arithmetic. -/
theorem local_binaryLanes (count : Nat) (op : BinaryOp) :
    Local FaultKind.Ordinary (binaryLanes count op) := by
  refine (local_popMany count).bind fun rights => (local_topN count).bind fun lefts => ?_
  refine (local_replaceTop _).bind fun _ => ?_
  cases hfault : (op.evalLanes lefts rights).2 with
  | none => exact .pure ()
  | some k => exact .throw (BinaryOp.evalLanes_fault hfault ▸ trivial)

/-- A lane-wide operation that is no branch. -/
theorem local_lanes {count : LaneCount} {op : LaneOp}
    (h : (Instruction.vector count op).target? = none) :
    Local FaultKind.Ordinary (lanes count.toNat op) := by
  cases op with
  | binary op => exact local_binaryLanes _ op
  | unary => exact (local_topN _).bind fun _ => local_replaceTop _
  | load => exact local_pop.bind fun _ => local_gather _ _
  | store =>
    exact (local_popMany _).bind fun _ => local_pop.bind fun _ => .forM fun _ => local_store _ _
  | loadGlobal => exact .forM fun _ => (local_loadGlobal _).bind fun _ => local_push _
  | branch | conditionalBranch => cases h

/-- Every instruction but a branch is local. -/
theorem local_step {i : Instruction} (h : i.target? = none) : Local i.MayFault (step i) := by
  have next : ∀ {x : Exec Unit}, Local FaultKind.Ordinary x →
      Local i.MayFault (do x; return Flow.next) :=
    fun hx => (hx.mono fun _ => .inl).bind fun _ => .pure _
  cases i with
  | plain op => exact next (local_plain op)
  | branch | conditionalBranch => cases h
  | dupDown => exact next (local_dupDown _)
  | loadGlobal =>
    exact ((local_loadGlobal _).mono fun _ => .inl).bind fun _ =>
      (local_push _).bind fun _ => .pure _
  | pop => exact next (local_dropTop _)
  | pushImmediate => exact next (local_push _)
  | ret => exact ((local_returnToBottom _).mono fun _ => .inl).bind fun _ => .pure _
  | loadSwizzle => exact next (local_loadSwizzle _)
  | storeSwizzle => exact next (local_storeSwizzle _)
  | swizzle => exact (local_swizzle _ _).bind fun _ => .pure _
  | vector => exact next (local_lanes h)

/-! ## Branches -/

/-- Where execution goes on after matching instructions: behind both of them, or at their targets. -/
def Continues (R : UInt16 → UInt16 → Prop) (s s' : State) (n n' : Nat) : Prop :=
  n = s.ip ∧ n' = s'.ip ∨ ∃ t t', R t t' ∧ n = t.toNat ∧ n' = t'.toNat

section
variable {P : FaultKind → Prop} {R : UInt16 → UInt16 → Prop} {s s' : State} {t t' : UInt16}

/-- Jumps to related targets go on there and leave the words alone. -/
theorem jump_alike (hR : R t t') (h : s.Agrees s') :
    Alike P (Continues R s s') s s' (jump t s) (jump t' s') :=
  .ok ⟨h.stack, h.globals⟩ rfl rfl (.inr ⟨t, t', hR, rfl, rfl⟩)

/-- Conditional jumps find the same condition, so both jump or none does. -/
theorem jumpIf_alike (hR : R t t') (h : s.Agrees s') :
    Alike FaultKind.Ordinary (Continues R s s') s s' (jumpIf t s) (jumpIf t' s') := by
  have hpop := local_pop h
  simp only [jumpIf, Bind.bind, EStateM.bind]
  generalize pop s = r at hpop
  generalize pop s' = r' at hpop
  cases hpop with
  | error hk hu hsteps hsteps' => exact .error hk hu hsteps hsteps'
  | @ok w u u' hu hsteps hsteps' hip =>
    dsimp only
    cases w.truth with
    | true => exact .ok ⟨hu.stack, hu.globals⟩ hsteps hsteps' (.inr ⟨t, t', hR, rfl, rfl⟩)
    | false => exact .ok hu hsteps hsteps' (.inl hip)

/-- What follows a computation does not change how it ended if it only adds a value. -/
theorem Alike.next {J : Nat → Nat → Prop} {x x' : Exec Unit} (h : Alike P J s s' (x s) (x' s')) :
    Alike P J s s' ((do x; return Flow.next : Exec Flow) s)
      ((do x'; return Flow.next : Exec Flow) s') := by
  simp only [Bind.bind, EStateM.bind]
  generalize x s = r at h
  generalize x' s' = r' at h
  cases h with
  | error hk hu hsteps hsteps' => exact .error hk hu hsteps hsteps'
  | ok hu hsteps hsteps' hJ => exact .ok hu hsteps hsteps' hJ

/-- **One step.** Matching instructions do the same to the same words. -/
theorem step_alike {i i' : Instruction} (hi : i.Matches R i') (h : s.Agrees s') :
    Alike i.MayFault (Continues R s s') s s' (step i s) (step i' s') := by
  cases hi with
  | same hi => exact (local_step hi h).mono (fun _ => id) fun _ _ => .inl
  | branch hR => exact (jump_alike hR h).next
  | conditionalBranch hR => exact ((jumpIf_alike hR h).mono (fun _ => .inl) fun _ _ => id).next
  | vectorBranch hR => exact (jump_alike hR h).next
  | vectorConditionalBranch hR =>
    exact ((jumpIf_alike hR h).mono (fun _ => .inl) fun _ _ => id).next

/-- An instruction goes on behind itself or at its target. -/
theorem ip_of_step {i : Instruction} {flow : Flow} {t : State} (h : step i s = .ok flow t) :
    t.ip = s.ip ∨ ∃ target, i.target? = some target ∧ t.ip = target.toNat := by
  have hstep := step_alike i.matches_self (s := s) ⟨rfl, rfl⟩
  rw [h] at hstep
  cases hstep with
  | ok _ _ _ hip => exact hip.imp And.left fun ⟨target, _, htarget, hip, _⟩ => ⟨target, htarget, hip⟩

/-- An instruction faults only in the ways in which it may. -/
theorem mayFault_of_step {i : Instruction} {k : FaultKind} {t : State}
    (h : step i s = .error k t) : i.MayFault k := by
  have hstep := step_alike i.matches_self (s := s) ⟨rfl, rfl⟩
  rw [h] at hstep
  cases hstep with
  | error hk => exact hk

/-- An instruction that succeeds counts no further one. -/
theorem steps_of_step_ok {i : Instruction} {flow : Flow} {t : State} (h : step i s = .ok flow t) :
    t.steps = s.steps := by
  have hstep := step_alike i.matches_self (s := s) ⟨rfl, rfl⟩
  rw [h] at hstep
  cases hstep with
  | ok _ hsteps => exact hsteps

/-- An instruction that faults counts no further one. -/
theorem steps_of_step_error {i : Instruction} {k : FaultKind} {t : State}
    (h : step i s = .error k t) : t.steps = s.steps := by
  have hstep := step_alike i.matches_self (s := s) ⟨rfl, rfl⟩
  rw [h] at hstep
  cases hstep with
  | error _ _ hsteps => exact hsteps

end

end Exec

end ShaderMachine
