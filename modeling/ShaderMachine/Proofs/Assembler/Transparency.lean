import ShaderMachine.Proofs.Assembler.Running

/-!
# Padding makes no difference to a run

`yields_of_padded` says that adding `nop`s to a sequence of calls, anywhere, does not change what an
invocation comes to: its results or the kind of its fault, and the words it leaves. Offsets change,
and so may the padding in front of operands and the targets of branches.

Neither body is compared with the other. What they have in common is the sequence of calls without
`nop`s (`unpadded`), and a body `Implements` such a sequence when it reads as the calls that matter
from its start and from wherever a label stands (`ReadsAs`). Two bodies that implement the same
calls run alike (`execute_of_implements`): where one passes padding the other waits, and else both
execute what the same call has added.
-/

namespace ShaderMachine

namespace Assembler

/-! ## Calls without padding -/

/-- The second sequence of calls is the first with calls that add a `nop` put in anywhere. -/
inductive Padded : List Call → List Call → Prop
  | nil : Padded [] []
  | keep {c calls calls'} : Padded calls calls' → Padded (c :: calls) (c :: calls')
  | nop {calls calls'} : Padded calls calls' → Padded calls (.op (.plain .nop) :: calls')

/-- The calls but those that add a `nop`. -/
def unpadded (calls : List Call) : List Call := calls.filter (· ≠ .op (.plain .nop))

/-- Whether execution does something at what the call adds. -/
def Call.acts : Call → Bool
  | .newLabel | .bind _ | .op (.plain .nop) => false
  | _ => true

/-- The calls behind the one that binds the label. -/
def behind (label : Label) (calls : List Call) : List Call :=
  (calls.dropWhile (· ≠ .bind label)).tail

/-- Both sequences of calls are the same without their `nop`s. -/
theorem Padded.unpadded_eq {calls calls' : List Call} (h : Padded calls calls') :
    unpadded calls = unpadded calls' := by
  induction h with
  | nil => rfl
  | keep _ ih =>
    simp only [unpadded, List.filter_cons] at ih ⊢
    rw [ih]
  | nop _ ih => simpa [unpadded] using ih

/-- Calls that act are none of those left out. -/
theorem filter_acts_unpadded (calls : List Call) :
    (unpadded calls).filter Call.acts = calls.filter Call.acts := by
  rw [unpadded, List.filter_filter]
  congr 1
  funext c
  by_cases h : c = .op (.plain .nop)
  · subst h; rfl
  · simp [h]

/-- Leaving out the `nop`s behind a label leaves them out of the calls that follow it. -/
theorem behind_unpadded {pre post : List Call} {label : Label} (h : .bind label ∉ pre) :
    behind label (unpadded (pre ++ .bind label :: post)) = unpadded post := by
  have hpre : ∀ c ∈ unpadded pre, decide (c ≠ .bind label) = true := by
    intro c hc
    have hmem := (List.mem_filter.1 hc).1
    exact decide_eq_true fun heq => h (heq ▸ hmem)
  have hbind : unpadded (.bind label :: post) = .bind label :: unpadded post :=
    List.filter_cons_of_pos rfl
  rw [behind, unpadded, List.filter_append, ← unpadded, ← unpadded, hbind,
    List.dropWhile_append_of_pos hpre, List.dropWhile_cons_of_neg (by simp), List.tail_cons]

/-- The calls behind a label are some of all the calls. -/
theorem behind_subset (label : Label) (calls : List Call) : behind label calls ⊆ calls :=
  fun _ hc => (List.dropWhile_sublist _).subset (List.mem_of_mem_tail hc)

/-- A call that does not act is about a label or adds a `nop`. -/
theorem acts_eq_false_iff {c : Call} :
    c.acts = false ↔ c.Labels ∨ c = .op (.plain .nop) := by
  unfold Call.acts
  split <;> simp_all [Call.Labels]

/-- A call about labels adds nothing. -/
theorem emission?_of_labels (target : Label → UInt16) {c : Call} (h : c.Labels) :
    c.emission? target = none := by
  cases c with
  | newLabel | bind => rfl
  | _ => cases h

/-! ## Bodies that read as calls -/

/-- From an offset on, a body reads as the calls when labels stand for `target`: padding apart, it
holds what each of them adds. -/
inductive ReadsAs (code : Code) (target : Label → UInt16) : Nat → List Call → Prop
  | done : ReadsAs code target code.size []
  | nop {ip next calls} : code.readInstruction ip = .ok (.plain .nop) next →
      ReadsAs code target next calls → ReadsAs code target ip calls
  | instruction {ip next c i calls} : c.emission? target = some (.instruction i) →
      code.readInstruction ip = .ok i next → ReadsAs code target next calls →
      ReadsAs code target ip (c :: calls)
  /-- What a call adds may not be readable. -/
  | refused {ip ip' c lanes op calls} : c.emission? target = some (.unwidened lanes op) →
      code.readInstruction ip = .error (.unsupportedLaneOp (.plain op)) ip' →
      ReadsAs code target ip (c :: calls)

section
variable {code code' : Code} {target target' : Label → UInt16} {calls : List Call}

/-- Padding in front of where a body reads as calls reads as those calls too. -/
theorem ReadsAs.nops {ip ip' count : Nat}
    (hspan : code.Spans ip (List.replicate count PlainOp.nop.byte) ip')
    (h : ReadsAs code target ip' calls) : ReadsAs code target ip calls := by
  induction count generalizing ip with
  | zero =>
    obtain ⟨rfl, -⟩ := Code.spans_nil_iff.1 hspan
    exact h
  | succ count ih =>
    obtain ⟨hnop, hspan⟩ := Code.spans_cons_iff.1 hspan
    exact .nop (Code.readInstruction_eq_ok_iff.2 ⟨trivial, trivial, hnop⟩) (ih hspan)

/-- The bytes of accepted calls, at the end of a body, read as those of the calls that act. -/
theorem readsAs_of_spans {position : Nat} (haccepted : ∀ c ∈ calls, c.Accepted)
    (hspan : code.Spans position (layoutBytes target position calls) code.size) :
    ReadsAs code target position (calls.filter Call.acts) := by
  induction calls generalizing position with
  | nil =>
    obtain ⟨rfl, -⟩ := Code.spans_nil_iff.1 hspan
    exact .done
  | cons c calls ih =>
    rw [layoutBytes] at hspan
    obtain ⟨hcall, hspan⟩ := Code.spans_append_iff.1 hspan
    have ih := ih (fun c hc => haccepted c (.tail _ hc)) hspan
    rcases emission?_cases target (haccepted c (.head _)) with
      ⟨hlabels, hnone⟩ | ⟨hlabels, i, hi, hfits⟩ | ⟨hwide, lanes, op, hop, hunwidened⟩
    · have hacts : c.acts = false := acts_eq_false_iff.2 (.inl hlabels)
      simp only [hnone, Call.bytes] at ih
      simpa [List.filter_cons, hacts] using ih
    · simp only [hi, Call.bytes] at hcall ih
      obtain ⟨hnops, hspan⟩ := Code.spans_append_iff.1 hcall
      rw [List.length_replicate] at hnops hspan
      have hread := Code.readInstruction_eq_ok_iff.2 ⟨hfits, i.aligned_padding position, hspan⟩
      refine ReadsAs.nops hnops ?_
      cases hacts : c.acts with
      | true =>
        rw [List.filter_cons_of_pos hacts]
        exact .instruction hi hread ih
      | false =>
        rw [List.filter_cons_of_neg (by simp [hacts])]
        have hnop := (acts_eq_false_iff.1 hacts).resolve_left hlabels
        subst hnop
        cases hi
        exact .nop hread ih
    · simp only [hop, Call.bytes] at hcall
      obtain ⟨ip', hread⟩ := Code.readInstruction_unwidened hunwidened hcall
      have hacts : c.acts = true := by
        rw [← Bool.not_eq_false, acts_eq_false_iff]
        rintro (hlabels | rfl)
        · rw [emission?_of_labels target hlabels] at hop
          cases hop
        · exact hwide trivial
      rw [List.filter_cons_of_pos hacts]
      exact .refused hop hread

/-- A body holds the calls: it reads as them from its start, and from where a label that one of them
branches to stands as those behind the binding. -/
structure Implements (code : Code) (target : Label → UInt16) (calls : List Call) : Prop where
  start : ReadsAs code target 0 (calls.filter Call.acts)
  labels : ∀ c ∈ calls, ∀ label, c.label? = some label →
    ReadsAs code target (target label).toNat ((behind label calls).filter Call.acts)

/-- A finished body holds its calls, and it does not matter how they are padded. -/
theorem LaidOut.implements (h : LaidOut calls code target) :
    Implements code target (unpadded calls) := by
  have hreads : ∀ pre post, calls = pre ++ post →
      ReadsAs code target (build pre).position (post.filter Call.acts) := by
    rintro pre post rfl
    exact readsAs_of_spans
      (fun c hc => accepted_of_build h.error (List.mem_append_right _ hc)) h.spans
  refine ⟨?_, fun c hc label hlabel => ?_⟩
  · rw [filter_acts_unpadded]
    exact hreads [] calls rfl
  · obtain ⟨⟨pre, post, hcalls⟩, htarget⟩ := h.targets (List.mem_filter.1 hc).1 hlabel
    have hpre : .bind label ∉ pre := not_mem_of_bind (hcalls ▸ h.error)
    rw [htarget pre post hcalls]
    subst hcalls
    rw [behind_unpadded hpre, filter_acts_unpadded]
    exact hreads pre (.bind label :: post) rfl

/-! ## Bodies that hold the same calls -/

/-- What stands at an offset, once padding has been passed. -/
def Settled (code : Code) (target : Label → UInt16) (ip : Nat) : List Call → Prop
  | [] => ip = code.size
  | c :: calls =>
    (∃ i next, c.emission? target = some (.instruction i) ∧
      code.readInstruction ip = .ok i next ∧ ReadsAs code target next calls) ∨
    ∃ lanes op ip', c.emission? target = some (.unwidened lanes op) ∧
      code.readInstruction ip = .error (.unsupportedLaneOp (.plain op)) ip'

variable {settings settings' : RunSettings} {s s' : State}

/-- Where a body reads as calls there is either padding to pass, or what the first call has
added. -/
theorem ReadsAs.nop_or_settled {ip : Nat} (h : ReadsAs code target ip calls) :
    (∃ next, code.readInstruction ip = .ok (.plain .nop) next ∧ ReadsAs code target next calls) ∨
      Settled code target ip calls := by
  cases h with
  | done => exact .inr rfl
  | nop hread hreads => exact .inl ⟨_, hread, hreads⟩
  | instruction hi hread hreads => exact .inr (.inl ⟨_, _, hi, hread, hreads⟩)
  | refused hop hread => exact .inr (.inr ⟨_, _, _, hop, hread⟩)

/-- A run without a budget passes padding and then finds what the next call has added. -/
theorem ReadsAs.settle (hbudget : settings.budget = none) (h : ReadsAs code target s.ip calls) :
    ∃ s₁, Reaches code settings s s₁ ∧ s.Agrees s₁ ∧ Settled code target s₁.ip calls := by
  generalize hip : s.ip = ip at h
  induction h generalizing s with
  | done => exact ⟨s, .start, .refl s, hip⟩
  | nop hread _ ih =>
    subst hip
    obtain ⟨t, hturn, hip, hagrees⟩ := turn_nop (spentBudget?_eq_none hbudget s.steps) hread
    obtain ⟨s₁, hreaches, hagrees₁, hsettled⟩ := ih hip
    exact ⟨s₁, (Reaches.start.after hturn).trans hreaches, hagrees.trans hagrees₁, hsettled⟩
  | instruction hi hread hreads _ =>
    exact ⟨s, .start, .refl s, .inl ⟨_, _, hi, hip ▸ hread, hreads⟩⟩
  | refused hop hread => exact ⟨s, .start, .refl s, .inr ⟨_, _, _, hop, hip ▸ hread⟩⟩

/-- A call of which nothing can be read adds the same to every body. -/
theorem emission?_unwidened {c : Call} {lanes : LaneCount} {op : PlainOp}
    (h : c.emission? target = some (.unwidened lanes op)) :
    c.emission? target' = some (.unwidened lanes op) := by
  cases c with
  | vector _ op' =>
    cases op' with
    | plain => exact h
    | _ => cases h
  | op op' => cases op' <;> cases h
  | vectorLoadGlobal =>
    obtain ⟨_, -, h⟩ := Option.map_eq_some_iff.1 h
    cases h
  | vectorBranch _ op' =>
    cases op' with
    | branch | conditionalBranch =>
      obtain ⟨_, -, h⟩ := Option.map_eq_some_iff.1 h
      cases h
    | _ => cases h
  | _ => cases h

/-- **One turn.** Where padding has been passed on both sides, both turns end alike, and if they go
on, both bodies read as the same calls again. -/
theorem turn_of_implements {p rest : List Call} (h : Implements code target p)
    (h' : Implements code' target' p) (hbudget : settings.budget = none)
    (hbudget' : settings'.budget = none) (hrest : rest ⊆ p) (hagrees : s.Agrees s')
    (hs : Settled code target s.ip rest) (hs' : Settled code' target' s'.ip rest) :
    TurnsAlike (fun ip ip' => ∃ rest, rest ⊆ p ∧ ReadsAs code target ip rest ∧
      ReadsAs code' target' ip' rest) (turn code settings s) (turn code' settings' s') := by
  have hspent := spentBudget?_eq_none hbudget s.steps
  have hspent' := spentBudget?_eq_none hbudget' s'.steps
  cases rest with
  | nil =>
    have hread := hs ▸ Code.readInstruction_size code
    have hread' := hs' ▸ Code.readInstruction_size code'
    exact turn_alike_of_unread hagrees hspent hspent' hread hread'
  | cons c rest =>
    rcases hs with ⟨i, next, hi, hread, hreads⟩ | ⟨lanes, op, ip, hop, hread⟩
    · obtain ⟨i', hi', hmatches⟩ := instruction_matches target target' hi
      rcases hs' with ⟨i₁, next', hi₁, hread', hreads'⟩ | ⟨_, _, _, hop', -⟩
      · rw [hi'] at hi₁
        cases hi₁
        refine (turn_alike hmatches hagrees hspent hspent' hread hread').mono ?_
        -- Both sides go on behind the instruction, or where the same label stands.
        rintro ip ip' (⟨rfl, rfl⟩ | ⟨_, _, ⟨label, hlabel, rfl, rfl⟩, rfl, rfl⟩)
        · exact ⟨rest, fun c hc => hrest (.tail _ hc), hreads, hreads'⟩
        · have hc := hrest (.head _)
          exact ⟨_, fun c hc => behind_subset label p (List.mem_filter.1 hc).1,
            h.labels c hc label hlabel, h'.labels c hc label hlabel⟩
      · rw [hi'] at hop'
        cases hop'
    · rcases hs' with ⟨_, _, hi', -⟩ | ⟨lanes', op', ip', hop', hread'⟩
      · rw [emission?_unwidened hop] at hi'
        cases hi'
      · rw [emission?_unwidened hop] at hop'
        cases hop'
        exact turn_alike_of_unread hagrees hspent hspent' hread hread'

/-- **One run.** Bodies that hold the same calls run alike from where they read as the same ones. -/
theorem execute_of_implements {p rest : List Call} (h : Implements code target p)
    (h' : Implements code' target' p) (hbudget : settings.budget = none)
    (hbudget' : settings'.budget = none) (hrest : rest ⊆ p) (hagrees : s.Agrees s')
    (hs : ReadsAs code target s.ip rest) (hs' : ReadsAs code' target' s'.ip rest)
    {turns : Nat} {stop : Stop} {t : State}
    (hrun : execute code settings turns s = some (stop, t)) :
    ∃ turns' stop' t', execute code' settings' turns' s' = some (stop', t') ∧
      stop.kind = stop'.kind ∧ t.Agrees t' := by
  induction turns generalizing s s' rest with
  | zero => cases hrun
  | succ turns ih =>
    rw [execute] at hrun
    -- Padding on this side is passed turn by turn, and then all padding on the other side at once.
    rcases hs.nop_or_settled with ⟨next, hread, hs⟩ | hs
    · obtain ⟨s₁, hturn, rfl, hagrees₁⟩ := turn_nop (spentBudget?_eq_none hbudget s.steps) hread
      rw [hturn] at hrun
      exact ih hrest (hagrees₁.symm.trans hagrees) hs hs' hrun
    · obtain ⟨s₁, hreaches, hagrees₁, hs₁⟩ := hs'.settle hbudget'
      have hturns := turn_of_implements h h' hbudget hbudget' hrest (hagrees.trans hagrees₁) hs hs₁
      generalize turn code settings s = r at hrun hturns
      generalize hr' : turn code' settings' s₁ = r' at hturns
      cases hturns with
      | @stop stop₁ stop' t₁ t' hkind ht =>
        obtain ⟨rfl, rfl⟩ := Prod.mk.inj (Option.some.inj hrun)
        have hrun' : execute code' settings' 1 s₁ = some (stop', t') := by rw [execute, hr']
        obtain ⟨turns', hrun'⟩ := hreaches.execute 1 hrun'
        exact ⟨turns', stop', t', hrun', hkind, ht⟩
      | next ht hreads =>
        obtain ⟨rest', hrest', hs, hs'⟩ := hreads
        obtain ⟨turns', stop', t', hrun', hkind, ht⟩ := ih hrest' ht hs hs' hrun
        obtain ⟨turns', hrun'⟩ := (hreaches.after hr').execute turns' hrun'
        exact ⟨turns', stop', t', hrun', hkind, ht⟩

/-- Invocations of functions with bodies that hold the same calls come to the same. -/
theorem yields_of_implements {p : List Call} (h : Implements code target p)
    (h' : Implements code' target' p) {vm : Interpreter} (hbudget : vm.options.budget = none)
    {f : Function} {inv : Invocation} {verbose : Bool} {e : Effect}
    (hyields : vm.Yields { f with code := code } inv verbose e) :
    vm.Yields { f with code := code' } inv verbose e := by
  refine hyields.of_execute ?_
  intro s s' turns stop t hip hip' hagrees hrun
  have hsub : p.filter Call.acts ⊆ p := fun _ hc => (List.mem_filter.1 hc).1
  have hs : ReadsAs code target s.ip (p.filter Call.acts) := hip ▸ h.start
  have hs' : ReadsAs code' target' s'.ip (p.filter Call.acts) := hip' ▸ h'.start
  exact execute_of_implements h h' hbudget hbudget hsub hagrees hs hs' hrun

/-- **Padding is transparent.** An invocation without a budget comes to the same whether or not
`nop`s are added to the calls that its body is built from. -/
theorem yields_of_padded {calls calls' : List Call} (hpadded : Padded calls calls')
    (h : (build calls).finish = .ok code) (h' : (build calls').finish = .ok code')
    (vm : Interpreter) (hbudget : vm.options.budget = none) (f : Function) (inv : Invocation)
    (verbose : Bool) :
    (∀ e, vm.Yields { f with code := code } inv verbose e ↔
      vm.Yields { f with code := code' } inv verbose e) ∧
    ∀ e e', vm.Yields { f with code := code } inv verbose e →
      vm.Yields { f with code := code' } inv verbose e' → e = e' := by
  have himplements := (laidOut_of_finish h).implements
  have himplements' := (laidOut_of_finish h').implements
  rw [← hpadded.unpadded_eq] at himplements'
  refine ⟨fun e => ⟨yields_of_implements himplements himplements' hbudget,
    yields_of_implements himplements' himplements hbudget⟩, fun e e' he he' => ?_⟩
  exact (yields_of_implements himplements himplements' hbudget he).unique he'

end

/-- The calls of `loopCalls` with `nop`s before and behind the places where labels are bound, which
moves both targets. -/
def paddedLoopCalls : List Call :=
  [.newLabel, .newLabel, .op (.plain .nop), .op (.plain .dup), .pushImmediate ⟨7⟩,
    .op (.plain .nop), .bind ⟨0⟩, .op (.plain .nop), .vector 2 (.plain (.binary .addInt)),
    .vectorBranch 2 .conditionalBranch ⟨0⟩, .branch ⟨1⟩, .op (.plain .nop), .bind ⟨1⟩, .ret 1]

def paddedLoopCode : Code :=
  #[37, 26, 37, 43, 7, 0, 0, 0, 37, 37, 55, 2, 1, 55, 2, 21, 9, 0, 37, 4, 23, 0, 37, 46, 1]

def loopFunction : Function := ⟨"loop", [⟨4, false⟩], 0, loopCode, ⟨0, []⟩⟩

def loopInvocation : Invocation := ⟨#[⟨1⟩, ⟨2⟩, ⟨3⟩, ⟨0xFFFFFFF9⟩], #[]⟩

deriving instance DecidableEq for Effect

def loopEffect : Effect :=
  ⟨.ok [⟨0xFFFFFFFC⟩], loopInvocation.args, ⟨#[⟨0xFFFFFFFC⟩, ⟨2⟩, ⟨0xFFFFFFFC⟩]⟩, ⟨#[]⟩⟩

/-- The body of `loopCalls` yields the same with padding put in, which moves all its targets. -/
theorem yields_of_paddedLoopCalls :
    Padded loopCalls paddedLoopCalls ∧ (build loopCalls).finish = .ok loopCode ∧
      (build paddedLoopCalls).finish = .ok paddedLoopCode ∧
      ({} : Interpreter).options.budget = none ∧
      ({} : Interpreter).Yields { loopFunction with code := loopCode } loopInvocation false
        loopEffect ∧
      ({} : Interpreter).Yields { loopFunction with code := paddedLoopCode } loopInvocation false
        loopEffect := by
  have hpadded : Padded loopCalls paddedLoopCalls :=
    .keep (.keep (.nop (.keep (.keep (.nop (.keep (.nop (.keep (.keep (.keep (.nop (.keep
      (.keep .nil)))))))))))))
  have hfinish : (build paddedLoopCalls).finish = .ok paddedLoopCode := rfl
  have hrun : (({} : Interpreter).run { loopFunction with code := loopCode } loopInvocation false
      20).map Outcome.effect = some loopEffect := by decide +kernel
  obtain ⟨o, hrun, heffect⟩ := Option.map_eq_some_iff.1 hrun
  have hyields : ({} : Interpreter).Yields { loopFunction with code := loopCode } loopInvocation
      false loopEffect := ⟨20, o, hrun, heffect⟩
  have htransparent := yields_of_padded hpadded finish_loopCalls hfinish {} rfl loopFunction
    loopInvocation false
  exact ⟨hpadded, finish_loopCalls, hfinish, rfl, hyields, (htransparent.1 loopEffect).1 hyields⟩

end Assembler

end ShaderMachine
