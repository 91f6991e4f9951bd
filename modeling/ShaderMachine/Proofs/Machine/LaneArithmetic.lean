import ShaderMachine.Proofs.Machine.Locality
import ShaderMachine.Proofs.Machine.Words

/-!
# Arithmetic lane by lane

`vector` takes the operands of a two-operand operation as two groups, the right operands above the
left ones, and pairs them in order. `Exec.step_vector_arithmetic` says what that comes to: each lane
computes what the operation computes from its pair, the results stand where the left operands stood,
and what is beneath them stays. The first lane that faults ends the instruction; the lanes before it
have their results then, and the others still have their left operands.
-/

namespace ShaderMachine

/-! ## Lanes -/

namespace BinaryOp

/-- The operation gives the word on a lane, which is a pair of a left and a right operand. -/
def Gives (op : BinaryOp) (lane : Word × Word) (w : Word) : Prop := op.eval lane.1 lane.2 = .ok w

/-- The words that the lanes leave in the place of their left operands, and the fault in which they
end: all have their results, or the first one that faults and those behind it keep their operands. -/
inductive Lanes (op : BinaryOp) (lefts rights : List Word) : List Word → Option FaultKind → Prop
  | all {results : List Word} : List.Forall₂ op.Gives (lefts.zip rights) results →
      Lanes op lefts rights results none
  | upTo {before : List (Word × Word)} {lane : Word × Word} {after : List (Word × Word)}
      {results : List Word} : lefts.zip rights = before ++ lane :: after →
      List.Forall₂ op.Gives before results → op.eval lane.1 lane.2 = .error .divisionByZero →
      Lanes op lefts rights (results ++ lefts.drop before.length) (some .divisionByZero)

section
variable {op : BinaryOp} {lefts rights words : List Word} {fault : Option FaultKind}

/-- Evaluating the lanes in turn leaves what `Lanes` describes. The induction is on the lanes, and
the first of them decides whether there are more. -/
theorem lanes_evalLanes (op : BinaryOp) (h : lefts.length = rights.length) :
    op.Lanes lefts rights (op.evalLanes lefts rights).1 (op.evalLanes lefts rights).2 := by
  induction lefts generalizing rights with
  | nil => exact .all .nil
  | cons left lefts ih =>
    cases rights with
    | nil => cases h
    | cons right rights =>
      have ih := ih (Nat.succ.inj h)
      rw [evalLanes]
      cases heval : op.eval left right with
      | error k =>
        obtain rfl := eval_eq_error heval
        have hlanes : (left :: lefts).zip (right :: rights) =
            [] ++ (left, right) :: lefts.zip rights := rfl
        exact .upTo hlanes .nil heval
      | ok w =>
        generalize op.evalLanes lefts rights = r at ih
        obtain ⟨words, fault⟩ := r
        cases ih with
        | all hresults => exact .all (.cons heval hresults)
        | @upTo before lane after results hlanes hresults hfault =>
          have hlanes : (left :: lefts).zip (right :: rights) =
              ((left, right) :: before) ++ lane :: after := by
            rw [List.zip_cons_cons, hlanes, List.cons_append]
          exact .upTo hlanes (.cons heval hresults) hfault

/-- There is a word in the place of each left operand. -/
theorem Lanes.length_eq (h : op.Lanes lefts rights words fault)
    (hlength : lefts.length = rights.length) : words.length = lefts.length := by
  cases h with
  | all hresults => rw [← hresults.length_eq, List.length_zip, hlength, Nat.min_self]
  | @upTo before lane after results hlanes hresults _ =>
    have hbefore := congrArg List.length hlanes
    simp only [List.length_zip, List.length_append, List.length_cons] at hbefore
    rw [List.length_append, List.length_drop, ← hresults.length_eq]
    omega

/-- The lanes end without a fault exactly if each of them has a result. -/
theorem Lanes.fault_eq_none_iff (h : op.Lanes lefts rights words fault) :
    fault = none ↔ ∀ lane ∈ lefts.zip rights, ∃ w, op.Gives lane w := by
  cases h with
  | all hresults =>
    have hgives : List.Forall₂ (fun lane w => (∃ w, op.Gives lane w) ∧ op.Gives lane w)
        (lefts.zip rights) words := hresults.imp fun _ w hw => ⟨⟨w, hw⟩, hw⟩
    exact iff_of_true rfl ((List.forall₂_and_left _ _).1 hgives).1
  | @upTo before lane after results hlanes _ hfault =>
    refine iff_of_false nofun fun hall => ?_
    obtain ⟨w, hw⟩ := hall lane (by rw [hlanes]; exact List.mem_append_right _ (.head _))
    rw [Gives, hfault] at hw
    cases hw

end

end BinaryOp

namespace Exec

/-! ## Operations on lanes -/

/-- A two-operand operation leaves what its lanes leave, and ends as they end. -/
theorem binaryLanes_append (op : BinaryOp) (s : State) (rest : List Word)
    {lefts rights : List Word} (h : lefts.length = rights.length) :
    binaryLanes rights.length op (s.withStack (rest ++ lefts ++ rights)) =
      match op.evalLanes lefts rights with
      | (words, none) => .ok () (s.withStack (rest ++ words))
      | (words, some k) => .error k (s.withStack (rest ++ words)) := by
  have hlength := (op.lanes_evalLanes h).length_eq h
  have htop := readStack_topN_append s rest lefts
  rw [h] at htop
  simp only [binaryLanes, Bind.bind, EStateM.bind, popMany_append, htop]
  generalize op.evalLanes lefts rights = r at hlength
  obtain ⟨words, fault⟩ := r
  simp only [changeStack_replaceTop_append s rest hlength]
  cases fault <;> rfl

/-- A one-operand operation computes each lane in its place and cannot fault. -/
theorem unaryLanes_append (op : UnaryOp) (s : State) (rest words : List Word) :
    lanes words.length (.unary op) (s.withStack (rest ++ words)) =
      .ok () (s.withStack (rest ++ words.map op.eval)) := by
  simp only [lanes, Bind.bind, EStateM.bind, readStack_topN_append,
    changeStack_replaceTop_append s rest (List.length_map op.eval)]

/-- **Arithmetic lane by lane.** With as many words in each group as there are lanes, a two-operand
operation succeeds exactly if it does on every lane. Then the results of the lanes stand above the
words of `rest`; otherwise those of the lanes before the first one that divides by zero, and the
left operands of the others. A one-operand operation rewrites the word of every lane. -/
theorem step_vector_arithmetic (count : LaneCount) (s : State) (rest : List Word)
    {lefts : List Word} (hlefts : lefts.length = count.toNat) :
    (∀ (op : BinaryOp) (rights : List Word), rights.length = count.toNat →
      s.stack.toList = rest ++ lefts ++ rights →
      ((∃ flow t, step (.vector count (.binary op)) s = .ok flow t) ↔
        ∀ lane ∈ lefts.zip rights, ∃ w, op.Gives lane w) ∧
      ∃ words, (op.Lanes lefts rights words none ∧
          step (.vector count (.binary op)) s = .ok .next (s.withStack (rest ++ words))) ∨
        (op.Lanes lefts rights words (some .divisionByZero) ∧
          step (.vector count (.binary op)) s =
            .error .divisionByZero (s.withStack (rest ++ words)))) ∧
    ∀ op : UnaryOp, s.stack.toList = rest ++ lefts →
      step (.vector count (.unary op)) s = .ok .next (s.withStack (rest ++ lefts.map op.eval)) := by
  constructor
  · intro op rights hrights hstack
    have hlength : lefts.length = rights.length := hlefts.trans hrights.symm
    have hlanes := op.lanes_evalLanes hlength
    have hbinary := binaryLanes_append op s rest hlength
    rw [← State.eq_withStack hstack, hrights] at hbinary
    have hstep : step (.vector count (.binary op)) s =
        (binaryLanes count.toNat op >>= fun _ => pure Flow.next) s := rfl
    rw [← hlanes.fault_eq_none_iff, hstep]
    simp only [Bind.bind, EStateM.bind, hbinary]
    generalize op.evalLanes lefts rights = r at hlanes
    obtain ⟨words, fault⟩ := r
    cases fault with
    | none => exact ⟨iff_of_true ⟨_, _, rfl⟩ rfl, words, .inl ⟨hlanes, rfl⟩⟩
    | some k =>
      cases hlanes with
      | upTo hzip hresults hfault =>
        refine ⟨iff_of_false nofun nofun, _, .inr ⟨.upTo hzip hresults hfault, rfl⟩⟩
  · intro op hstack
    have hunary := unaryLanes_append op s rest lefts
    rw [← State.eq_withStack hstack, hlefts] at hunary
    have hstep : step (.vector count (.unary op)) s =
        (lanes count.toNat (.unary op) >>= fun _ => pure Flow.next) s := rfl
    rw [hstep]
    simp only [Bind.bind, EStateM.bind, hunary]
    rfl

/-- Three left operands above a word, and as many right operands above these. -/
def threeLanes : State := ⟨0, 0, ⟨#[⟨9⟩, ⟨8⟩, ⟨6⟩, ⟨4⟩, ⟨2⟩, ⟨0⟩, ⟨2⟩]⟩, {}, #[]⟩

/-- The second lane divides by zero, so it keeps its left operand and the third lane does too. -/
theorem step_vector_arithmetic_threeLanes :
    ∃ count : LaneCount, count.toNat = 3 ∧
      threeLanes.stack.toList = [⟨9⟩] ++ [⟨8⟩, ⟨6⟩, ⟨4⟩] ++ [⟨2⟩, ⟨0⟩, ⟨2⟩] ∧
      BinaryOp.divideUnsigned.Lanes [⟨8⟩, ⟨6⟩, ⟨4⟩] [⟨2⟩, ⟨0⟩, ⟨2⟩] [⟨4⟩, ⟨6⟩, ⟨4⟩]
        (some .divisionByZero) ∧
      step (.vector count (.binary .divideUnsigned)) threeLanes =
        .error .divisionByZero (threeLanes.withStack ([⟨9⟩] ++ [⟨4⟩, ⟨6⟩, ⟨4⟩])) ∧
      step (.vector count (.unary .not)) threeLanes =
        .ok .next (threeLanes.withStack ([⟨9⟩, ⟨8⟩, ⟨6⟩, ⟨4⟩] ++ [⟨0⟩, ⟨1⟩, ⟨0⟩])) := by
  refine ⟨⟨3, by decide, by decide⟩, rfl, rfl, ?_⟩
  have hbinary := (@step_vector_arithmetic ⟨3, by decide, by decide⟩ threeLanes [⟨9⟩]
    [⟨8⟩, ⟨6⟩, ⟨4⟩] rfl).1 .divideUnsigned [⟨2⟩, ⟨0⟩, ⟨2⟩] rfl rfl
  have hunary := (@step_vector_arithmetic ⟨3, by decide, by decide⟩ threeLanes
    [⟨9⟩, ⟨8⟩, ⟨6⟩, ⟨4⟩] [⟨2⟩, ⟨0⟩, ⟨2⟩] rfl).2 .not rfl
  obtain ⟨-, words, ⟨-, hstep⟩ | ⟨hlanes, hstep⟩⟩ := hbinary
  · cases hstep
  · obtain rfl : words = [⟨4⟩, ⟨6⟩, ⟨4⟩] := by
      injection hstep with _ hstate
      exact List.append_cancel_left (congrArg (·.stack.toList) hstate).symm
    exact ⟨hlanes, hstep, hunary⟩

end Exec

end ShaderMachine
