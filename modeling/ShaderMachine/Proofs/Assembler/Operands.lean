import ShaderMachine.Proofs.Assembler.Drafting

/-!
# The operand of a branch

A statement that branches is read from tokens that end in its target (`Statement.ensures_read`). What
reading gives is followed along the reader: `Ensures` holds of a reader that gives only values with a
property, or none, and it is closed under bind.
-/

namespace ShaderMachine

namespace Statement

section
variable {ε α β : Type} {P : α → Prop} {Q : β → Prop}

/-- What is read, if anything is, has the property. -/
def Ensures (P : α → Prop) (r : Except ε α) : Prop := ∀ a, r = .ok a → P a

/-- A reader that only gives a value with the property ensures it. -/
theorem Ensures.pure {a : α} (h : P a) : Ensures P (pure a : Except ε α) := by
  rintro _ ⟨⟩
  exact h

/-- A reader that refuses gives no value, so it ensures any property. -/
theorem Ensures.error (e : ε) : Ensures P (.error e) := nofun

/-- Readers in sequence ensure what the last of them does, given what the first one has read. -/
theorem Ensures.bind {r : Except ε α} {f : α → Except ε β}
    (h : ∀ a, r = .ok a → Ensures Q (f a)) : Ensures Q (r >>= f) := by
  intro b hb
  cases hr : r with
  | error e =>
    rw [hr] at hb
    cases hb
  | ok a =>
    rw [hr] at hb
    exact h a hr b hb

end

/-- If the statement branches, the last token is its target. -/
def EndsInTarget (tokens : List String) (s : Statement) : Prop :=
  ∀ t, s.target? = some t → tokens.getLast? = some t.token ∧ readTarget t.token = .ok t

/-- A token in front of the others leaves the last one where it is. -/
theorem EndsInTarget.cons {tokens : List String} {s : Statement} (h : EndsInTarget tokens s)
    (token : String) : EndsInTarget (token :: tokens) s := by
  intro t ht
  obtain ⟨hlast, hread⟩ := h t ht
  refine ⟨?_, hread⟩
  rw [List.getLast?_cons, hlast]
  rfl

/-- A target keeps the token that it was read from. -/
theorem token_of_readTarget {token : String} {t : Target} (h : readTarget token = .ok t) :
    t.token = token := by
  unfold readTarget at h
  split at h
  · split at h
    · cases h
      rfl
    · cases h
  · cases h
    rfl

/-- A branch to what the last token reads as. -/
theorem endsInTarget_of_readTarget {token : String} {t : Target} {s : Statement}
    (h : readTarget token = .ok t) (hs : s.target? = some t) : EndsInTarget [token] s := by
  intro t' ht
  obtain rfl : t = t' := Option.some.inj (hs.symm.trans ht)
  rw [token_of_readTarget h]
  exact ⟨rfl, h⟩

/-- The only operand is all there is. -/
theorem single_eq_ok {op : Opcode} {operands : List String} {token : String}
    (h : single op operands = .ok token) : operands = [token] := by
  unfold single at h
  split at h
  · cases h
    rfl
  · cases h

/-- A lane-wide branch takes its target from the last operand. Other lane-wide operations have
none. -/
theorem ensures_readLaneStatement (operands : List String) :
    Ensures (EndsInTarget operands) (readLaneStatement operands) := by
  unfold readLaneStatement
  split
  · refine .bind fun lanes _ => .bind fun op _ => ?_
    split
    · exact .pure nofun
    · exact .error _
    · exact .bind fun t ht => .pure (((endsInTarget_of_readTarget ht rfl).cons _).cons _)
    · exact .bind fun t ht => .pure (((endsInTarget_of_readTarget ht rfl).cons _).cons _)
    · exact .bind fun _ _ => .pure nofun
    all_goals exact .error _
  · exact .error _

/-- Operands that are read for a branch end in its target. The cases are those of the reader, and
only those of branches have something to show. -/
theorem ensures_readOperands (op : Opcode) (operands : List String) :
    Ensures (EndsInTarget operands) (readOperands op operands) := by
  unfold readOperands
  cases op with
  | plain => exact .bind fun _ _ => .pure nofun
  | branch | conditionalBranch =>
    refine .bind fun token htoken => .bind fun t ht => .pure ?_
    rw [single_eq_ok htoken]
    exact endsInTarget_of_readTarget ht rfl
  | dupDown | loadGlobal | pop | ret => exact .bind fun _ _ => .bind fun _ _ => .pure nofun
  | pushImmediate =>
    refine .bind fun _ _ => ?_
    split
    · exact .pure nofun
    · exact .error _
  | loadSwizzle | storeSwizzle => exact .bind fun _ _ => .pure nofun
  | swizzle =>
    dsimp only
    split
    · refine .bind fun _ _ => .bind fun _ _ => .bind fun _ _ => .bind fun _ _ => .pure nofun
    · exact .error _
  | vector => exact ensures_readLaneStatement operands

/-- A branch has the target that its last token reads as. -/
theorem ensures_read (tokens : List String) : Ensures (EndsInTarget tokens) (read tokens) := by
  cases tokens with
  | nil => exact .error _
  | cons mnemonic operands =>
    exact .bind fun op _ s hs => (ensures_readOperands op operands s hs).cons mnemonic

end Statement

end ShaderMachine
