import ShaderMachine.Proofs.Instruction.Codec

/-!
# Bodies that read without fault

`Code.Tiles` is the relation between a body and the lines that a walk over it yields. It is what the
walk computes (`Code.instructionsFrom_eq_iff`), so statements about a listing are proved by induction
on it. `Code.Boundary` names the offsets at which a line of the body starts, and its end;
`Code.Tiles.boundary_cases` says what reading does there.
-/

namespace ShaderMachine

namespace Code

/-- From an offset on, the body is made of the given instructions, each with its offset. -/
inductive Tiles (code : Code) : Nat → List (Nat × Instruction) → Prop
  | done : Tiles code code.size []
  | next {ip ip' i lines} : code.readInstruction ip = .ok i ip' → Tiles code ip' lines →
      Tiles code ip ((ip, i) :: lines)

/-- An offset at which one of the lines starts, or the end of the body. -/
def Boundary (code : Code) (lines : List (Nat × Instruction)) (ip : Nat) : Prop :=
  ip = code.size ∨ ∃ i, (ip, i) ∈ lines

section
variable {code : Code} {ip ip' : Nat} {lines : List (Nat × Instruction)}

/-- A walk goes on behind an instruction that is read. -/
theorem instructionsFrom_of_ok {i : Instruction} (h : code.readInstruction ip = .ok i ip') :
    code.instructionsFrom ip =
      ((ip, i) :: (code.instructionsFrom ip').1, (code.instructionsFrom ip').2) := by
  have hlt := readInstruction_lt h
  have hsize := readInstruction_le_size h
  rw [instructionsFrom, if_neg (by omega)]
  split
  · rename_i hread
    rw [h] at hread
    cases hread
  · rename_i hread
    rw [h] at hread
    cases hread
    rfl

/-- A walk ends where no instruction is read, unless it is at the end of the body. -/
theorem instructionsFrom_of_error {k : FaultKind} (hlt : ip < code.size)
    (h : code.readInstruction ip = .error k ip') :
    code.instructionsFrom ip = ([], some ⟨some ip, k⟩) := by
  rw [instructionsFrom, if_neg (Nat.not_le.2 hlt)]
  split
  · rename_i hread
    rw [h] at hread
    cases hread
    rfl
  · rename_i hread
    rw [h] at hread
    cases hread

/-- The walk over a body ends without fault at its end. -/
theorem instructionsFrom_size (code : Code) : code.instructionsFrom code.size = ([], none) := by
  rw [instructionsFrom, if_pos (Nat.le_refl _)]

/-- The walk ends without fault exactly on bodies that the lines tile. -/
theorem instructionsFrom_eq_iff (hle : ip ≤ code.size) :
    code.instructionsFrom ip = (lines, none) ↔ code.Tiles ip lines := by
  constructor
  · intro h
    fun_induction instructionsFrom code ip generalizing lines with
    | case1 ip hsize =>
      cases h
      rw [Nat.le_antisymm hle hsize]
      exact .done
    | case2 ip _ kind ip' hread => simp at h
    | case3 ip _ i ip' hread rest fault hrest ih =>
      obtain ⟨rfl, rfl⟩ := Prod.mk.inj h
      exact .next hread (ih (readInstruction_le_size hread) hrest)
  · intro h
    induction h with
    | done => exact instructionsFrom_size code
    | next hread _ ih => rw [instructionsFrom_of_ok hread, ih (readInstruction_le_size hread)]

/-- The offset at which the lines begin is a boundary. -/
theorem Tiles.boundary_start (h : code.Tiles ip lines) : code.Boundary lines ip := by
  cases h with
  | done => exact .inl rfl
  | next => exact .inr ⟨_, .head _⟩

/-- Boundaries of a part of the lines are boundaries of all. -/
theorem Boundary.mono {lines' : List (Nat × Instruction)} (h : code.Boundary lines ip)
    (hsub : lines ⊆ lines') : code.Boundary lines' ip :=
  h.imp_right fun ⟨i, hi⟩ => ⟨i, hsub hi⟩

/-- A line is read where it starts, and the next line or the end of the body follows it. -/
theorem Tiles.readInstruction {i : Instruction} (h : code.Tiles ip lines)
    (hmem : (ip', i) ∈ lines) :
    ∃ next, code.readInstruction ip' = .ok i next ∧ code.Boundary lines next := by
  induction h with
  | done => cases hmem
  | next hread htiles ih =>
    cases hmem with
    | head => exact ⟨_, hread, htiles.boundary_start.mono (List.subset_cons_self _ _)⟩
    | tail _ hmem =>
      obtain ⟨next, hread', hnext⟩ := ih hmem
      exact ⟨next, hread', hnext.mono (List.subset_cons_self _ _)⟩

/-- At a boundary there is the end of the body, or an instruction that ends at a boundary. -/
theorem Tiles.boundary_cases (h : code.Tiles ip lines) (hb : code.Boundary lines ip') :
    ip' = code.size ∨ ∃ i next, (ip', i) ∈ lines ∧ code.readInstruction ip' = .ok i next ∧
      code.Boundary lines next := by
  rcases hb with hend | ⟨i, hi⟩
  · exact .inl hend
  · obtain ⟨next, hread, hnext⟩ := h.readInstruction hi
    exact .inr ⟨i, next, hi, hread, hnext⟩

end

end Code

end ShaderMachine
