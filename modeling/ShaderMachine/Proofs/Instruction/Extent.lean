import ShaderMachine.Instruction.Listing
import ShaderMachine.Proofs.Instruction.Tiling

/-!
# The extent of an instruction

An instruction that is read takes some bytes of the body, at least one. `Code.readInstruction_extent`
says that these bytes and the instruction determine each other, given the offset modulo four, which
is all that alignment looks at; no other byte of the body has a part in it. It follows from
`Code.readInstruction_eq_ok_iff`, where the bytes are those that the instruction is written as.

A walk over a body therefore reads at most as many instructions as the body has bytes, and if it
reaches the end, every byte belongs to exactly one of them (`Code.Tiles.existsUnique_covers`).
-/

namespace ShaderMachine

/-! ## Alignment -/

/-- No operand has to be aligned to more than four bytes. -/
theorem Instruction.aligned_congr {i : Instruction} {position position' : Nat}
    (h : position' % 4 = position % 4) : i.Aligned position' ↔ i.Aligned position := by
  cases i with
  | branch | conditionalBranch | pushImmediate =>
    simp only [Instruction.Aligned]
    omega
  | vector lanes op =>
    cases op with
    | branch | conditionalBranch =>
      simp only [Instruction.Aligned, LaneOp.Aligned]
      omega
    | _ => exact Iff.rfl
  | _ => exact Iff.rfl

namespace Code

section
variable {code code' : Code} {ip ip' start stop : Nat} {i : Instruction}

/-! ## Bytes and instructions -/

/-- An instruction is read alike wherever its bytes stand at the same alignment. -/
theorem readInstruction_of_spans (h : code.readInstruction ip = .ok i ip')
    (halign : start % 4 = ip % 4) (hspan : code'.Spans start (code.extract ip ip').toList stop) :
    code'.readInstruction start = .ok i stop := by
  obtain ⟨hfits, haligned, -, -, hbytes⟩ := readInstruction_eq_ok_iff.1 h
  rw [hbytes] at hspan
  exact readInstruction_eq_ok_iff.2 ⟨hfits, (Instruction.aligned_congr halign).2 haligned, hspan⟩

/-- An instruction is read from no other bytes than those that it is written as. -/
theorem extract_of_readInstruction (h : code.readInstruction ip = .ok i ip') :
    (code.extract ip ip').toList = i.encode :=
  (readInstruction_eq_ok_iff.1 h).2.2.2.2

/-! ## Walks -/

/-- Every read of a walk, also one that faults, starts at a byte of its own. -/
theorem length_instructionsFrom_le (hle : ip ≤ code.size) :
    ip + (code.instructionsFrom ip).1.length + (code.instructionsFrom ip).2.toList.length ≤
      code.size := by
  fun_induction instructionsFrom code ip with
  | case1 ip hsize => simpa using hle
  | case2 ip hsize kind ip' hread =>
    simp only [List.length_nil, Option.toList_some, List.length_singleton]
    omega
  | case3 ip hsize i ip' hread rest fault hrest ih =>
    have hlt := readInstruction_lt hread
    have ih := ih (readInstruction_le_size hread)
    simp only [hrest] at ih
    simp only [List.length_cons]
    omega

/-- The byte at an offset belongs to a line. -/
def Covers (code : Code) (line : Nat × Instruction) (position : Nat) : Prop :=
  ∃ next, code.readInstruction line.1 = .ok line.2 next ∧ line.1 ≤ position ∧ position < next

/-- No line of a tiling starts in front of where the tiling does. -/
theorem Tiles.le_of_mem {lines : List (Nat × Instruction)} {line : Nat × Instruction}
    (h : code.Tiles ip lines) (hmem : line ∈ lines) : ip ≤ line.1 := by
  induction h with
  | done => cases hmem
  | next hread _ ih =>
    have hlt := readInstruction_lt hread
    cases hmem with
    | head => exact Nat.le_refl _
    | tail _ hmem => exact Nat.le_of_lt (Nat.lt_of_lt_of_le hlt (ih hmem))

/-- Every byte from the offset on belongs to exactly one line. -/
theorem Tiles.existsUnique_covers {lines : List (Nat × Instruction)} {position : Nat}
    (h : code.Tiles ip lines) (hle : ip ≤ position) (hlt : position < code.size) :
    ∃! line, line ∈ lines ∧ code.Covers line position := by
  induction h with
  | done => exact absurd hlt (Nat.not_lt.2 hle)
  | @next ip ip' i lines hread htiles ih =>
    by_cases hposition : position < ip'
    · refine ⟨(ip, i), ⟨.head _, ip', hread, hle, hposition⟩, ?_⟩
      rintro line ⟨hmem, next, -, hstart, -⟩
      cases hmem with
      | head => rfl
      | tail _ hmem =>
        have hbehind := htiles.le_of_mem hmem
        omega
    · obtain ⟨line, ⟨hmem, hcovers⟩, hunique⟩ := ih (Nat.le_of_not_lt hposition)
      refine ⟨line, ⟨.tail _ hmem, hcovers⟩, ?_⟩
      rintro other ⟨hother, hcovers'⟩
      cases hother with
      | head =>
        obtain ⟨next, hread', -, hend⟩ := hcovers'
        rw [hread] at hread'
        cases hread'
        exact absurd hend hposition
      | tail _ hother => exact hunique other ⟨hother, hcovers'⟩

end

/-! ## Listings -/

/-- The text of a line: the offset and the instruction. -/
def lineText (line : Nat × Instruction) : String :=
  Numeral.natText line.1 ++ ": " ++ line.2.text ++ "\n"

/-- A body is listed if the walk over it reaches its end, with one line for each instruction. -/
theorem listing_eq_ok_iff {code : Code} {text : String} :
    code.listing = .ok text ↔
      code.Tiles 0 code.instructions.1 ∧ text = String.join (code.instructions.1.map lineText) := by
  obtain ⟨lines, fault, hwalk⟩ : ∃ lines fault, code.instructions = (lines, fault) := ⟨_, _, rfl⟩
  have htiles : code.Tiles 0 lines ↔ fault = none := by
    rw [← instructionsFrom_eq_iff (Nat.zero_le _)]
    unfold instructions at hwalk
    rw [hwalk, Prod.mk.injEq, and_iff_right rfl]
  unfold listing
  rw [hwalk, htiles]
  cases fault with
  | none =>
    rw [and_iff_right rfl]
    constructor
    · intro h
      cases h
      rfl
    · rintro rfl
      rfl
  | some fault => exact iff_of_false nofun nofun

/-- **Reading an instruction is local.** An instruction that is read takes at least one byte and none
behind the end; it is read from any other body that has the same bytes at an offset of the same
alignment, and from no other bytes at any offset. So a walk over a body reads at most as many
instructions as there are bytes, and the lines of a listing cover every byte exactly once. -/
theorem readInstruction_extent (code : Code) :
    (∀ ip i ip', code.readInstruction ip = .ok i ip' →
      ip < ip' ∧ ip' ≤ code.size ∧
      (∀ (code' : Code) (start stop : Nat), start % 4 = ip % 4 →
        code'.Spans start (code.extract ip ip').toList stop →
        code'.readInstruction start = .ok i stop ∧ stop - start = ip' - ip) ∧
      ∀ (code' : Code) (start stop : Nat), code'.readInstruction start = .ok i stop →
        (code'.extract start stop).toList = (code.extract ip ip').toList) ∧
    code.instructions.1.length + code.instructions.2.toList.length ≤ code.size ∧
    ∀ text, code.listing = .ok text →
      code.Tiles 0 code.instructions.1 ∧
      text = String.join (code.instructions.1.map lineText) ∧
      ∀ position < code.size,
        ∃! line, line ∈ code.instructions.1 ∧ code.Covers line position := by
  refine ⟨fun ip i ip' hread => ?_, ?_, fun text htext => ?_⟩
  · refine ⟨readInstruction_lt hread, readInstruction_le_size hread, ?_, ?_⟩
    · intro code' start stop halign hspan
      refine ⟨readInstruction_of_spans hread halign hspan, ?_⟩
      have hlength := hspan.length_eq
      have hsize := readInstruction_le_size hread
      simp only [Array.length_toList, Array.size_extract] at hlength
      omega
    · intro code' start stop hread'
      rw [extract_of_readInstruction hread', extract_of_readInstruction hread]
  · have hwalk := length_instructionsFrom_le (Nat.zero_le code.size)
    rwa [Nat.zero_add] at hwalk
  · obtain ⟨htiles, hjoin⟩ := listing_eq_ok_iff.1 htext
    exact ⟨htiles, hjoin, fun position hlt =>
      htiles.existsUnique_covers (Nat.zero_le position) hlt⟩

/-- A branch of two lanes whose target is aligned because of the instruction in front of it. -/
def laneBranchCode : Code := #[0x25, 0x37, 2, 4, 16, 0]

/-- The same branch is read from another body, at an offset with the same alignment, and a byte of
its padding belongs to one line of the listing. -/
theorem readInstruction_extent_laneBranchCode :
    laneBranchCode.readInstruction 1 = .ok (.vector ⟨2, by decide, by decide⟩ (.branch 16)) 6 ∧
      readInstruction #[0x1a, 0x1a, 0x1a, 0x1a, 0x2a, 0x37, 2, 4, 16, 0] 5 =
        .ok (.vector ⟨2, by decide, by decide⟩ (.branch 16)) 10 ∧
      laneBranchCode.listing = .ok "0: nop\n1: vector 2 branch 16\n" ∧
      ∃! line, line ∈ laneBranchCode.instructions.1 ∧ laneBranchCode.Covers line 3 := by
  have hread : laneBranchCode.readInstruction 1 =
      .ok (.vector ⟨2, by decide, by decide⟩ (.branch 16)) 6 := by rfl
  have hlisting : laneBranchCode.listing = .ok "0: nop\n1: vector 2 branch 16\n" := by
    decide +kernel
  obtain ⟨hextent, -, hlines⟩ := readInstruction_extent laneBranchCode
  refine ⟨hread, ?_, hlisting, (hlines _ hlisting).2.2 3 (by decide)⟩
  obtain ⟨-, -, hlocal, -⟩ := hextent 1 _ 6 hread
  have hspan : Spans #[0x1a, 0x1a, 0x1a, 0x1a, 0x2a, 0x37, 2, 4, 16, 0] 5
      (laneBranchCode.extract 1 6).toList 10 := ⟨by decide, by decide, by decide⟩
  exact (hlocal _ 5 10 rfl hspan).1

end Code

end ShaderMachine
