import ShaderMachine.Assembler.Builder
import ShaderMachine.Proofs.Instruction.Codec

/-!
# The layout of an assembled body

What a finished body is made of, call by call. `Call.emission?` says what a call adds, given the
offsets that labels stand for, and `layoutBytes` puts these additions one behind the other.
`Assembler.filled` is the body with its targets filled in; every builder operation appends to it
(`Adds`), whatever the targets are, which is how filling in targets late comes to leave all other
bytes alone. `laidOut_of_finish` is the result: the bytes of a finished body, and where its labels
are bound.
-/

namespace ShaderMachine

namespace Assembler

/-! ## What a call adds -/

/-- What a call adds to a body. -/
inductive Emission where
  | instruction (i : Instruction)
  /-- A lane-wide form of an operation that has none. It takes up room, but it is not read. -/
  | unwidened (lanes : LaneCount) (op : PlainOp)

namespace Emission

def encode : Emission → List UInt8
  | instruction i => i.encode
  | unwidened lanes op => [Opcode.vector.byte, lanes.val, op.byte]

/-- The padding that an emission needs at a position. -/
def padding (position : Nat) : Emission → Nat
  | instruction i => i.padding position
  | unwidened _ _ => 0

/-- The bytes of an emission at a position, with the padding in front of it. -/
def bytes (e : Emission) (position : Nat) : List UInt8 :=
  List.replicate (e.padding position) PlainOp.nop.byte ++ e.encode

end Emission

/-- What a call adds when labels stand for the given offsets. Creating and binding a label adds
nothing, nor does a call that is refused. -/
def Call.emission? (target : Label → UInt16) : Call → Option Emission
  | .newLabel | .bind _ => none
  | .op (.plain operation) => some (.instruction (.plain operation))
  | .op _ => none
  | .pushImmediate value => some (.instruction (.pushImmediate value))
  | .branch label => some (.instruction (.branch (target label)))
  | .conditionalBranch label => some (.instruction (.conditionalBranch (target label)))
  | .dupDown count => some (.instruction (.dupDown count))
  | .loadGlobal index => some (.instruction (.loadGlobal index))
  | .pop count => some (.instruction (.pop count))
  | .ret count => some (.instruction (.ret count))
  | .loadSwizzle offsets => some (.instruction (.loadSwizzle offsets))
  | .storeSwizzle offsets => some (.instruction (.storeSwizzle offsets))
  | .swizzle sources indices => some (.instruction (.swizzle sources indices))
  | .vector lanes (.plain operation) =>
    (LaneCount.ofByte? lanes).map fun lanes =>
      match operation.laneOp? with
      | some widened => .instruction (.vector lanes widened)
      | none => .unwidened lanes operation
  | .vector _ _ => none
  | .vectorLoadGlobal lanes index =>
    (LaneCount.ofByte? lanes).map fun lanes => .instruction (.vector lanes (.loadGlobal index))
  | .vectorBranch lanes .branch label =>
    (LaneCount.ofByte? lanes).map fun lanes => .instruction (.vector lanes (.branch (target label)))
  | .vectorBranch lanes .conditionalBranch label =>
    (LaneCount.ofByte? lanes).map fun lanes =>
      .instruction (.vector lanes (.conditionalBranch (target label)))
  | .vectorBranch _ _ _ => none

/-- The instruction that a call adds. -/
def Call.instruction? (target : Label → UInt16) (c : Call) : Option Instruction :=
  match c.emission? target with
  | some (.instruction i) => some i
  | _ => none

/-- The instruction of a call is what it adds, if that is an instruction. -/
theorem Call.instruction?_eq_some_iff {target : Label → UInt16} {c : Call} {i : Instruction} :
    c.instruction? target = some i ↔ c.emission? target = some (.instruction i) := by
  unfold instruction?
  split <;> simp_all

/-- The call creates or binds a label. -/
def Call.Labels : Call → Prop
  | .newLabel | .bind _ => True
  | _ => False

/-- The label that a call branches to. -/
def Call.label? : Call → Option Label
  | .branch label | .conditionalBranch label | .vectorBranch _ _ label => some label
  | _ => none

/-- The operation that a call applies lane by lane, if it does, can be widened. -/
def Call.Widens : Call → Prop
  | .vector _ operation =>
    operation.isBinary ∨ operation.isUnary ∨ operation = .plain .load ∨ operation = .plain .store
  | _ => True

/-- The bytes of what a call adds at a position. -/
def Call.bytes (target : Label → UInt16) (position : Nat) (c : Call) : List UInt8 :=
  match c.emission? target with
  | some e => e.bytes position
  | none => []

/-- What a call has to satisfy by itself. Whether a label can be bound depends on earlier calls. -/
def Call.Accepted : Call → Prop
  | .op operation => operation.operands = .none
  | .loadSwizzle offsets | .storeSwizzle offsets => offsets.length < 256
  | .swizzle _ indices => indices.length < 256
  | .vector lanes operation => (LaneCount.ofByte? lanes).isSome ∧ operation.operands = .none
  | .vectorLoadGlobal lanes _ => (LaneCount.ofByte? lanes).isSome
  | .vectorBranch lanes operation _ =>
    (LaneCount.ofByte? lanes).isSome ∧ (operation = .branch ∨ operation = .conditionalBranch)
  | _ => True

/-- What an accepted call adds: nothing if it is about a label, else an instruction that fits, or
the lane-wide form of an operation that has none. -/
theorem emission?_cases (target : Label → UInt16) {c : Call} (h : c.Accepted) :
    (c.Labels ∧ c.emission? target = none) ∨
      (¬ c.Labels ∧ ∃ i, c.emission? target = some (.instruction i) ∧ i.Fits) ∨
      (¬ c.Widens ∧ ∃ lanes op, c.emission? target = some (.unwidened lanes op) ∧
        op.laneOp? = none) := by
  cases c with
  | newLabel | bind => exact .inl ⟨trivial, rfl⟩
  | op op =>
    cases op with
    | plain => exact .inr (.inl ⟨id, _, rfl, trivial⟩)
    | _ => cases h
  | loadSwizzle | storeSwizzle | swizzle => exact .inr (.inl ⟨id, _, rfl, h⟩)
  | vector lanes op =>
    obtain ⟨hlanes, hop⟩ := h
    obtain ⟨lanes', hlanes⟩ := Option.isSome_iff_exists.1 hlanes
    cases op with
    | plain op =>
      simp only [Call.emission?, hlanes, Option.map_some]
      cases hwidened : op.laneOp? with
      | some widened => exact .inr (.inl ⟨id, _, rfl, trivial⟩)
      | none =>
        refine .inr (.inr ⟨fun hwidens => ?_, _, _, rfl, hwidened⟩)
        cases op with
        | binary | unary | load | store => cases hwidened
        | _ => simp [Call.Widens, Opcode.isBinary, Opcode.isUnary] at hwidens
    | _ => cases hop
  | vectorLoadGlobal lanes =>
    obtain ⟨lanes', hlanes⟩ := Option.isSome_iff_exists.1 h
    simp only [Call.emission?, hlanes, Option.map_some]
    exact .inr (.inl ⟨id, _, rfl, trivial⟩)
  | vectorBranch lanes op =>
    obtain ⟨hlanes, rfl | rfl⟩ := h <;>
    · obtain ⟨lanes', hlanes⟩ := Option.isSome_iff_exists.1 hlanes
      simp only [Call.emission?, hlanes, Option.map_some]
      exact .inr (.inl ⟨id, _, rfl, trivial⟩)
  | _ => exact .inr (.inl ⟨id, _, rfl, trivial⟩)

/-- The bytes that calls add from a position on. -/
def layoutBytes (target : Label → UInt16) : Nat → List Call → List UInt8
  | _, [] => []
  | position, c :: calls =>
    c.bytes target position ++
      layoutBytes target (position + (c.bytes target position).length) calls

/-- More calls add their bytes behind those of the calls before them. -/
theorem layoutBytes_append (target : Label → UInt16) (position : Nat) (calls rest : List Call) :
    layoutBytes target position (calls ++ rest) =
      layoutBytes target position calls ++
        layoutBytes target (position + (layoutBytes target position calls).length) rest := by
  induction calls generalizing position with
  | nil => simp [layoutBytes]
  | cons c calls ih => simp [layoutBytes, ih, Nat.add_assoc]

/-! ## Errors -/

@[simp] theorem error_fail_ne_none (a : Assembler) (e : BuildError) :
    (a.fail e).error ≠ none := by
  simp [fail]

/-- A call that is not accepted leaves an error, and errors stay. -/
theorem error_call {a : Assembler} {c : Call} (h : (a.call c).error = none) :
    a.error = none ∧ c.Accepted := by
  cases c with
  | bind label =>
    simp only [call, Assembler.bind] at h
    split at h
    · exact ⟨h, trivial⟩
    · exact absurd h (error_fail_ne_none _ _)
    · exact absurd h (error_fail_ne_none _ _)
  | op op =>
    simp only [call, Assembler.op] at h
    split at h
    · exact ⟨h, ‹_›⟩
    · exact absurd h (error_fail_ne_none _ _)
  | loadSwizzle | storeSwizzle | swizzle =>
    simp only [call, Assembler.loadSwizzle, Assembler.storeSwizzle, Assembler.swizzle] at h
    split at h
    · exact ⟨h, ‹_›⟩
    · exact absurd h (error_fail_ne_none _ _)
  | vector lanes op =>
    simp only [call, Assembler.vector, checkLanes] at h
    split at h
    · split at h
      · exact ⟨h, ‹_›, ‹_›⟩
      · exact absurd h (error_fail_ne_none _ _)
    · exact absurd h (error_fail_ne_none _ _)
  | vectorLoadGlobal lanes index =>
    simp only [call, Assembler.vectorLoadGlobal, checkLanes] at h
    split at h
    · exact ⟨h, ‹_›⟩
    · exact absurd h (error_fail_ne_none _ _)
  | vectorBranch lanes op label =>
    simp only [call, Assembler.vectorBranch, checkLanes] at h
    split at h
    · split at h
      · exact ⟨h, ‹_›, ‹_›⟩
      · exact absurd h (error_fail_ne_none _ _)
    · exact absurd h (error_fail_ne_none _ _)
  | _ => exact ⟨h, trivial⟩

/-- Calls keep an earlier error. -/
theorem error_of_foldl {a : Assembler} {calls : List Call}
    (h : (calls.foldl call a).error = none) : a.error = none := by
  induction calls generalizing a with
  | nil => exact h
  | cons c calls ih => exact (error_call (ih h)).1

/-! ## Filling in targets -/

/-- Fills in branch targets at their places. -/
def fill (target : Label → UInt16) (fixups : List (Nat × Label)) (code : Code) : Code :=
  fixups.foldl (fun code (place, label) => patch code place (target label)) code

/-- The body so far with its targets filled in. -/
def filled (a : Assembler) (target : Label → UInt16) : List UInt8 :=
  (fill target a.fixups.toList a.code).toList

/-- The places of targets lie within the body. -/
def Sound (a : Assembler) : Prop := ∀ fixup ∈ a.fixups.toList, fixup.1 + 2 ≤ a.code.size

@[simp] theorem size_patch (code : Code) (place : Nat) (target : UInt16) :
    (patch code place target).size = code.size := by
  simp [patch]

/-- The first target is filled in first. -/
theorem fill_cons (target : Label → UInt16) (fixup : Nat × Label) (fixups : List (Nat × Label))
    (code : Code) : fill target (fixup :: fixups) code =
      fill target fixups (patch code fixup.1 (target fixup.2)) := rfl

/-- The last target is filled in last. -/
theorem fill_concat (target : Label → UInt16) (fixups : List (Nat × Label)) (fixup : Nat × Label)
    (code : Code) : fill target (fixups ++ [fixup]) code =
      patch (fill target fixups code) fixup.1 (target fixup.2) := by
  rw [fill, List.foldl_append]
  rfl

/-- Filling in targets does not change the size of a body. -/
@[simp] theorem size_fill (target : Label → UInt16) (fixups : List (Nat × Label)) (code : Code) :
    (fill target fixups code).size = code.size := by
  induction fixups generalizing code with
  | nil => rfl
  | cons fixup fixups ih => rw [fill_cons, ih, size_patch]

/-- The body has its final length before its targets are filled in. -/
theorem length_filled (a : Assembler) (target : Label → UInt16) :
    (a.filled target).length = a.position := by
  simp [filled, position]

/-- A target whose place lies in front of the bytes added does not touch them. -/
theorem patch_append {code : Code} {place : Nat} (h : place + 2 ≤ code.size) (target : UInt16)
    (bytes : List UInt8) : patch (code ++ bytes) place target = patch code place target ++ bytes := by
  apply Array.ext'
  simp only [patch, Array.toList_setIfInBounds, Array.toList_appendList]
  rw [List.set_append_left _ _ (by rw [Array.length_toList]; omega),
    List.set_append_left _ _ (by rw [List.length_set, Array.length_toList]; omega)]

/-- Bytes added behind all places are not touched. -/
theorem fill_append {target : Label → UInt16} {fixups : List (Nat × Label)} {code : Code}
    (h : ∀ fixup ∈ fixups, fixup.1 + 2 ≤ code.size) (bytes : List UInt8) :
    fill target fixups (code ++ bytes) = fill target fixups code ++ bytes := by
  induction fixups generalizing code with
  | nil => rfl
  | cons fixup fixups ih =>
    rw [fill_cons, fill_cons, patch_append (h _ (.head _)), ih]
    intro fixup' hmem
    rw [size_patch]
    exact h _ (.tail _ hmem)

/-- A target that is filled in right behind the body is its two bytes. -/
theorem patch_size (code : Code) (target : UInt16) :
    patch (code ++ ([0, 0] : List UInt8)) code.size target = code ++ targetBytes target := by
  apply Array.ext'
  simp only [patch, Array.toList_setIfInBounds, Array.toList_appendList]
  rw [List.set_append_right _ _ (by simp), List.set_append_right _ _ (by simp)]
  simp [targetBytes, littleEndianBytes]

/-! ## What the operations of a builder add -/

/-- `b` is `a` with bytes added, whatever the targets are. -/
def Adds (a b : Assembler) (bytes : (Label → UInt16) → List UInt8) : Prop :=
  a.Sound → b.Sound ∧ ∀ target, b.filled target = a.filled target ++ bytes target

section
variable {a b c : Assembler} {f g : (Label → UInt16) → List UInt8}

/-- What two operations add stands in their order. -/
theorem Adds.trans (h : Adds a b f) (h' : Adds b c g) :
    Adds a c fun target => f target ++ g target := by
  intro ha
  obtain ⟨hb, hfill⟩ := h ha
  obtain ⟨hc, hfill'⟩ := h' hb
  exact ⟨hc, fun target => by rw [hfill', hfill, List.append_assoc]⟩

/-- Operations that leave code and fixups alone add nothing. -/
theorem Adds.of_eq (hcode : b.code = a.code) (hfixups : b.fixups = a.fixups) :
    Adds a b fun _ => [] := by
  intro ha
  refine ⟨?_, fun target => ?_⟩
  · intro fixup hmem
    rw [hcode]
    exact ha _ (hfixups ▸ hmem)
  · rw [List.append_nil, filled, filled, hcode, hfixups]

/-- Bytes that are appended are added as they are. -/
theorem adds_append (a : Assembler) (bytes : List UInt8) :
    Adds a (a.append bytes) fun _ => bytes := by
  intro ha
  refine ⟨fun fixup hmem => Nat.le_trans (ha fixup hmem) ?_, fun target => ?_⟩
  · rw [← Array.length_toList, ← Array.length_toList, append, Array.toList_appendList]
    exact List.length_append ▸ Nat.le_add_right _ _
  · rw [filled, filled, append, fill_append ha, Array.toList_appendList]

/-- A place for a target adds the two bytes of the target, once it is filled in. -/
theorem adds_emitTarget (a : Assembler) (label : Label) :
    Adds a (a.emitTarget label) fun target => targetBytes (target label) := by
  intro ha
  have hcode : (a.emitTarget label).code = a.code ++ ([0, 0] : List UInt8) := rfl
  have hfixups : (a.emitTarget label).fixups.toList = a.fixups.toList ++ [(a.code.size, label)] :=
    Array.toList_push
  refine ⟨fun fixup hmem => ?_, fun target => ?_⟩
  · rw [hfixups, List.mem_append, List.mem_singleton] at hmem
    rw [hcode, ← Array.length_toList, Array.toList_appendList, List.length_append,
      Array.length_toList]
    rcases hmem with hmem | rfl
    · exact Nat.le_trans (ha fixup hmem) (Nat.le_add_right _ _)
    · exact Nat.le_refl _
  · have hsize := size_fill target a.fixups.toList a.code
    rw [filled, hfixups, fill_concat, hcode, fill_append ha]
    dsimp only
    rw [← hsize, patch_size, Array.toList_appendList, filled]

/-- Binding a label adds no bytes, whether it succeeds or not. -/
theorem adds_bind (a : Assembler) (label : Label) : Adds a (a.bind label) fun _ => [] := by
  unfold bind
  split <;> exact Adds.of_eq rfl rfl

/-- An instruction adds its padding and its bytes. -/
theorem adds_emit (a : Assembler) (i : Instruction) :
    Adds a (a.emit i) fun _ => (Emission.instruction i).bytes a.position :=
  (adds_append a _).trans (adds_append _ _)

/-- A branch adds its padding, the bytes in front of the target, and the target. -/
theorem adds_emitBranch (a : Assembler) (head : List UInt8) (label : Label) :
    Adds a (a.emitBranch head label) fun target =>
      List.replicate (Instruction.WideOperand.padding ⟨head.length, 2⟩ a.position)
        PlainOp.nop.byte ++ (head ++ targetBytes (target label)) := by
  simp only [← List.append_assoc]
  exact ((adds_append a _).trans (adds_append _ _)).trans (adds_emitTarget _ _)

/-- The lane-wide form of an operation is written like the operation. -/
theorem encode_of_laneOp? {op : PlainOp} {widened : LaneOp} (h : op.laneOp? = some widened) :
    widened.encode = [op.byte] := by
  cases op <;> cases h <;> rfl

/-- The lane-wide form of an operation without inline operands needs no padding. -/
theorem padding_of_laneOp? {op : PlainOp} {widened : LaneOp} (h : op.laneOp? = some widened)
    (lanes : LaneCount) (position : Nat) :
    (Instruction.vector lanes widened).padding position = 0 := by
  cases op <;> cases h <;> rfl

/-- Lists that fit their count byte are added as they are. -/
theorem call_loadSwizzle (a : Assembler) {offsets : List UInt8} (h : offsets.length < 256) :
    a.call (.loadSwizzle offsets) = a.emit (.loadSwizzle offsets) := if_pos h

/-- A list that fits its count byte is not refused. -/
theorem call_storeSwizzle (a : Assembler) {offsets : List UInt8} (h : offsets.length < 256) :
    a.call (.storeSwizzle offsets) = a.emit (.storeSwizzle offsets) := if_pos h

/-- A list that fits its count byte is not refused. -/
theorem call_swizzle (a : Assembler) {sources : UInt8} {indices : List UInt8}
    (h : indices.length < 256) :
    a.call (.swizzle sources indices) = a.emit (.swizzle sources indices) := if_pos h

/-- A number of lanes in range is not refused. -/
theorem checkLanes_of_isSome (a : Assembler) {lanes : UInt8}
    (h : (LaneCount.ofByte? lanes).isSome) : a.checkLanes lanes = a := if_pos h

/-- An accepted call adds the bytes of its emission, and nothing if it has none. -/
theorem adds_call (a : Assembler) {c : Call} (h : c.Accepted) :
    Adds a (a.call c) fun target => c.bytes target a.position := by
  cases c with
  | newLabel => exact Adds.of_eq rfl rfl
  | bind label => exact adds_bind a label
  | op op =>
    cases op with
    | plain op => exact adds_append a _
    | _ => cases h
  | branch label => exact adds_emitBranch a [Opcode.branch.byte] label
  | conditionalBranch label => exact adds_emitBranch a [Opcode.conditionalBranch.byte] label
  | loadSwizzle => exact call_loadSwizzle a h ▸ adds_emit a _
  | storeSwizzle => exact call_storeSwizzle a h ▸ adds_emit a _
  | swizzle => exact call_swizzle a h ▸ adds_emit a _
  | vector lanes op =>
    obtain ⟨hlanes, hop⟩ := h
    cases op with
    | plain op =>
      obtain ⟨lanes', hlanes⟩ := Option.isSome_iff_exists.1 hlanes
      have happend : a.call (.vector lanes (.plain op)) =
          a.append [Opcode.vector.byte, lanes, op.byte] := by
        simp only [call, Assembler.vector, checkLanes, hlanes]
        rfl
      have hbytes : ∀ target, Call.bytes target a.position (.vector lanes (.plain op)) =
          [Opcode.vector.byte, lanes, op.byte] := by
        intro target
        rw [← LaneCount.val_of_ofByte? hlanes]
        simp only [Call.bytes, Call.emission?, LaneCount.ofByte?_val, Option.map_some]
        -- Without a lane-wide form the operation takes up the same bytes.
        cases hwidened : op.laneOp? with
        | none => rfl
        | some widened =>
          simp only [Emission.bytes, Emission.padding, Emission.encode, Instruction.encode,
            padding_of_laneOp? hwidened, encode_of_laneOp? hwidened]
          rfl
      rw [happend]
      simp only [hbytes]
      exact adds_append a _
    | _ => cases hop
  | vectorLoadGlobal lanes index =>
    obtain ⟨lanes', hlanes⟩ := Option.isSome_iff_exists.1 h
    have hval := LaneCount.val_of_ofByte? hlanes
    subst hval
    simp only [call, Assembler.vectorLoadGlobal, checkLanes_of_isSome a h, Call.bytes,
      Call.emission?, hlanes]
    exact adds_append a _
  | vectorBranch lanes op label =>
    obtain ⟨hsome, hop⟩ := h
    obtain ⟨lanes', hlanes⟩ := Option.isSome_iff_exists.1 hsome
    have hval := LaneCount.val_of_ofByte? hlanes
    subst hval
    simp only [call, Assembler.vectorBranch, checkLanes_of_isSome a hsome, if_pos hop, Call.bytes]
    rcases hop with rfl | rfl
    · simp only [Call.emission?, hlanes]
      exact adds_emitBranch a [Opcode.vector.byte, lanes'.val, Opcode.branch.byte] label
    · simp only [Call.emission?, hlanes]
      exact adds_emitBranch a [Opcode.vector.byte, lanes'.val, Opcode.conditionalBranch.byte] label
  | _ => exact adds_emit a _

/-- Accepted calls add the bytes of their emissions one after the other. -/
theorem adds_foldl {calls : List Call} (h : (calls.foldl call a).error = none) :
    Adds a (calls.foldl call a) fun target => layoutBytes target a.position calls := by
  induction calls generalizing a with
  | nil => exact Adds.of_eq rfl rfl
  | cons c calls ih =>
    intro ha
    obtain ⟨hsound, hcall⟩ := adds_call a (error_call (error_of_foldl h)).2 ha
    obtain ⟨hsound', hcalls⟩ := ih h hsound
    refine ⟨hsound', fun target => ?_⟩
    have hposition : (a.call c).position = a.position + (c.bytes target a.position).length := by
      rw [← length_filled _ target, hcall, List.length_append, length_filled]
    simp only [List.foldl_cons, hcalls, hcall, hposition, layoutBytes, List.append_assoc]

end

/-! ## The body of a sequence of calls -/

/-- More calls go on from the builder that the calls before them leave. -/
theorem build_append (calls rest : List Call) :
    build (calls ++ rest) = rest.foldl call (build calls) := List.foldl_append

/-- If all calls leave no error, neither do the first of them. -/
theorem error_build_of_append {calls rest : List Call} (h : (build (calls ++ rest)).error = none) :
    (build calls).error = none :=
  error_of_foldl (build_append calls rest ▸ h)

/-- If calls leave no error, each of them is accepted. -/
theorem accepted_of_build {calls : List Call} (h : (build calls).error = none) {c : Call}
    (hc : c ∈ calls) : c.Accepted := by
  obtain ⟨pre, post, rfl⟩ := List.append_of_mem hc
  rw [build_append] at h
  exact (error_call (error_of_foldl (a := (build pre).call c) h)).2

/-- The bytes of a body without errors are those of its calls in turn. -/
theorem filled_build {calls : List Call} (h : (build calls).error = none)
    (target : Label → UInt16) : (build calls).filled target = layoutBytes target 0 calls :=
  (adds_foldl h nofun).2 target

/-- The position of a builder without errors is the length of what its calls add. -/
theorem position_build {calls : List Call} (h : (build calls).error = none)
    (target : Label → UInt16) : (build calls).position = (layoutBytes target 0 calls).length := by
  rw [← filled_build h, length_filled]

/-! ## Labels -/

/-- Only creating and binding labels touches them. -/
theorem labels_call (a : Assembler) {c : Call} (hnew : c ≠ .newLabel) (hbind : ∀ l, c ≠ .bind l) :
    (a.call c).labels = a.labels := by
  have hcheck : ∀ lanes, (a.checkLanes lanes).labels = a.labels := fun lanes => by
    unfold checkLanes
    split <;> rfl
  cases c with
  | newLabel => exact absurd rfl hnew
  | bind l => exact absurd rfl (hbind l)
  | op op =>
    simp only [call, Assembler.op]
    split <;> rfl
  | loadSwizzle | storeSwizzle | swizzle =>
    simp only [call, Assembler.loadSwizzle, Assembler.storeSwizzle, Assembler.swizzle]
    split <;> rfl
  | vector lanes op =>
    simp only [call, Assembler.vector]
    split <;> exact hcheck lanes
  | vectorLoadGlobal lanes => exact hcheck lanes
  | vectorBranch lanes op =>
    simp only [call, Assembler.vectorBranch]
    split <;> exact hcheck lanes
  | _ => rfl

/-- The offset of a label is known and equal to the given one. -/
def BoundAt (a : Assembler) (label : Label) (offset : Nat) : Prop :=
  a.labels[label.index]? = some (some offset)

/-- A label that is created is bound if it comes with an offset. -/
theorem boundAt_push_iff {a b : Assembler} {label : Label} {offset? : Option Nat} {offset : Nat}
    (h : b.labels = a.labels.push offset?) :
    b.BoundAt label offset ↔
      a.BoundAt label offset ∨ label = ⟨a.labels.size⟩ ∧ offset? = some offset := by
  obtain ⟨index⟩ := label
  simp only [BoundAt, h, Array.getElem?_push, Label.mk.injEq]
  split
  · rename_i hsize
    rw [hsize, Array.getElem?_eq_none (Nat.le_refl _)]
    simp
  · rename_i hsize
    simp [hsize]

/-- Creating a label binds none. -/
theorem boundAt_newLabel_iff {a : Assembler} {label : Label} {offset : Nat} :
    a.newLabel.2.BoundAt label offset ↔ a.BoundAt label offset :=
  (boundAt_push_iff rfl).trans (or_iff_left fun h => by cases h.2)

/-- Binding gives a label that is created and not bound the current position, and keeps all
others. -/
theorem boundAt_bind_iff {a : Assembler} {l label : Label} {offset : Nat} :
    (a.bind l).BoundAt label offset ↔ a.BoundAt label offset ∨
      l = label ∧ a.labels[label.index]? = some none ∧ offset = a.position := by
  by_cases hl : a.labels[l.index]? = some none
  · have hbind : (a.bind l).labels = a.labels.setIfInBounds l.index (some a.position) := by
      simp only [bind, hl]
    have hlt := (Array.getElem?_eq_some_iff.1 hl).1
    rw [BoundAt, hbind, Array.getElem?_setIfInBounds]
    by_cases heq : l = label
    · subst heq
      rw [if_pos rfl, if_pos hlt, BoundAt, hl]
      simp [eq_comm]
    · have hindex : l.index ≠ label.index := fun h => heq (by cases l; cases label; cases h; rfl)
      rw [if_neg hindex]
      simp [BoundAt, heq]
  · have hbind : (a.bind l).labels = a.labels := by
      unfold bind
      split
      · exact absurd ‹_› hl
      · rfl
      · rfl
    rw [BoundAt, hbind]
    refine ⟨.inl, fun h => h.elim id ?_⟩
    rintro ⟨rfl, h, -⟩
    exact absurd h hl

/-- A call keeps the offsets of labels, and it binds a label only to its own position. -/
theorem boundAt_call_iff {a : Assembler} {c : Call} {label : Label} {offset : Nat} :
    (a.call c).BoundAt label offset ↔ a.BoundAt label offset ∨
      c = .bind label ∧ a.labels[label.index]? = some none ∧ offset = a.position := by
  by_cases hnew : c = .newLabel
  · subst hnew
    refine boundAt_newLabel_iff.trans ⟨.inl, fun h => h.elim id ?_⟩
    rintro ⟨h, -⟩
    cases h
  by_cases hbind : ∃ l, c = .bind l
  · obtain ⟨l, rfl⟩ := hbind
    rw [Call.bind.injEq]
    exact boundAt_bind_iff
  · rw [BoundAt, labels_call a hnew (fun l hl => hbind ⟨l, hl⟩)]
    exact ⟨.inl, fun h => h.elim id fun ⟨hc, _⟩ => absurd ⟨_, hc⟩ hbind⟩

/-- A label that is bound stays bound where it is, whatever calls follow. -/
theorem BoundAt.foldl {a : Assembler} {label : Label} {offset : Nat} (h : a.BoundAt label offset)
    (calls : List Call) : (calls.foldl call a).BoundAt label offset := by
  induction calls generalizing a with
  | nil => exact h
  | cons c calls ih => exact ih (boundAt_call_iff.2 (.inl h))

/-- A label has an offset only because it was bound there. -/
theorem exists_bind_of_boundAt {calls : List Call} {label : Label} {offset : Nat}
    (h : (build calls).BoundAt label offset) :
    ∃ pre post, calls = pre ++ .bind label :: post ∧ offset = (build pre).position := by
  induction calls using List.reverseRecOn with
  | nil => cases h
  | append_singleton calls c ih =>
    rw [build_append] at h
    rcases boundAt_call_iff.1 h with h | ⟨rfl, -, rfl⟩
    · obtain ⟨pre, post, rfl, hoffset⟩ := ih h
      exact ⟨pre, post ++ [c], by simp, hoffset⟩
    · exact ⟨calls, [], rfl, rfl⟩

/-- Binding succeeds only for a label that is created and not bound. -/
theorem labels_of_error_bind {a : Assembler} {label : Label}
    (h : (a.bind label).error = none) : a.labels[label.index]? = some none := by
  unfold bind at h
  split at h
  · assumption
  · exact absurd h (error_fail_ne_none _ _)
  · exact absurd h (error_fail_ne_none _ _)

section
variable {pre post : List Call} {label : Label}

/-- Without errors a label stands for the position at which it is bound. -/
theorem boundAt_of_bind (h : (build (pre ++ .bind label :: post)).error = none) :
    (build (pre ++ .bind label :: post)).BoundAt label (build pre).position := by
  rw [build_append] at h ⊢
  have hbind : ((build pre).bind label).error = none := error_of_foldl h
  have hbound : ((build pre).bind label).BoundAt label (build pre).position :=
    boundAt_bind_iff.2 (.inr ⟨rfl, labels_of_error_bind hbind, rfl⟩)
  exact hbound.foldl post

/-- Without errors no label is bound twice. -/
theorem not_mem_of_bind (h : (build (pre ++ .bind label :: post)).error = none) :
    .bind label ∉ pre := by
  intro hmem
  obtain ⟨pre', post', rfl⟩ := List.append_of_mem hmem
  have hbound := boundAt_of_bind (error_build_of_append h)
  rw [build_append] at h
  have hnone := labels_of_error_bind (error_of_foldl h)
  rw [BoundAt, hnone] at hbound
  cases hbound

end

/-! ## Finishing -/

/-- The offsets that labels stand for in the finished body. -/
def offsets (a : Assembler) (label : Label) : UInt16 :=
  match a.target label with
  | .ok target => target
  | .error _ => 0

/-- A label has a target if it is bound at an offset that 16 bits can hold. -/
theorem target_eq_ok_iff {a : Assembler} {label : Label} {target : UInt16} :
    a.target label = .ok target ↔ a.BoundAt label target.toNat := by
  unfold Assembler.target BoundAt
  split
  · rename_i offset hoffset
    rw [hoffset]
    split
    · rename_i hlt
      simp only [Except.ok.injEq, Option.some.injEq]
      constructor
      · rintro rfl
        exact (UInt16.toNat_ofNat_of_lt' hlt).symm
      · rintro rfl
        exact UInt16.ofNat_toNat
    · rename_i hlt
      simp only [reduceCtorEq, Option.some.injEq, false_iff]
      rintro rfl
      exact hlt target.toNat_lt
  · rename_i hnone
    simp only [reduceCtorEq, false_iff]
    exact hnone _

/-- A label that has a target stands for it. -/
theorem offsets_of_target {a : Assembler} {label : Label} {target : UInt16}
    (h : a.target label = .ok target) : a.offsets label = target := by
  rw [offsets, h]

/-- Resolving succeeds when all targets are known, and it fills them in. -/
theorem resolve_eq_ok_iff {a : Assembler} {fixups : List (Nat × Label)} {code code' : Code} :
    a.resolve fixups code = .ok code' ↔
      (∀ fixup ∈ fixups, ∃ target, a.target fixup.2 = .ok target) ∧
        code' = fill a.offsets fixups code := by
  induction fixups generalizing code with
  | nil => simp [resolve, fill, eq_comm]
  | cons fixup fixups ih =>
    obtain ⟨place, label⟩ := fixup
    rw [resolve, fill_cons]
    cases htarget : a.target label with
    | ok target => simp [ih, htarget, offsets_of_target htarget]
    | error e => simp [htarget]

/-- Finishing succeeds without errors and with all targets known, and gives the body with its
targets filled in. -/
theorem finish_eq_ok_iff {a : Assembler} {code : Code} :
    a.finish = .ok code ↔ a.error = none ∧
      (∀ fixup ∈ a.fixups.toList, ∃ target, a.target fixup.2 = .ok target) ∧
        code.toList = a.filled a.offsets := by
  unfold finish
  cases a.error with
  | some e => simp
  | none => simp only [resolve_eq_ok_iff, filled, true_and, Array.toList_inj]

/-- Checking a number of lanes leaves no place to be filled in. -/
theorem fixups_checkLanes (a : Assembler) (lanes : UInt8) :
    (a.checkLanes lanes).fixups = a.fixups := by
  unfold checkLanes
  split <;> rfl

/-- A branch leaves one place, for its label. -/
theorem fixups_emitBranch (a : Assembler) (head : List UInt8) (label : Label) :
    (a.emitBranch head label).fixups.toList.map Prod.snd =
      a.fixups.toList.map Prod.snd ++ [label] := by
  simp [emitBranch, emitTarget, append, align]

/-- Only branches leave a place to be filled in. -/
theorem fixups_call (a : Assembler) {c : Call} (h : c.label? = none) :
    (a.call c).fixups = a.fixups := by
  cases c with
  | branch | conditionalBranch | vectorBranch => cases h
  | bind =>
    simp only [call, Assembler.bind]
    split <;> rfl
  | op =>
    simp only [call, Assembler.op]
    split <;> rfl
  | loadSwizzle | storeSwizzle | swizzle =>
    simp only [call, Assembler.loadSwizzle, Assembler.storeSwizzle, Assembler.swizzle]
    split <;> rfl
  | vector lanes =>
    simp only [call, Assembler.vector]
    split <;> exact fixups_checkLanes a lanes
  | vectorLoadGlobal lanes => exact fixups_checkLanes a lanes
  | _ => rfl

/-- A branch leaves a place for its label. -/
theorem map_fixups_call (a : Assembler) (c : Call) :
    (a.call c).fixups.toList.map Prod.snd = a.fixups.toList.map Prod.snd ++ c.label?.toList := by
  cases hlabel : c.label? with
  | none => rw [fixups_call a hlabel, Option.toList_none, List.append_nil]
  | some label =>
    cases c with
    | branch | conditionalBranch =>
      cases hlabel
      exact fixups_emitBranch a _ label
    | vectorBranch lanes op =>
      cases hlabel
      rw [← fixups_checkLanes a lanes]
      simp only [call, Assembler.vectorBranch]
      split <;> exact fixups_emitBranch _ _ label
    | _ => cases hlabel

/-- The labels that a body still has to fill in are those its calls branch to. -/
theorem map_fixups_build (calls : List Call) :
    (build calls).fixups.toList.map Prod.snd = calls.filterMap Call.label? := by
  induction calls using List.reverseRecOn with
  | nil => rfl
  | append_singleton calls c ih =>
    rw [build_append, List.foldl_cons, List.foldl_nil, map_fixups_call, ih, List.filterMap_append]
    cases hlabel : c.label? with
    | none => simp [hlabel]
    | some label => simp [hlabel]

/-- What is known about a finished body: its bytes, when labels stand for `target`, and that the
labels that are branched to do stand for the positions at which they are bound. -/
structure LaidOut (calls : List Call) (code : Code) (target : Label → UInt16) : Prop where
  error : (build calls).error = none
  bytes : code.toList = layoutBytes target 0 calls
  bound : ∀ c ∈ calls, ∀ label, c.label? = some label →
    (build calls).BoundAt label (target label).toNat

/-- A body that is finished is laid out by its calls, when labels stand for their offsets. -/
theorem laidOut_of_finish {calls : List Call} {code : Code} (h : (build calls).finish = .ok code) :
    LaidOut calls code (build calls).offsets := by
  obtain ⟨herror, htargets, hbytes⟩ := finish_eq_ok_iff.1 h
  refine ⟨herror, by rw [hbytes, filled_build herror], fun c hc label hlabel => ?_⟩
  have hmem : label ∈ (build calls).fixups.toList.map Prod.snd :=
    map_fixups_build calls ▸ List.mem_filterMap.2 ⟨c, hc, hlabel⟩
  obtain ⟨fixup, hfixup, rfl⟩ := List.mem_map.1 hmem
  obtain ⟨target, htarget⟩ := htargets fixup hfixup
  rw [offsets_of_target htarget]
  exact target_eq_ok_iff.1 htarget

end Assembler

end ShaderMachine
