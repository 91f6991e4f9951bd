import Mathlib
import ShaderMachine.Instruction.Encode

/-!
# Reading is the inverse of writing

`Code.readInstruction_eq_ok_iff` says when reading succeeds: exactly where the bytes of the
instruction stand (`Code.Spans`), its wide operand is aligned, and its lists fit their count byte.
The reads it is made of have a statement of the same shape each. `Code.Spans` composes along an
append of bytes as reads compose along a bind, so each statement follows from those of its parts.
-/

namespace ShaderMachine

/-! ## Little-endian numbers -/

/-- As many bytes are written as were asked for. -/
@[simp] theorem length_littleEndianBytes (count n : Nat) :
    (littleEndianBytes count n).length = count := by
  induction count generalizing n with
  | zero => rfl
  | succ count ih => simp [littleEndianBytes, ih]

/-- Writing keeps a number up to the width it is written in. -/
theorem littleEndian_littleEndianBytes (count n : Nat) :
    littleEndian (littleEndianBytes count n) = n % 256 ^ count := by
  induction count generalizing n with
  | zero => simp [littleEndianBytes, littleEndian, Nat.mod_one]
  | succ count ih =>
    have ih := ih (n / 256)
    simp only [littleEndian] at ih
    simp only [littleEndianBytes, littleEndian, List.foldr_cons, ih, UInt8.toNat_ofNat']
    have hpow : 256 ^ (count + 1) = 256 * 256 ^ count := Nat.pow_succ'
    rw [hpow, Nat.mod_mul]

/-- The number of some bytes is below the bound of their width. -/
theorem littleEndian_lt (bytes : List UInt8) : littleEndian bytes < 256 ^ bytes.length := by
  induction bytes with
  | nil => simp [littleEndian]
  | cons b bytes ih =>
    have hb := b.toNat_lt
    simp only [littleEndian] at ih
    simp only [littleEndian, List.foldr_cons, List.length_cons, Nat.pow_succ]
    omega

/-- The number of some bytes, written in as many bytes, gives them back. -/
theorem littleEndianBytes_littleEndian (bytes : List UInt8) :
    littleEndianBytes bytes.length (littleEndian bytes) = bytes := by
  induction bytes with
  | nil => rfl
  | cons b bytes ih =>
    have hb := b.toNat_lt
    simp only [littleEndian] at ih
    simp only [littleEndian, List.length_cons, List.foldr_cons, littleEndianBytes, List.cons.injEq]
    constructor
    · rw [← UInt8.toNat_inj, UInt8.toNat_ofNat']
      omega
    · rw [Nat.add_mul_div_left _ _ (by omega), Nat.div_eq_of_lt hb, Nat.zero_add, ih]

/-! ## Numbers of lanes -/

/-- A number of lanes is found by its own byte. -/
theorem LaneCount.ofByte?_val (lanes : LaneCount) : ofByte? lanes.val = some lanes := by
  rw [ofByte?, dif_pos ⟨lanes.pos, lanes.le⟩]

/-- A number of lanes that is found by a byte has this byte. -/
theorem LaneCount.val_of_ofByte? {b : UInt8} {lanes : LaneCount} (h : ofByte? b = some lanes) :
    lanes.val = b := by
  unfold ofByte? at h
  split at h
  · cases h; rfl
  · cases h

/-! ## Alignment and size -/

/-- The operand of a lane-wide branch is aligned when the operation stands at `position`. -/
def LaneOp.Aligned (position : Nat) : LaneOp → Prop
  | branch _ | conditionalBranch _ => (position + 1) % 2 = 0
  | _ => True

namespace Instruction

/-- The wide operand, if there is one, is aligned when the instruction stands at `position`. -/
def Aligned (position : Nat) : Instruction → Prop
  | branch _ | conditionalBranch _ => (position + 1) % 2 = 0
  | pushImmediate _ => (position + 1) % 4 = 0
  | vector _ op => op.Aligned (position + 2)
  | _ => True

/-- The lists are no longer than a count byte can say. -/
def Fits : Instruction → Prop
  | loadSwizzle offsets | storeSwizzle offsets => offsets.length < 256
  | swizzle _ indices => indices.length < 256
  | _ => True

/-- An operand at a multiple of its width needs no padding, and no other does. -/
theorem WideOperand.padding_eq_zero_iff (operand : WideOperand) (h : 0 < operand.width)
    {position : Nat} :
    operand.padding position = 0 ↔ (position + operand.header) % operand.width = 0 := by
  have hlt := Nat.mod_lt (position + operand.header) h
  unfold WideOperand.padding
  rcases Nat.eq_zero_or_pos ((position + operand.header) % operand.width) with h0 | h0
  · rw [h0, Nat.sub_zero, Nat.mod_self]
  · rw [Nat.mod_eq_of_lt (by omega)]
    omega

/-- An instruction is aligned where it needs no padding. -/
theorem aligned_iff_padding {i : Instruction} {position : Nat} :
    i.Aligned position ↔ i.padding position = 0 := by
  cases i with
  | branch | conditionalBranch =>
    exact (WideOperand.padding_eq_zero_iff ⟨1, 2⟩ (by decide)).symm
  | pushImmediate => exact (WideOperand.padding_eq_zero_iff ⟨1, 4⟩ (by decide)).symm
  | vector lanes op =>
    cases op with
    | branch | conditionalBranch =>
      exact (WideOperand.padding_eq_zero_iff ⟨3, 2⟩ (by decide)).symm
    | _ => exact iff_of_true trivial rfl
  | _ => exact iff_of_true trivial rfl

/-- The first byte of an instruction is the byte of its operation. -/
theorem encode_eq_cons (i : Instruction) : i.encode = i.opcode.byte :: i.encode.tail := by
  cases i <;> rfl

end Instruction

/-- The first byte of a lane-wide operation is the byte of the operation. -/
theorem LaneOp.encode_eq_cons (op : LaneOp) : op.encode = op.opcode.byte :: op.encode.tail := by
  cases op <;> rfl

/-- The lane-wide form of an operation without inline operands, if it has one. -/
def PlainOp.laneOp? : PlainOp → Option LaneOp
  | binary op => some (.binary op)
  | unary op => some (.unary op)
  | load => some .load
  | store => some .store
  | _ => none

/-! ## Bytes in a body -/

namespace Code

/-- The bytes of the body from `ip` to `ip'`. -/
def Spans (code : Code) (ip : Nat) (bytes : List UInt8) (ip' : Nat) : Prop :=
  ip ≤ ip' ∧ ip' ≤ code.size ∧ (code.extract ip ip').toList = bytes

section
variable {code : Code} {ip ip' : Nat}

/-- The ends of a span are apart by the number of its bytes. -/
theorem Spans.length_eq {bytes : List UInt8} (h : code.Spans ip bytes ip') :
    ip' = ip + bytes.length := by
  obtain ⟨hle, hsize, rfl⟩ := h
  simp only [Array.length_toList, Array.size_extract]
  omega

/-- A span lies within the body. -/
theorem Spans.le_size {bytes : List UInt8} (h : code.Spans ip bytes ip') : ip' ≤ code.size := h.2.1

/-- A span cuts the body in three. -/
theorem spans_iff_append {bytes : List UInt8} :
    code.Spans ip bytes ip' ↔
      ∃ pre post, code.toList = pre ++ bytes ++ post ∧ pre.length = ip ∧ ip + bytes.length = ip' := by
  constructor
  · intro h
    refine ⟨code.toList.take ip, code.toList.drop ip', ?_, ?_, h.length_eq.symm⟩
    · obtain ⟨hle, hsize, rfl⟩ := h
      rw [Array.toList_extract, List.extract_eq_take_drop, List.append_assoc]
      have hdrop : code.toList.drop ip' = (code.toList.drop ip).drop (ip' - ip) := by
        rw [List.drop_drop]; congr 1; omega
      rw [hdrop, List.take_append_drop, List.take_append_drop]
    · rw [List.length_take, Array.length_toList]
      exact Nat.min_eq_left (Nat.le_trans h.1 h.2.1)
  · rintro ⟨pre, post, hcode, rfl, rfl⟩
    refine ⟨Nat.le_add_right _ _, ?_, ?_⟩
    · rw [← Array.length_toList, hcode]; simp
    · rw [Array.toList_extract, List.extract_eq_take_drop, hcode, List.append_assoc,
        List.drop_left, Nat.add_sub_cancel_left, List.take_left]

/-- No bytes stand anywhere up to the end of a body. -/
theorem spans_nil_iff : code.Spans ip [] ip' ↔ ip' = ip ∧ ip ≤ code.size := by
  constructor
  · intro h
    have := h.length_eq
    exact ⟨by simpa using this, Nat.le_trans h.1 h.2.1⟩
  · rintro ⟨rfl, h⟩
    exact ⟨Nat.le_refl _, h, by simp⟩

/-- Spans compose as their bytes are appended. -/
theorem spans_append_iff {bytes bytes' : List UInt8} :
    code.Spans ip (bytes ++ bytes') ip' ↔
      code.Spans ip bytes (ip + bytes.length) ∧ code.Spans (ip + bytes.length) bytes' ip' := by
  constructor
  · intro h
    obtain ⟨pre, post, hcode, hpre, hend⟩ := spans_iff_append.1 h
    refine ⟨spans_iff_append.2 ⟨pre, bytes' ++ post, ?_, hpre, rfl⟩,
      spans_iff_append.2 ⟨pre ++ bytes, post, ?_, ?_, ?_⟩⟩
    · rw [hcode]; simp
    · rw [hcode]; simp
    · simp [hpre]
    · rw [← hend, List.length_append, Nat.add_assoc]
  · rintro ⟨h, h'⟩
    refine ⟨Nat.le_trans h.1 h'.1, h'.2.1, ?_⟩
    rw [← h.2.2, ← h'.2.2, ← Array.toList_append, Array.extract_append_extract,
      Nat.min_eq_left h.1, Nat.max_eq_right h'.1]

/-- The first of some bytes stands at their start, and the others stand behind it. -/
theorem spans_cons_iff {b : UInt8} {bytes : List UInt8} :
    code.Spans ip (b :: bytes) ip' ↔
      code.Spans ip [b] (ip + 1) ∧ code.Spans (ip + 1) bytes ip' := by
  rw [← List.singleton_append, spans_append_iff, List.length_singleton]

/-- A span is what a longer part of the body from its start has more than a shorter one. -/
theorem Spans.take_eq {bytes : List UInt8} (h : code.Spans ip bytes ip') :
    code.toList.take ip' = code.toList.take ip ++ bytes := by
  obtain ⟨pre, post, hcode, rfl, rfl⟩ := spans_iff_append.1 h
  rw [hcode, ← List.length_append, List.take_left, List.append_assoc, List.take_left]

/-- The whole body spans from its start to its end. -/
theorem spans_toList (code : Code) : code.Spans 0 code.toList code.size :=
  ⟨Nat.zero_le _, Nat.le_refl _, by simp⟩

/-! ## Reads and the bytes they take -/

/-- Reads in sequence succeed if each does where the one before it ends. -/
theorem bind_eq_ok_iff {α β : Type} {r : Read α} {f : α → Read β} {b : β} :
    (r >>= f) ip = .ok b ip' ↔ ∃ a middle, r ip = .ok a middle ∧ f a middle = .ok b ip' := by
  simp only [Bind.bind, EStateM.bind]
  constructor
  · intro h
    split at h
    · rename_i a middle hr
      exact ⟨a, middle, hr, h⟩
    · cases h
  · rintro ⟨a, middle, hr, hf⟩
    rw [hr]
    exact hf

/-- A read that reads nothing gives its value where it is. -/
theorem pure_eq_ok_iff {α : Type} {a b : α} :
    (pure a : Read α) ip = .ok b ip' ↔ b = a ∧ ip' = ip := by
  simp only [Pure.pure, EStateM.pure, EStateM.Result.ok.injEq]
  rw [eq_comm, eq_comm (a := ip)]

/-- A read that throws does not succeed. -/
theorem throw_ne_ok {α : Type} {k : FaultKind} {a : α} : (throw k : Read α) ip ≠ .ok a ip' := nofun

/-- As many bytes as asked for are read where they stand. -/
theorem readBytes_eq_ok_iff {count : Nat} {bytes : List UInt8} :
    code.readBytes count ip = .ok bytes ip' ↔
      bytes.length = count ∧ code.Spans ip bytes ip' := by
  unfold readBytes
  constructor
  · intro h
    split at h
    · rename_i hle
      cases h
      refine ⟨?_, Nat.le_add_right _ _, hle, rfl⟩
      simp only [Array.length_toList, Array.size_extract]
      omega
    · cases h
  · rintro ⟨rfl, h⟩
    have hend := h.length_eq
    subst hend
    rw [if_pos h.le_size, h.2.2]

/-- A byte is read where it stands. -/
theorem readByte_eq_ok_iff {b : UInt8} :
    code.readByte ip = .ok b ip' ↔ code.Spans ip [b] ip' := by
  have hextract : ∀ h : ip < code.size, (code.extract ip (ip + 1)).toList = [code[ip]] := by
    intro h
    rw [Array.toList_extract, List.extract_eq_take_drop, List.drop_eq_getElem_cons (by simpa using h)]
    simp
  unfold readByte
  constructor
  · intro h
    split at h
    · rename_i hb
      cases h
      obtain ⟨hlt, rfl⟩ := Array.getElem?_eq_some_iff.1 hb
      exact ⟨Nat.le_succ _, hlt, hextract hlt⟩
    · cases h
  · intro h
    have hend := h.length_eq
    simp only [List.length_singleton] at hend
    subst hend
    have hlt : ip < code.size := h.le_size
    have hb := (hextract hlt).symm.trans h.2.2
    simp only [List.cons.injEq, and_true] at hb
    rw [Array.getElem?_eq_getElem hlt, hb]

/-- The bytes of a wide operand are read where they stand, at a multiple of their number. -/
theorem readAligned_eq_ok_iff {width : Nat} {bytes : List UInt8} :
    code.readAligned width ip = .ok bytes ip' ↔
      ip % width = 0 ∧ bytes.length = width ∧ code.Spans ip bytes ip' := by
  unfold readAligned
  split
  · rename_i h
    simp only [readBytes_eq_ok_iff, h, true_and]
  · rename_i h
    simp [h]

/-- A number is read where its bytes stand, if they are aligned. This is one statement for every
width, whose numbers are given with their way into a type and back. -/
theorem readNumber_eq_ok_iff {α : Type} (width : Nat) (ofNat : Nat → α) (toNat : α → Nat)
    (hlt : ∀ a, toNat a < 256 ^ width) (hofNat : ∀ a, ofNat (toNat a) = a)
    (htoNat : ∀ n < 256 ^ width, toNat (ofNat n) = n) {a : α} :
    (code.readAligned width >>= fun bytes => pure (ofNat (littleEndian bytes)) : Read α) ip =
        .ok a ip' ↔
      ip % width = 0 ∧ code.Spans ip (littleEndianBytes width (toNat a)) ip' := by
  simp only [bind_eq_ok_iff, readAligned_eq_ok_iff, pure_eq_ok_iff]
  constructor
  · rintro ⟨bytes, _, ⟨halign, rfl, hspan⟩, rfl, rfl⟩
    refine ⟨halign, ?_⟩
    rw [htoNat _ (littleEndian_lt bytes), littleEndianBytes_littleEndian]
    exact hspan
  · rintro ⟨halign, hspan⟩
    refine ⟨_, ip', ⟨halign, length_littleEndianBytes width _, hspan⟩, ?_, rfl⟩
    rw [littleEndian_littleEndianBytes, Nat.mod_eq_of_lt (hlt a), hofNat]

/-- A half is read where its two bytes stand, at an even offset. -/
theorem readHalf_eq_ok_iff {half : UInt16} :
    code.readHalf ip = .ok half ip' ↔
      ip % 2 = 0 ∧ code.Spans ip (targetBytes half) ip' :=
  readNumber_eq_ok_iff 2 UInt16.ofNat UInt16.toNat (fun half => half.toNat_lt)
    (fun _ => UInt16.ofNat_toNat) fun _ => UInt16.toNat_ofNat_of_lt'

/-- A word is read where its four bytes stand, at a multiple of four. -/
theorem readWord_eq_ok_iff {word : UInt32} :
    code.readWord ip = .ok word ip' ↔
      ip % 4 = 0 ∧ code.Spans ip (littleEndianBytes 4 word.toNat) ip' :=
  readNumber_eq_ok_iff 4 UInt32.ofNat UInt32.toNat (fun word => word.toNat_lt)
    (fun _ => UInt32.ofNat_toNat) fun _ => UInt32.toNat_ofNat_of_lt'

/-- A value is read where its byte stands, if the read goes on from a byte to the value that the
byte stands for, and throws at a byte that stands for none. -/
theorem readByteAs_eq_ok_iff {α : Type} {ofByte? : UInt8 → Option α} {byte : α → UInt8}
    {f : UInt8 → Read α} {refusal : UInt8 → FaultKind} (hof : ∀ a, ofByte? (byte a) = some a)
    (hto : ∀ {b a}, ofByte? b = some a → byte a = b)
    (hsome : ∀ {b a}, ofByte? b = some a → f b = pure a)
    (hnone : ∀ {b}, ofByte? b = none → f b = throw (refusal b)) {a : α} :
    (code.readByte >>= f) ip = .ok a ip' ↔ code.Spans ip [byte a] ip' := by
  simp only [bind_eq_ok_iff, readByte_eq_ok_iff]
  constructor
  · rintro ⟨b, _, hspan, h⟩
    cases hb : ofByte? b with
    | some a' =>
      rw [hsome hb] at h
      obtain ⟨rfl, rfl⟩ := pure_eq_ok_iff.1 h
      rwa [hto hb]
    | none =>
      rw [hnone hb] at h
      exact absurd h throw_ne_ok
  · intro hspan
    refine ⟨byte a, ip', hspan, ?_⟩
    rw [hsome (hof a)]
    exact pure_eq_ok_iff.2 ⟨rfl, rfl⟩

/-- An operation is read where its byte stands. -/
theorem readOpcode_eq_ok_iff {op : Opcode} :
    code.readOpcode ip = .ok op ip' ↔ code.Spans ip [op.byte] ip' :=
  readByteAs_eq_ok_iff Opcode.ofByte?_byte Opcode.byte_of_ofByte? (fun h => by rw [h])
    fun h => by rw [h]

/-- A number of lanes is read where its byte stands. -/
theorem readLaneCount_eq_ok_iff {lanes : LaneCount} :
    code.readLaneCount ip = .ok lanes ip' ↔ code.Spans ip [lanes.val] ip' :=
  readByteAs_eq_ok_iff LaneCount.ofByte?_val LaneCount.val_of_ofByte? (fun h => by rw [h])
    fun h => by rw [h]

/-- A list is read where its count byte and its bytes stand, and has no more than a count byte can
say. -/
theorem readByteList_eq_ok_iff {bytes : List UInt8} :
    code.readByteList ip = .ok bytes ip' ↔
      bytes.length < 256 ∧ code.Spans ip (countedBytes bytes) ip' := by
  simp only [readByteList, bind_eq_ok_iff, readByte_eq_ok_iff, readBytes_eq_ok_iff, countedBytes]
  rw [spans_cons_iff]
  constructor
  · rintro ⟨count, middle, hcount, hlen, hbytes⟩
    obtain rfl := hcount.length_eq
    refine ⟨hlen ▸ count.toNat_lt, ?_, hbytes⟩
    rwa [hlen, UInt8.ofNat_toNat]
  · rintro ⟨hlen, hcount, hbytes⟩
    exact ⟨_, _, hcount, (UInt8.toNat_ofNat_of_lt' hlen).symm, hbytes⟩

/-- A lane-wide operation is read where its bytes stand, provided that its target is aligned. -/
theorem readLaneOp_eq_ok_iff {op : LaneOp} :
    code.readLaneOp ip = .ok op ip' ↔ op.Aligned ip ∧ code.Spans ip op.encode ip' := by
  simp only [readLaneOp, bind_eq_ok_iff, readOpcode_eq_ok_iff]
  rw [LaneOp.encode_eq_cons, spans_cons_iff]
  constructor
  · rintro ⟨opcode, middle, hop, h⟩
    obtain rfl := hop.length_eq
    cases opcode with
    | plain op' =>
      cases op' with
      | binary | unary | load | store =>
        obtain ⟨rfl, rfl⟩ := pure_eq_ok_iff.1 h
        exact ⟨trivial, hop, spans_nil_iff.2 ⟨rfl, hop.le_size⟩⟩
      | _ => exact absurd h throw_ne_ok
    | loadGlobal =>
      obtain ⟨index, _, hindex, h⟩ := bind_eq_ok_iff.1 h
      obtain ⟨rfl, rfl⟩ := pure_eq_ok_iff.1 h
      exact ⟨trivial, hop, readByte_eq_ok_iff.1 hindex⟩
    | branch | conditionalBranch =>
      obtain ⟨target, _, htarget, h⟩ := bind_eq_ok_iff.1 h
      obtain ⟨rfl, rfl⟩ := pure_eq_ok_iff.1 h
      obtain ⟨halign, htarget⟩ := readHalf_eq_ok_iff.1 htarget
      exact ⟨halign, hop, htarget⟩
    | _ => exact absurd h throw_ne_ok
  · rintro ⟨halign, hop, h⟩
    refine ⟨op.opcode, _, hop, ?_⟩
    cases op with
    | binary | unary | load | store =>
      obtain ⟨rfl, -⟩ := spans_nil_iff.1 h
      exact pure_eq_ok_iff.2 ⟨rfl, rfl⟩
    | loadGlobal index =>
      exact bind_eq_ok_iff.2 ⟨index, _, readByte_eq_ok_iff.2 h, pure_eq_ok_iff.2 ⟨rfl, rfl⟩⟩
    | branch target | conditionalBranch target =>
      exact bind_eq_ok_iff.2
        ⟨target, _, readHalf_eq_ok_iff.2 ⟨halign, h⟩, pure_eq_ok_iff.2 ⟨rfl, rfl⟩⟩

/-- What operands that were read say: they belong to the operation, they fit and are aligned, and
their bytes stand behind the operation's byte. -/
theorem spans_of_readOperands {op : Opcode} {i : Instruction} (hle : ip + 1 ≤ code.size)
    (h : code.readOperands op (ip + 1) = .ok i ip') :
    i.opcode = op ∧ i.Fits ∧ i.Aligned ip ∧ code.Spans (ip + 1) i.encode.tail ip' := by
  cases op with
  | plain =>
    obtain ⟨rfl, rfl⟩ := pure_eq_ok_iff.1 h
    exact ⟨rfl, trivial, trivial, spans_nil_iff.2 ⟨rfl, hle⟩⟩
  | branch | conditionalBranch =>
    obtain ⟨target, _, htarget, h⟩ := bind_eq_ok_iff.1 h
    obtain ⟨rfl, rfl⟩ := pure_eq_ok_iff.1 h
    obtain ⟨halign, htarget⟩ := readHalf_eq_ok_iff.1 htarget
    exact ⟨rfl, trivial, halign, htarget⟩
  | dupDown | loadGlobal | pop | ret =>
    obtain ⟨n, _, hn, h⟩ := bind_eq_ok_iff.1 h
    obtain ⟨rfl, rfl⟩ := pure_eq_ok_iff.1 h
    exact ⟨rfl, trivial, trivial, readByte_eq_ok_iff.1 hn⟩
  | pushImmediate =>
    obtain ⟨bits, _, hbits, h⟩ := bind_eq_ok_iff.1 h
    obtain ⟨rfl, rfl⟩ := pure_eq_ok_iff.1 h
    obtain ⟨halign, hbits⟩ := readWord_eq_ok_iff.1 hbits
    exact ⟨rfl, trivial, halign, hbits⟩
  | loadSwizzle | storeSwizzle =>
    obtain ⟨offsets, _, hlist, h⟩ := bind_eq_ok_iff.1 h
    obtain ⟨rfl, rfl⟩ := pure_eq_ok_iff.1 h
    obtain ⟨hlen, hlist⟩ := readByteList_eq_ok_iff.1 hlist
    exact ⟨rfl, hlen, trivial, hlist⟩
  | swizzle =>
    obtain ⟨sources, _, hsources, h⟩ := bind_eq_ok_iff.1 h
    obtain ⟨indices, _, hlist, h⟩ := bind_eq_ok_iff.1 h
    obtain ⟨rfl, rfl⟩ := pure_eq_ok_iff.1 h
    obtain ⟨hlen, hlist⟩ := readByteList_eq_ok_iff.1 hlist
    have hsources := readByte_eq_ok_iff.1 hsources
    obtain rfl := hsources.length_eq
    exact ⟨rfl, hlen, trivial, spans_cons_iff.2 ⟨hsources, hlist⟩⟩
  | vector =>
    obtain ⟨lanes, _, hlanes, h⟩ := bind_eq_ok_iff.1 h
    obtain ⟨op, _, hop, h⟩ := bind_eq_ok_iff.1 h
    obtain ⟨rfl, rfl⟩ := pure_eq_ok_iff.1 h
    have hlanes := readLaneCount_eq_ok_iff.1 hlanes
    obtain ⟨halign, hop⟩ := readLaneOp_eq_ok_iff.1 hop
    obtain rfl := hlanes.length_eq
    exact ⟨rfl, trivial, halign, spans_cons_iff.2 ⟨hlanes, hop⟩⟩

/-- Operands that fit and are aligned are read from their bytes. -/
theorem readOperands_of_spans {i : Instruction} (hfits : i.Fits) (halign : i.Aligned ip)
    (h : code.Spans (ip + 1) i.encode.tail ip') :
    code.readOperands i.opcode (ip + 1) = .ok i ip' := by
  cases i with
  | plain =>
    obtain ⟨rfl, -⟩ := spans_nil_iff.1 h
    exact pure_eq_ok_iff.2 ⟨rfl, rfl⟩
  | branch | conditionalBranch =>
    exact bind_eq_ok_iff.2
      ⟨_, _, readHalf_eq_ok_iff.2 ⟨halign, h⟩, pure_eq_ok_iff.2 ⟨rfl, rfl⟩⟩
  | dupDown | loadGlobal | pop | ret =>
    exact bind_eq_ok_iff.2 ⟨_, _, readByte_eq_ok_iff.2 h, pure_eq_ok_iff.2 ⟨rfl, rfl⟩⟩
  | pushImmediate =>
    exact bind_eq_ok_iff.2
      ⟨_, _, readWord_eq_ok_iff.2 ⟨halign, h⟩, pure_eq_ok_iff.2 ⟨rfl, rfl⟩⟩
  | loadSwizzle | storeSwizzle =>
    exact bind_eq_ok_iff.2
      ⟨_, _, readByteList_eq_ok_iff.2 ⟨hfits, h⟩, pure_eq_ok_iff.2 ⟨rfl, rfl⟩⟩
  | swizzle =>
    obtain ⟨hsources, hlist⟩ := spans_cons_iff.1 h
    exact bind_eq_ok_iff.2 ⟨_, _, readByte_eq_ok_iff.2 hsources, bind_eq_ok_iff.2
      ⟨_, _, readByteList_eq_ok_iff.2 ⟨hfits, hlist⟩, pure_eq_ok_iff.2 ⟨rfl, rfl⟩⟩⟩
  | vector =>
    obtain ⟨hlanes, hop⟩ := spans_cons_iff.1 h
    exact bind_eq_ok_iff.2 ⟨_, _, readLaneCount_eq_ok_iff.2 hlanes, bind_eq_ok_iff.2
      ⟨_, _, readLaneOp_eq_ok_iff.2 ⟨halign, hop⟩, pure_eq_ok_iff.2 ⟨rfl, rfl⟩⟩⟩

/-- An instruction is read exactly where its bytes stand, provided that it fits and is aligned. -/
theorem readInstruction_eq_ok_iff {i : Instruction} :
    code.readInstruction ip = .ok i ip' ↔
      i.Fits ∧ i.Aligned ip ∧ code.Spans ip i.encode ip' := by
  simp only [readInstruction, bind_eq_ok_iff, readOpcode_eq_ok_iff]
  rw [Instruction.encode_eq_cons, spans_cons_iff]
  constructor
  · rintro ⟨op, middle, hop, h⟩
    obtain rfl := hop.length_eq
    obtain ⟨rfl, hfits, halign, h⟩ := spans_of_readOperands hop.le_size h
    exact ⟨hfits, halign, hop, h⟩
  · rintro ⟨hfits, halign, hop, h⟩
    exact ⟨i.opcode, _, hop, readOperands_of_spans hfits halign h⟩

/-- Nothing is read at the end of a body. -/
theorem readInstruction_size (code : Code) :
    code.readInstruction code.size = .error .codeOverrun code.size := by
  have hnone : code[code.size]? = none := Array.getElem?_eq_none (Nat.le_refl _)
  simp only [readInstruction, readOpcode, readByte, Bind.bind, EStateM.bind, hnone]

/-- A lane-wide form of an operation without one is refused. -/
theorem readInstruction_unwidened {lanes : LaneCount} {op : PlainOp} (hop : op.laneOp? = none)
    (h : code.Spans ip [Opcode.vector.byte, lanes.val, op.byte] ip') :
    ∃ ip'', code.readInstruction ip = .error (.unsupportedLaneOp (.plain op)) ip'' := by
  obtain ⟨hvector, h⟩ := spans_cons_iff.1 h
  obtain ⟨hlanes, h⟩ := spans_cons_iff.1 h
  have hvector := readOpcode_eq_ok_iff.2 hvector
  have hlanes := readLaneCount_eq_ok_iff.2 hlanes
  have hop' : code.readOpcode (ip + 1 + 1) = .ok (.plain op) ip' := readOpcode_eq_ok_iff.2 h
  refine ⟨ip', ?_⟩
  simp only [readInstruction, readOperands, readLaneOp, Bind.bind, EStateM.bind, hvector, hlanes,
    hop']
  cases op with
  | binary | unary | load | store => cases hop
  | _ => rfl

end

end Code

end ShaderMachine
