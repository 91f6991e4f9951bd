import ShaderMachine.Proofs.Checked.Memory
import ShaderMachine.Proofs.Instruction.Codec
import ShaderMachine.Proofs.Machine.Height

/-!
# Instructions with raw accesses

What instructions do, with the raw accesses spelled out: those to memory, the sums of a base and an
offset, and those to the scratch buffer of 16 words in which lanes and the sources of a swizzle are
collected (`takeInto`). Two divisions are raw as well. `step_eq` says that an instruction comes to
the same as without raw accesses, so none of them is ever a violation.

The accesses to the buffer are covered by facts that are checked elsewhere: the decoder refuses lane
counts above 16, which is in the type of `LaneCount`, and a swizzle refuses as many sources. Sums do
not overflow, for a base is a word of 32 bits and an offset a byte or a lane.
-/

namespace ShaderMachine.Checked

/-! ## Memory -/

/-- Looks at the state. -/
def inspect {α : Type} (f : State → Except Abort α) : Checked State α := fun s =>
  match f s with
  | .ok a => .ok a s
  | .error e => .error e s

/-- Changes the state, or nothing at all if the change fails. -/
def update (f : State → Except Abort State) : Checked State Unit := fun s =>
  match f s with
  | .ok t => .ok () t
  | .error e => .error e s

def readStack {α : Type} (f : Stack → Except Abort α) : Checked State α := inspect (f ·.stack)

def changeStack (f : Stack → Except Abort Stack) : Checked State Unit :=
  update fun s => return { s with stack := ← f s.stack }

def load (index : Int) : Checked State Word := readStack (readSlot .stack ·.slots index)

def store (index : Int) (w : Word) : Checked State Unit :=
  changeStack fun stack => return ⟨← writeSlot .stack stack.slots index w⟩

def loadGlobal (index : Int) : Checked State Word :=
  inspect (readSlot .globals ·.globals.slots index)

def storeGlobal (index : Int) (w : Word) : Checked State Unit :=
  update fun s => return { s with globals := ⟨← writeSlot .globals s.globals.slots index w⟩ }

/-! ## Arithmetic -/

/-- The result of a raw division. -/
def quotient (divisor result : Word) : Except Violation Word :=
  if divisor.bits = 0 then .error .divisor else .ok result

/-- Signed divisions are raw, behind a check of the divisor. -/
def evalBinary (op : BinaryOp) (a b : Word) : Except Abort Word :=
  match op with
  | .divideSigned => do
    if b.bits = 0 then throw (.fault .divisionByZero)
    quotient b (.ofSigned (a.signed / b.signed))
  | .remainderSigned => do
    if b.bits = 0 then throw (.fault .divisionByZero)
    quotient b (.ofSigned (a.signed % b.signed))
  | op => (op.eval a b).mapError .fault

/-- The left operands with the results in their places, up to the first lane that faults. -/
def evalLanes (op : BinaryOp) :
    List Word → List Word → Except Violation (List Word × Option FaultKind)
  | left :: lefts, right :: rights => do
    match ← settle (evalBinary op left right) with
    | .ok w => do
      let (words, fault) ← evalLanes op lefts rights
      return (w :: words, fault)
    | .error k => return (left :: lefts, some k)
  | lefts, _ => return (lefts, none)

/-! ## The scratch buffer -/

/-- Takes words into the first places of a buffer, the last place first. -/
def fill : Nat → Array Word → Checked State (Array Word)
  | 0, buffer => return buffer
  | count + 1, buffer => do
    let w ← lift Exec.pop
    let buffer ← Raw.set buffer count w
    fill count buffer

/-- Takes so many words into a new scratch buffer. -/
def takeInto (count : Nat) : Checked State (Array Word) := do
  let buffer := Array.replicate maxLanes ⟨0⟩
  let _ ← Raw.slice buffer 0 count
  fill count buffer

/-! ## Instructions -/

def plain : PlainOp → Checked State Unit
  | .binary op => do
    let right ← lift Exec.pop
    let left ← lift (Exec.readStack (·.top))
    let result ← evalBinary op left right
    lift (Exec.changeStack (·.replaceTop [result]))
  | .load => do
    let address ← lift Exec.pop
    let w ← load address.toInt
    lift (Exec.push w)
  | .store => do
    let w ← lift Exec.pop
    let address ← lift Exec.pop
    store address.toInt w
  | .storeGlobal => do
    let w ← lift Exec.pop
    let address ← lift Exec.pop
    storeGlobal address.toInt w
  | op => lift (Exec.plain op)

def gather (base : Int) (offsets : List Nat) : Checked State Unit :=
  offsets.forM fun offset => do
    let index ← Raw.addIndex base offset
    let w ← load index
    lift (Exec.push w)

def loadSwizzle (offsets : List UInt8) : Checked State Unit := do
  let base ← lift Exec.pop
  gather base.toInt (offsets.map UInt8.toNat)

def storeSwizzle (offsets : List UInt8) : Checked State Unit := do
  let base ← readStack (peek · offsets.length)
  offsets.reverse.forM fun offset => do
    let w ← lift Exec.pop
    let index ← Raw.addIndex base.toInt offset.toNat
    store index w
  let _ ← lift Exec.pop

def swizzle (sources : UInt8) (indices : List UInt8) : Checked State Unit := do
  if maxLanes < sources.toNat then throw (.fault (.invalidLaneCount sources))
  let buffer ← takeInto sources.toNat
  indices.forM fun index => do
    if sources.toNat ≤ index.toNat then
      throw (.fault (.outOfBounds .laneBuffer index.toNat sources.toNat))
    let w ← Raw.get buffer index.toNat
    lift (Exec.push w)

def binaryLanes (lanes : Nat) (op : BinaryOp) : Checked State Unit := do
  let buffer ← takeInto lanes
  let lefts ← readStack (topN · lanes)
  let rights ← Raw.slice buffer 0 lanes
  let (words, fault) ← evalLanes op lefts rights.toList
  lift (Exec.changeStack (·.replaceTop words))
  match fault with
  | some k => throw (.fault k)
  | none => return

def lanes (lanes : Nat) : LaneOp → Checked State Unit
  | .binary op => binaryLanes lanes op
  | .unary op => do
    let words ← readStack (topN · lanes)
    lift (Exec.changeStack (·.replaceTop (words.map op.eval)))
  | .load => do
    let base ← lift Exec.pop
    gather base.toInt (List.range lanes)
  | .store => do
    let buffer ← takeInto lanes
    let base ← lift Exec.pop
    let words ← Raw.slice buffer 0 lanes
    words.toList.zipIdx.reverse.forM fun (w, lane) => do
      let index ← Raw.addIndex base.toInt lane
      store index w
  | .loadGlobal index =>
    (List.range lanes).forM fun lane => do
      let index ← Raw.addIndex index.toNat lane
      let w ← loadGlobal index
      lift (Exec.push w)
  | .branch target => lift (Exec.jump target)
  | .conditionalBranch target => lift (Exec.jumpIf target)

def step : Instruction → Checked State Flow
  | .plain op => do
    plain op
    return .next
  | .dupDown count => do
    changeStack (dupDown · count.toNat)
    return .next
  | .loadGlobal index => do
    let w ← loadGlobal index.toNat
    lift (Exec.push w)
    return .next
  | .pop count => do
    changeStack (dropTop · count.toNat)
    return .next
  | .ret count => do
    changeStack (returnToBottom · count.toNat)
    return .finish count.toNat
  | .loadSwizzle offsets => do
    loadSwizzle offsets
    return .next
  | .storeSwizzle offsets => do
    storeSwizzle offsets
    return .next
  | .swizzle sources indices => do
    swizzle sources indices
    return .next
  | .vector count op => do
    lanes count.toNat op
    return .next
  | i => lift (Exec.step i)

/-! ## Comparing with computations without raw accesses -/

/-- In all states a checked computation does what the other one does. -/
abbrev Mirrors {α : Type} (x : Checked State α) (y : Exec α) : Prop :=
  Follows (fun _ => True) Eq x y

/-- A lifted computation mirrors itself. -/
theorem mirrors_lift {α : Type} (x : Exec α) : Mirrors (lift x) x := .lift fun _ _ _ _ _ => trivial

section
variable {α β : Type}

/-- Computations in sequence mirror each other part by part, with the same results. -/
theorem Mirrors.bind {x : Checked State α} {y : Exec α} {f : α → Checked State β} {g : α → Exec β}
    (hx : Mirrors x y) (hf : ∀ a, Mirrors (f a) (g a)) : Mirrors (x >>= f) (y >>= g) :=
  Follows.bind hx fun a _ hab => hab ▸ hf a

/-- Looks at the stack mirror each other if they come to the same on every stack. -/
theorem mirrors_readStack {f : Stack → Except Abort α} {g : Stack → Except FaultKind α}
    (h : ∀ stack, f stack = (g stack).mapError .fault) :
    Mirrors (readStack f) (Exec.readStack g) := by
  intro s _
  simp only [readStack, inspect, Exec.readStack, h]
  cases g s.stack with
  | ok a => exact .ok rfl trivial
  | error k => exact .error

/-- Changes of the stack mirror each other if they come to the same on every stack. -/
theorem mirrors_changeStack {f : Stack → Except Abort Stack} {g : Stack → Except FaultKind Stack}
    (h : ∀ stack, f stack = (g stack).mapError .fault) :
    Mirrors (changeStack f) (Exec.changeStack g) := by
  intro s _
  simp only [changeStack, update, Exec.changeStack, h]
  cases g s.stack with
  | ok stack => exact .ok rfl trivial
  | error k => exact .error

/-- A load makes the raw access of the slot that it reads. -/
theorem mirrors_load (index : Int) : Mirrors (load index) (Exec.load index) :=
  mirrors_readStack fun stack => readSlot_eq .stack stack.slots index

/-- A store makes the raw access of the slot that it writes. -/
theorem mirrors_store (index : Int) (w : Word) : Mirrors (store index w) (Exec.store index w) := by
  refine mirrors_changeStack fun stack => ?_
  rw [writeSlot_eq, Stack.set]
  cases Slots.set .stack stack.slots index w <;> rfl

/-- A load from the globals makes the raw access of the slot that it reads. -/
theorem mirrors_loadGlobal (index : Int) : Mirrors (loadGlobal index) (Exec.loadGlobal index) := by
  intro s _
  simp only [loadGlobal, inspect, Exec.loadGlobal, Globals.get, readSlot_eq]
  cases Slots.get .globals s.globals.slots index with
  | ok w => exact .ok rfl trivial
  | error k => exact .error

/-- A store to the globals makes the raw access of the slot that it writes. -/
theorem mirrors_storeGlobal (index : Int) (w : Word) :
    Mirrors (storeGlobal index w) (Exec.storeGlobal index w) := by
  intro s _
  simp only [storeGlobal, update, Exec.storeGlobal, Globals.set, writeSlot_eq]
  cases Slots.set .globals s.globals.slots index w with
  | ok slots => exact .ok rfl trivial
  | error k => exact .error

end

/-! ## Arithmetic -/

/-- A raw division by what is not zero has a result. -/
theorem quotient_eq_ok {divisor : Word} (h : divisor.bits ≠ 0) (result : Word) :
    quotient divisor result = .ok result := if_neg h

/-- The two raw divisions stand behind a check of the divisor, and all else is not raw. -/
theorem evalBinary_eq (op : BinaryOp) (a b : Word) :
    evalBinary op a b = (op.eval a b).mapError .fault := by
  cases op with
  | divideSigned | remainderSigned =>
    by_cases hb : b.bits = 0
    · simp [evalBinary, BinaryOp.eval, divided, hb]
      rfl
    · simp only [evalBinary, BinaryOp.eval, divided, if_neg hb]
      rw [quotient_eq_ok hb]
      rfl
  | _ => rfl

/-- Lanes are evaluated in turn up to the first fault, each of them without violations. -/
theorem evalLanes_eq (op : BinaryOp) (lefts rights : List Word) :
    evalLanes op lefts rights = .ok (op.evalLanes lefts rights) := by
  induction lefts generalizing rights with
  | nil => cases rights <;> rfl
  | cons left lefts ih =>
    cases rights with
    | nil => rfl
    | cons right rights =>
      rw [evalLanes, BinaryOp.evalLanes, evalBinary_eq, settle_mapError, ih]
      cases op.eval left right <;> rfl

/-- A base is a word of 32 bits, so adding less than a byte to it does not overflow. -/
theorem addIndex_eq_ok (base : Word) {offset : Nat} (h : offset < 256) :
    Raw.addIndex base.toInt offset = .ok (base.toInt + offset) := by
  have hlow := Int32.le_toInt base.signed
  have hhigh := Int32.toInt_lt base.signed
  exact Raw.addIndex_eq_ok (by unfold Word.toInt; omega) (by unfold Word.toInt; omega)

/-! ## The scratch buffer -/

/-- The first places of the buffer hold the words, and there are as many as were asked for. -/
structure Collected (count : Nat) (buffer : Array Word) (words : List Word) : Prop where
  le : count ≤ buffer.size
  length : words.length = count
  take : buffer.toList.take count = words

/-- Filling the first places of a buffer takes the words one after the other. -/
theorem follows_fill {count : Nat} {buffer : Array Word} (h : count ≤ buffer.size) :
    Follows (fun _ => True)
      (fun buffer' words => Collected count buffer' words ∧ buffer'.size = buffer.size ∧
        buffer'.toList.drop count = buffer.toList.drop count)
      (fill count buffer) (Exec.popMany count) := by
  induction count generalizing buffer with
  | zero => exact .pure ⟨⟨h, rfl, rfl⟩, rfl, rfl⟩
  | succ count ih =>
    refine Follows.bind (mirrors_lift Exec.pop) fun w _ heq => ?_
    subst heq
    have hsize : (buffer.set count w h).size = buffer.size := Array.size_set _
    refine .raw (Raw.set_eq_ok w h) ?_
    rw [← bind_pure (fill count _)]
    refine (ih (by omega)).bind fun buffer' below hbelow => .pure ?_
    obtain ⟨⟨hle, hlength, htake⟩, hsize', hdrop⟩ := hbelow
    -- Behind the places that are filled already stands the word that was taken first.
    have hrest : buffer'.toList.drop count = w :: buffer.toList.drop (count + 1) := by
      rw [hdrop, Array.toList_set, List.drop_eq_getElem_cons (by simpa using h),
        List.getElem_set_self, List.drop_set_of_lt (Nat.lt_succ_self count)]
    refine ⟨⟨by omega, by simp [hlength], ?_⟩, hsize'.trans hsize, ?_⟩
    · rw [List.take_add, htake, hrest]
      rfl
    · rw [← List.drop_drop, hrest]
      rfl

/-- A scratch buffer holds the words that are taken into it, if there are no more than it has places
for. -/
theorem follows_takeInto {count : Nat} (h : count ≤ maxLanes) :
    Follows (fun _ => True) (Collected count) (takeInto count) (Exec.popMany count) := by
  have hsize : count ≤ (Array.replicate maxLanes (⟨0⟩ : Word)).size := by simpa using h
  refine .raw (Raw.slice_eq_ok (Nat.zero_le _) hsize) ?_
  rw [← bind_pure (fill count _), ← bind_pure (Exec.popMany count)]
  exact (follows_fill hsize).bind fun _ _ hfill => .pure hfill.1

example (s : State) : takeInto 17 s = .error (.violation .range) s := rfl

section
variable {count : Nat} {buffer : Array Word} {words : List Word}

/-- The words are the first part of the buffer. -/
theorem Collected.slice (h : Collected count buffer words) :
    Raw.slice buffer 0 count = .ok words.toArray := by
  rw [Raw.slice_eq_ok (Nat.zero_le _) h.le]
  exact congrArg Except.ok (Array.ext' (by simp [h.take]))

/-- A word is at its place in the buffer. -/
theorem Collected.get (h : Collected count buffer words) {i : Nat} (hi : i < count) :
    ∃ w, Raw.get buffer i = .ok w ∧ words[i]? = some w := by
  have hlt : i < buffer.size := Nat.lt_of_lt_of_le hi h.le
  refine ⟨buffer[i], Raw.get_eq_ok hlt, ?_⟩
  rw [← h.take, List.getElem?_take_of_lt hi]
  simp [hlt]

end

/-! ## Instructions -/

/-- Operations without inline operands come to the same with raw accesses. -/
theorem mirrors_plain (op : PlainOp) : Mirrors (plain op) (Exec.plain op) := by
  cases op with
  | binary op =>
    refine (mirrors_lift _).bind fun right => (mirrors_lift _).bind fun left => ?_
    refine Mirrors.bind ?_ fun result => mirrors_lift _
    intro s _
    rw [evalBinary_eq]
    unfold Exec.ofExcept
    cases op.eval left right with
    | ok w => exact .ok rfl trivial
    | error k => exact .error
  | load =>
    exact (mirrors_lift _).bind fun address => (mirrors_load _).bind fun w => mirrors_lift _
  | store =>
    exact (mirrors_lift _).bind fun w => (mirrors_lift _).bind fun address => mirrors_store _ w
  | storeGlobal =>
    exact (mirrors_lift _).bind fun w => (mirrors_lift _).bind fun address =>
      mirrors_storeGlobal _ w
  | reserved op => exact mirrors_lift (Exec.plain (.reserved op))
  | nop => exact mirrors_lift (Exec.plain .nop)
  | unary | dup | debugPrint => exact mirrors_lift (Exec.plain _)

/-- Words are gathered at a base with offsets less than a byte, whose sums do not overflow. -/
theorem mirrors_gather (base : Word) {offsets : List Nat} (h : ∀ offset ∈ offsets, offset < 256) :
    Mirrors (gather base.toInt offsets) (Exec.gather base.toInt offsets) :=
  .forM fun offset hmem => .raw (addIndex_eq_ok base (h offset hmem))
    ((mirrors_load _).bind fun _ => mirrors_lift _)

/-- The offsets of a gathering load are bytes. -/
theorem mirrors_loadSwizzle (offsets : List UInt8) :
    Mirrors (loadSwizzle offsets) (Exec.loadSwizzle offsets) := by
  refine (mirrors_lift _).bind fun base => mirrors_gather base fun offset hmem => ?_
  obtain ⟨b, -, rfl⟩ := List.mem_map.1 hmem
  exact b.toNat_lt

/-- The base is looked for below as many words as the list has, which a count byte can say. Offsets
are bytes. -/
theorem mirrors_storeSwizzle {offsets : List UInt8} (h : offsets.length < 256) :
    Mirrors (storeSwizzle offsets) (Exec.storeSwizzle offsets) := by
  refine (mirrors_readStack fun stack => peek_eq stack h).bind fun base => ?_
  refine Mirrors.bind (.forM fun offset _ => ?_) fun _ => (mirrors_lift _).bind fun _ => .pure rfl
  exact (mirrors_lift _).bind fun w =>
    .raw (addIndex_eq_ok base offset.toNat_lt) (mirrors_store _ w)

/-- The sources are taken into the scratch buffer behind the check that they are no more than it has
places for, and looked up behind a check of the index. -/
theorem mirrors_swizzle (sources : UInt8) (indices : List UInt8) :
    Mirrors (swizzle sources indices) (Exec.swizzle sources indices) := by
  unfold swizzle Exec.swizzle
  by_cases hsources : maxLanes < sources.toNat
  · rw [if_pos hsources, if_pos hsources]
    exact .throw _
  · rw [if_neg hsources, if_neg hsources]
    refine Follows.bind (follows_takeInto (Nat.le_of_not_lt hsources)) fun buffer words hwords => ?_
    refine .forM fun index _ => ?_
    by_cases hindex : sources.toNat ≤ index.toNat
    · rw [if_pos hindex, List.getElem?_eq_none (hwords.length.symm ▸ hindex)]
      exact .throw _
    · obtain ⟨w, hw, hword⟩ := hwords.get (Nat.lt_of_not_le hindex)
      rw [if_neg hindex, hword]
      exact .raw hw (mirrors_lift _)

/-- The right operands are taken into the scratch buffer, and the left ones are replaced where they
are on the stack. -/
theorem mirrors_binaryLanes {count : Nat} (h : count ≤ maxLanes) (op : BinaryOp) :
    Mirrors (binaryLanes count op) (Exec.binaryLanes count op) := by
  refine Follows.bind (follows_takeInto h) fun buffer rights hrights => ?_
  refine (mirrors_readStack fun stack => topN_eq stack count).bind fun lefts => ?_
  refine .raw hrights.slice (.raw (evalLanes_eq op lefts rights) ?_)
  refine (mirrors_lift _).bind fun _ => ?_
  cases (op.evalLanes lefts rights).2 with
  | some k => exact .throw k
  | none => exact .pure rfl

/-- Lanes are no more than the scratch buffer has places for. -/
theorem mirrors_lanes (lanes : LaneCount) (op : LaneOp) :
    Mirrors (Checked.lanes lanes.toNat op) (Exec.lanes lanes.toNat op) := by
  have hlane : ∀ lane ∈ List.range lanes.toNat, lane < 256 := fun lane hmem =>
    Nat.lt_trans (List.mem_range.1 hmem) lanes.val.toNat_lt
  cases op with
  | binary op => exact mirrors_binaryLanes lanes.le op
  | unary op =>
    exact (mirrors_readStack fun stack => topN_eq stack _).bind fun words => mirrors_lift _
  | load => exact (mirrors_lift _).bind fun base => mirrors_gather base hlane
  | store =>
    refine Follows.bind (follows_takeInto lanes.le) fun buffer words hwords => ?_
    refine (mirrors_lift _).bind fun base => .raw hwords.slice ?_
    refine .forM fun (w, lane) hmem => ?_
    have hlt : lane < words.length :=
      (List.getElem?_eq_some_iff.1 (List.mem_zipIdx_iff_getElem?.1 (List.mem_reverse.1 hmem))).1
    rw [hwords.length] at hlt
    exact .raw (addIndex_eq_ok base (hlane lane (List.mem_range.2 hlt))) (mirrors_store _ w)
  | loadGlobal index =>
    refine .forM fun lane hmem => ?_
    have hlt := hlane lane hmem
    have hindex := index.toNat_lt
    exact .raw (Raw.addIndex_eq_ok (by omega) (by omega))
      ((mirrors_loadGlobal _).bind fun w => mirrors_lift _)
  | branch target => exact mirrors_lift (Exec.jump target)
  | conditionalBranch target => exact mirrors_lift (Exec.jumpIf target)

/-- An instruction that can be encoded comes to the same with raw accesses. -/
theorem step_eq {i : Instruction} (h : i.Fits) : step i = lift (Exec.step i) := by
  refine Follows.eq_lift ?_
  have hnext : ∀ {x : Checked State Unit} {y : Exec Unit}, Mirrors x y →
      Mirrors (do x; return Flow.next) (do y; return Flow.next) := fun hx =>
    hx.bind fun _ => .pure rfl
  cases i with
  | plain op => exact hnext (mirrors_plain op)
  | dupDown count =>
    exact hnext (mirrors_changeStack fun stack => dupDown_eq stack count.toNat_lt)
  | loadGlobal index =>
    exact (mirrors_loadGlobal _).bind fun w => hnext (mirrors_lift _)
  | pop count => exact hnext (mirrors_changeStack fun stack => dropTop_eq stack _)
  | ret count =>
    exact (mirrors_changeStack fun stack => returnToBottom_eq stack _).bind fun _ => .pure rfl
  | loadSwizzle offsets => exact hnext (mirrors_loadSwizzle offsets)
  | storeSwizzle offsets => exact hnext (mirrors_storeSwizzle h)
  | swizzle sources indices => exact hnext (mirrors_swizzle sources indices)
  | vector count op => exact hnext (mirrors_lanes count op)
  | branch target => exact mirrors_lift (Exec.step (.branch target))
  | conditionalBranch target => exact mirrors_lift (Exec.step (.conditionalBranch target))
  | pushImmediate value => exact mirrors_lift (Exec.step (.pushImmediate value))

end ShaderMachine.Checked
