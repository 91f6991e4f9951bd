import Mathlib
import ShaderMachine.Fault

/-!
# Accesses that nothing guards

The machine reads and writes arrays by position, cuts parts out of them, and adds sizes and indices
in 64 bits. Where it does so it relies on a check that it has made elsewhere. `Raw` has these
accesses with their own conditions spelled out: where one does not hold, the access is a
`Violation`, which is not a fault of the program that runs but a failure of the machine.

`Checked` computations are those of the machine with raw accesses in them, so they can end in a
fault or in a violation. `Checked.Follows` says that a checked computation does what one without
violations does; it composes, so whole instructions and runs are compared part by part.
-/

namespace ShaderMachine

/-- What goes wrong in an access that nothing guards. -/
inductive Violation where
  /-- There is no element at a position. -/
  | position
  /-- A part reaches beyond the ends. -/
  | range
  /-- A part is copied over one of another length. -/
  | length
  /-- A sum or a difference does not fit its type. -/
  | overflow
  /-- A division by zero. -/
  | divisor
deriving DecidableEq, Repr

/-! ## Raw accesses -/

namespace Raw

section
variable {α : Type}

/-- The element at a position. -/
def get (xs : Array α) (i : Nat) : Except Violation α :=
  if h : i < xs.size then .ok xs[i] else .error .position

/-- Replaces the element at a position. -/
def set (xs : Array α) (i : Nat) (a : α) : Except Violation (Array α) :=
  if h : i < xs.size then .ok (xs.set i a h) else .error .position

/-- The elements from one position up to another. -/
def slice (xs : Array α) (start stop : Nat) : Except Violation (Array α) :=
  if start ≤ stop ∧ stop ≤ xs.size then .ok (xs.extract start stop) else .error .range

/-- Inserts elements at a position. -/
def splice (xs : Array α) (position : Nat) (part : Array α) : Except Violation (Array α) :=
  if position ≤ xs.size then
    .ok (xs.extract 0 position ++ part ++ xs.extract position xs.size)
  else .error .range

/-- Copies the elements from a position on over those from another. -/
def copyWithin (xs : Array α) (start target : Nat) : Except Violation (Array α) :=
  let stop := target + (xs.size - start)
  if start ≤ xs.size ∧ stop ≤ xs.size then
    .ok (xs.extract 0 target ++ xs.extract start xs.size ++ xs.extract stop xs.size)
  else .error .range

/-- Copies a part over a buffer. -/
def copyOver (buffer part : Array α) : Except Violation (Array α) :=
  if buffer.size = part.size then .ok part else .error .length

end

/-- Adds sizes or counts, which have 64 bits. -/
def add (a b : Nat) : Except Violation Nat :=
  if a + b < UInt64.size then .ok (a + b) else .error .overflow

/-- Subtracts sizes. -/
def sub (a b : Nat) : Except Violation Nat :=
  if b ≤ a then .ok (a - b) else .error .overflow

/-- Adds indices, which have 64 bits and a sign. -/
def addIndex (a b : Int) : Except Violation Int :=
  if -0x8000000000000000 ≤ a + b ∧ a + b < 0x8000000000000000 then .ok (a + b)
  else .error .overflow

section
variable {α : Type} {xs : Array α} {i start stop a b : Nat}

/-- Reading a position that exists is no violation. -/
theorem get_eq_ok (h : i < xs.size) : get xs i = .ok xs[i] := dif_pos h

/-- Writing to a position that exists is no violation. -/
theorem set_eq_ok (x : α) (h : i < xs.size) : set xs i x = .ok (xs.set i x h) := dif_pos h

/-- Cutting a part out within the ends is no violation. -/
theorem slice_eq_ok (hstart : start ≤ stop) (hstop : stop ≤ xs.size) :
    slice xs start stop = .ok (xs.extract start stop) := if_pos ⟨hstart, hstop⟩

/-- Inserting within the ends is no violation. -/
theorem splice_eq_ok (part : Array α) (h : i ≤ xs.size) :
    splice xs i part = .ok (xs.extract 0 i ++ part ++ xs.extract i xs.size) := if_pos h

/-- Sizes whose sum has 64 bits are added. -/
theorem add_eq_ok (h : a + b < UInt64.size) : add a b = .ok (a + b) := if_pos h

/-- A size is subtracted from one that is no smaller. -/
theorem sub_eq_ok (h : b ≤ a) : sub a b = .ok (a - b) := if_pos h

/-- Indices whose sum is in the signed range of 64 bits are added. -/
theorem addIndex_eq_ok {a b : Int} (hlow : -0x8000000000000000 ≤ a + b)
    (hhigh : a + b < 0x8000000000000000) : addIndex a b = .ok (a + b) := if_pos ⟨hlow, hhigh⟩

end

end Raw

/-! ## Checked computations -/

/-- Why a checked computation ends early. -/
inductive Abort where
  | fault (kind : FaultKind)
  | violation (v : Violation)
deriving DecidableEq, Repr

/-- A computation with raw accesses on a state. -/
abbrev Checked (σ α : Type) := EStateM Abort σ α

instance : MonadLift (Except Violation) (Except Abort) := ⟨fun r => r.mapError .violation⟩

instance {σ : Type} : MonadLift (Except Abort) (Checked σ) :=
  ⟨fun r s =>
    match r with
    | .ok a => .ok a s
    | .error e => .error e s⟩

namespace Checked

/-- A computation that succeeds is passed. -/
theorem bind_ok {ε α β : Type} {r : Except ε α} {a : α} (hr : r = .ok a) (f : α → Except ε β) :
    (r >>= f) = f a := by
  subst hr
  rfl

/-- An access that is no violation is passed. -/
theorem bind_raw {α β : Type} {r : Except Violation α} {a : α} (hr : r = .ok a)
    (f : α → Except Abort β) : (liftM r >>= f) = f a := by
  subst hr
  rfl

/-- The end of a computation, which is a result or a fault. A violation is passed on. -/
def settle {α : Type} : Except Abort α → Except Violation (Except FaultKind α)
  | .ok a => .ok (.ok a)
  | .error (.fault k) => .ok (.error k)
  | .error (.violation v) => .error v

/-- A computation that only has faults ends as it does. -/
theorem settle_mapError {α : Type} (r : Except FaultKind α) :
    settle (r.mapError .fault) = .ok r := by
  cases r <;> rfl

/-- The end of a computation that starts in a state. A violation is passed on. -/
def attempt {σ α : Type} (x : Checked σ α) (s : σ) :
    Except Violation (EStateM.Result FaultKind σ α) :=
  match x s with
  | .ok a t => .ok (.ok a t)
  | .error (.fault k) t => .ok (.error k t)
  | .error (.violation v) _ => .error v

/-- A computation without raw accesses. -/
def lift {σ α : Type} (x : EStateM FaultKind σ α) : Checked σ α := fun s =>
  match x s with
  | .ok a t => .ok a t
  | .error k t => .error (.fault k) t

section
variable {σ α β γ δ : Type} {P : σ → Prop} {R : α → β → Prop} {S : γ → δ → Prop}

/-- The results of two computations of which the first does not end in a violation. -/
inductive Matches (P : σ → Prop) (R : α → β → Prop) :
    EStateM.Result Abort σ α → EStateM.Result FaultKind σ β → Prop
  | ok {a b t} : R a b → P t → Matches P R (.ok a t) (.ok b t)
  | error {k t} : Matches P R (.error (.fault k) t) (.error k t)

/-- From states with a property, which is kept, the checked computation has results that match those
of the other one, the same faults and the same states. It never ends in a violation. -/
def Follows (P : σ → Prop) (R : α → β → Prop) (x : Checked σ α) (y : EStateM FaultKind σ β) :
    Prop :=
  ∀ s, P s → Matches P R (x s) (y s)

/-- Values that are related are results that match. -/
theorem Follows.pure {a : α} {b : β} (h : R a b) : Follows P R (pure a) (pure b) :=
  fun _ hs => .ok h hs

/-- The same fault is thrown in the same state. -/
theorem Follows.throw (k : FaultKind) : Follows P R (throw (.fault k)) (throw k) :=
  fun _ _ => .error

/-- A lifted computation follows itself where it keeps the property. -/
theorem Follows.lift {x : EStateM FaultKind σ α} (h : ∀ s a t, P s → x s = .ok a t → P t) :
    Follows P Eq (lift x) x := by
  intro s hs
  unfold Checked.lift
  cases hx : x s with
  | ok a t => exact .ok rfl (h s a t hs hx)
  | error k t => exact .error

/-- Sequences follow each other part by part. What comes second may rely on the relation of the
first results and on the property of the state in between. -/
theorem Follows.bind {x : Checked σ α} {y : EStateM FaultKind σ β} {f : α → Checked σ γ}
    {g : β → EStateM FaultKind σ δ} (hx : Follows P R x y)
    (hf : ∀ a b, R a b → Follows P S (f a) (g b)) : Follows P S (x >>= f) (y >>= g) := by
  intro s hs
  simp only [Bind.bind, EStateM.bind]
  generalize hr : x s = r
  generalize hr' : y s = r'
  cases hr ▸ hr' ▸ hx s hs with
  | ok hab ht => exact hf _ _ hab _ ht
  | error => exact .error

/-- A raw access that is no violation is passed, as the other computation does not have it. -/
theorem Follows.raw {r : Except Violation α} {a : α} {f : α → Checked σ γ}
    {y : EStateM FaultKind σ δ} (hr : r = .ok a) (hf : Follows P S (f a) y) :
    Follows P S (liftM r >>= f) y := by
  subst hr
  exact hf

/-- Loops over the same list follow each other if their rounds do. -/
theorem Follows.forM {ι : Type} {l : List ι} {f : ι → Checked σ PUnit}
    {g : ι → EStateM FaultKind σ PUnit} (h : ∀ i ∈ l, Follows P Eq (f i) (g i)) :
    Follows P Eq (l.forM f) (l.forM g) := by
  induction l with
  | nil => exact .pure rfl
  | cons i l ih =>
    exact (h i (.head l)).bind fun _ _ _ => ih fun i hi => h i (.tail _ hi)

/-- A computation that follows another one ends as that one does. -/
theorem Follows.attempt_eq {x : Checked σ α} {y : EStateM FaultKind σ α} (h : Follows P Eq x y)
    {s : σ} (hs : P s) : attempt x s = .ok (y s) := by
  unfold attempt
  generalize hr : x s = r
  generalize hr' : y s = r'
  cases hr ▸ hr' ▸ h s hs with
  | ok hab => rw [hab]
  | error => rfl

/-- A lifted computation ends as the computation without raw accesses. -/
theorem attempt_lift (x : EStateM FaultKind σ α) (s : σ) : attempt (Checked.lift x) s = .ok (x s) :=
  (Follows.lift fun _ _ _ _ _ => trivial : Follows (fun _ => True) Eq _ x).attempt_eq trivial

/-- What follows a computation in all states is that computation. -/
theorem Follows.eq_lift {x : Checked σ α} {y : EStateM FaultKind σ α}
    (h : Follows (fun _ => True) Eq x y) : x = Checked.lift y := by
  funext s
  unfold Checked.lift
  generalize hr : x s = r
  generalize hr' : y s = r'
  cases hr ▸ hr' ▸ h s trivial with
  | ok hab => rw [hab]
  | error => rfl

end

end Checked

end ShaderMachine
