import ShaderMachine.Memory.Slots

/-!
# The operand stack

The stack holds the parameters and locals of an invocation at its bottom and operands above them.
Slots are numbered from the bottom. An operation that needs more slots than there are is a stack
underflow, and then it changes nothing.
-/

namespace ShaderMachine

structure Stack where
  slots : Array Word := #[]
deriving DecidableEq, Repr, Inhabited

namespace Stack

/-- The number of slots. -/
def size (s : Stack) : Nat := s.slots.size

/-- The words from the bottom to the top. -/
def toList (s : Stack) : List Word := s.slots.toList

def push (s : Stack) (w : Word) : Stack := ⟨s.slots.push w⟩

/-- Takes the top word. -/
def pop (s : Stack) : Except FaultKind (Word × Stack) :=
  match s.slots.back? with
  | some w => .ok (w, ⟨s.slots.pop⟩)
  | none => .error .stackUnderflow

/-- Removes the top `count` words. -/
def dropTop (s : Stack) (count : Nat) : Except FaultKind Stack :=
  if count ≤ s.size then .ok ⟨s.slots.shrink (s.size - count)⟩ else .error .stackUnderflow

def top (s : Stack) : Except FaultKind Word :=
  match s.slots.back? with
  | some w => .ok w
  | none => .error .stackUnderflow

/-- The top `count` words, the lowest first. -/
def topN (s : Stack) (count : Nat) : Except FaultKind (List Word) :=
  if count ≤ s.size then .ok (s.slots.extract (s.size - count) s.size).toList
  else .error .stackUnderflow

/-- Puts words, the lowest first, in the place of as many top words. -/
def replaceTop (s : Stack) (words : List Word) : Except FaultKind Stack :=
  if words.length ≤ s.size then .ok ⟨s.slots.shrink (s.size - words.length) ++ words⟩
  else .error .stackUnderflow

/-- The word `depth` places beneath the top. -/
def peek (s : Stack) (depth : Nat) : Except FaultKind Word :=
  if h : depth < s.slots.size then
    have : s.slots.size - depth - 1 < s.slots.size := by omega
    .ok s.slots[s.slots.size - depth - 1]
  else .error .stackUnderflow

/-- The word at an index from the bottom. -/
def get (s : Stack) (index : Int) : Except FaultKind Word := Slots.get .stack s.slots index

/-- Replaces the word at an index from the bottom. -/
def set (s : Stack) (index : Int) (w : Word) : Except FaultKind Stack :=
  (Slots.set .stack s.slots index w).map .mk

/-- Inserts copies of the top `count` words beneath the top `count + 1` words. -/
def dupDown (s : Stack) (count : Nat) : Except FaultKind Stack :=
  if count + 1 ≤ s.size then
    let base := s.size - (count + 1)
    let copies := s.slots.extract (s.size - count) s.size
    .ok ⟨s.slots.extract 0 base ++ copies ++ s.slots.extract base s.size⟩
  else .error .stackUnderflow

/-- Copies the top `count` words over the bottom ones. The slots above them keep their words. -/
def returnToBottom (s : Stack) (count : Nat) : Except FaultKind Stack :=
  if count ≤ s.size then
    .ok ⟨s.slots.extract (s.size - count) s.size ++ s.slots.extract count s.size⟩
  else .error .stackUnderflow

end Stack

end ShaderMachine
