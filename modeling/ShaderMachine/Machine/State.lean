import ShaderMachine.Event
import ShaderMachine.Memory.Globals
import ShaderMachine.Memory.Stack

/-!
# The state of a running body

`State` is what instructions work on. `Exec` is a computation on it that may fault; a fault keeps
the state it was raised in, so what an instruction did before it faulted stays visible.
-/

namespace ShaderMachine

structure State where
  ip : Nat
  /-- The number of instructions begun so far. -/
  steps : Nat
  stack : Stack
  globals : Globals
  events : Array Event
deriving DecidableEq, Repr

abbrev Exec := EStateM FaultKind State

namespace Exec

/-- A computation that does not depend on the state. -/
@[inline] def ofExcept {α : Type} (r : Except FaultKind α) : Exec α := fun s =>
  match r with
  | .ok a => .ok a s
  | .error k => .error k s

/-- Looks at the stack. -/
@[inline] def readStack {α : Type} (f : Stack → Except FaultKind α) : Exec α := fun s =>
  match f s.stack with
  | .ok a => .ok a s
  | .error k => .error k s

/-- Changes the stack, or nothing at all if the change fails. -/
@[inline] def changeStack (f : Stack → Except FaultKind Stack) : Exec Unit := fun s =>
  match f s.stack with
  | .ok stack => .ok () { s with stack := stack }
  | .error k => .error k s

@[inline] def push (w : Word) : Exec Unit := fun s =>
  .ok () { s with stack := s.stack.push w }

@[inline] def pop : Exec Word := fun s =>
  match s.stack.pop with
  | .ok (w, stack) => .ok w { s with stack := stack }
  | .error k => .error k s

/-- Takes the top `count` words, one after the other; the lowest comes first in the result. -/
def popMany : Nat → Exec (List Word)
  | 0 => return []
  | count + 1 => do
    let w ← pop
    let below ← popMany count
    return below ++ [w]

/-- The word at an index from the bottom of the stack. -/
def load (index : Int) : Exec Word := readStack (·.get index)

/-- Replaces the word at an index from the bottom of the stack. -/
def store (index : Int) (w : Word) : Exec Unit := changeStack (·.set index w)

def loadGlobal (index : Int) : Exec Word := fun s =>
  match s.globals.get index with
  | .ok w => .ok w s
  | .error k => .error k s

def storeGlobal (index : Int) (w : Word) : Exec Unit := fun s =>
  match s.globals.set index w with
  | .ok globals => .ok () { s with globals := globals }
  | .error k => .error k s

/-- Continues at an absolute offset. One beyond the body faults when the next fetch happens. -/
def jump (target : UInt16) : Exec Unit := fun s => .ok () { s with ip := target.toNat }

def record (event : Event) : Exec Unit := fun s =>
  .ok () { s with events := s.events.push event }

end Exec

end ShaderMachine
