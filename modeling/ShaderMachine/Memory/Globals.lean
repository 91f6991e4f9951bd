import ShaderMachine.Memory.Slots

/-!
# The global table

Each invocation has a table of global slots. Its size is fixed when the invocation starts.
-/

namespace ShaderMachine

structure Globals where
  slots : Array Word := #[]
deriving DecidableEq, Repr, Inhabited

namespace Globals

/-- The number of slots. -/
def size (g : Globals) : Nat := g.slots.size

/-- The words in the order of their indices. -/
def toList (g : Globals) : List Word := g.slots.toList

/-- A table of `count` slots that all hold the same word. -/
def filled (count : Nat) (w : Word) : Globals := ⟨.replicate count w⟩

def get (g : Globals) (index : Int) : Except FaultKind Word := Slots.get .globals g.slots index

def set (g : Globals) (index : Int) (w : Word) : Except FaultKind Globals :=
  (Slots.set .globals g.slots index w).map .mk

end Globals

end ShaderMachine
