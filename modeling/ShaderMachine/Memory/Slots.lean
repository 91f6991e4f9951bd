import ShaderMachine.Fault
import ShaderMachine.Word

/-!
# Slots addressed by computed indices

Indices stand in instructions or are computed by a body, so they are integers of any sign. An index
that is not the position of a slot is a fault that names the storage, the index and the size.
-/

namespace ShaderMachine.Slots

/-- Whether an index is the position of a slot. -/
abbrev InBounds (slots : Array Word) (index : Int) : Prop :=
  0 ≤ index ∧ index.toNat < slots.size

/-- The word at an index. -/
def get (space : Space) (slots : Array Word) (index : Int) : Except FaultKind Word :=
  if h : InBounds slots index then .ok slots[index.toNat]
  else .error (.outOfBounds space index slots.size)

/-- The slots with the word at an index replaced. -/
def set (space : Space) (slots : Array Word) (index : Int) (w : Word) :
    Except FaultKind (Array Word) :=
  if h : InBounds slots index then .ok (slots.set index.toNat w h.2)
  else .error (.outOfBounds space index slots.size)

end ShaderMachine.Slots
