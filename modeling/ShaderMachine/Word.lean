/-!
# Words

Every slot of the machine, on the stack or in the global table, is a `Word`: 32 bits without a type
tag. The instruction that consumes a word decides whether it reads a signed or an unsigned integer,
a float or a truth value, so a word offers all these views of the same bits.
-/

namespace ShaderMachine

/-- One 32-bit slot. -/
structure Word where
  bits : UInt32
deriving DecidableEq, Inhabited, Repr

namespace Word

/-- The pattern that locals and globals hold before a body writes to them. -/
def uninitialized : Word := ⟨0xDEADBEEF⟩

/-- The word with the bits of a signed integer, in two's complement. -/
def ofSigned (i : Int32) : Word := ⟨i.toUInt32⟩

/-- The word with the bits of a float. A result that is not a number has the canonical bits that
`Float32.toBits` gives it, one of the patterns that the rules for floats leave open. -/
def ofFloat (x : Float32) : Word := ⟨x.toBits⟩

/-- A truth value is stored as one or zero. -/
def ofBool (b : Bool) : Word := if b then ⟨1⟩ else ⟨0⟩

/-- The bits read as a signed integer in two's complement. -/
def signed (w : Word) : Int32 := w.bits.toInt32

/-- The signed reading as an unbounded integer, which is how a word addresses a slot. -/
def toInt (w : Word) : Int := w.signed.toInt

/-- The bits read as a float. -/
def float (w : Word) : Float32 := .ofBits w.bits

/-- Any word but zero reads as true. -/
def truth (w : Word) : Bool := w.bits != 0

@[simp] theorem signed_ofSigned (i : Int32) : (ofSigned i).signed = i := by
  simp [ofSigned, signed]

@[simp] theorem ofSigned_signed (w : Word) : ofSigned w.signed = w := by
  simp [ofSigned, signed]

@[simp] theorem truth_ofBool (b : Bool) : (ofBool b).truth = b := by
  cases b <;> rfl

end Word

end ShaderMachine
