import ShaderMachine.Instruction.Decode
import ShaderMachine.Memory.Globals
import ShaderMachine.Memory.Stack

/-!
# Functions and their layout

A function is a body of bytes with what the machine has to know to set up its frame: the widths of
its parameters, the number of its locals, and the layout of the global slots that it shares with the
other functions of its program.
-/

namespace ShaderMachine

/-- A formal parameter of so many slots. The slots of an `out` parameter are copied back to the
caller. -/
structure Parameter where
  width : UInt8
  out : Bool
deriving DecidableEq, Repr

/-- The global slots of a program. `inputSlots` are the slots that the caller fills before a run, in
the order in which it supplies the inputs. -/
structure GlobalLayout where
  globalCount : Nat
  inputSlots : List UInt64
deriving DecidableEq, Repr

structure Function where
  name : String
  parameters : List Parameter
  localCount : Nat
  code : Code
  layout : GlobalLayout
deriving DecidableEq, Repr

/-- The slots that all parameters occupy together. -/
def Function.parameterSlots (f : Function) : Nat :=
  f.parameters.foldl (fun slots p => slots + p.width.toNat) 0

/-- What a caller supplies: the words of the parameters and of the inputs. There may be more
argument words than parameters take. -/
structure Invocation where
  args : Array Word
  inputs : Array Word
deriving DecidableEq, Repr

end ShaderMachine
