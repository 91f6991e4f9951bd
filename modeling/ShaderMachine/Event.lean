import ShaderMachine.Fault
import ShaderMachine.Word

/-!
# Events

What the library tells an observer while it works. An event has a level, the part of the library it
comes from, and a message; its own data are the arguments of its constructor.
-/

namespace ShaderMachine

inductive Level where
  | trace | debug | info | warn
deriving DecidableEq, Repr

def Level.name : Level → String
  | trace => "TRACE"
  | debug => "DEBUG"
  | info => "INFO"
  | warn => "WARN"

inductive Event where
  | invocationStart (function : String) (params locals globals : Nat)
  /-- The listing of the body that is about to run. -/
  | body (function listing : String)
  | debugPrint (value : Word)
  /-- An instruction has been executed and has left this stack. -/
  | step (ip : Nat) (op : Opcode) (stack : List Word)
  | invocationFinished (function : String) (results steps : Nat)
  | invocationFaulted (function : String) (fault : Fault) (steps : Nat)
  | runningBatch (function : String) (invocations workers : Nat)
  | ignoredBudget (value : String) (error : Numeral.Error)
deriving DecidableEq, Repr

namespace Event

def level : Event → Level
  | body .. | step .. => .trace
  | invocationStart .. | invocationFinished .. | invocationFaulted .. | runningBatch .. => .debug
  | debugPrint .. => .info
  | ignoredBudget .. => .warn

def target : Event → String
  | debugPrint .. => "shadevm::debug_print"
  | runningBatch .. => "shadevm::batch"
  | _ => "shadevm::interp"

/-- The environment variable that holds the default budget. -/
def budgetVariable : String := "SHADEVM_MAX_STEPS"

def message : Event → String
  | invocationStart .. => "invocation start"
  | body _ listing => "\n" ++ listing
  | debugPrint .. => "debug print"
  | step .. => "step"
  | invocationFinished .. => "invocation finished"
  | invocationFaulted .. => "invocation faulted"
  | runningBatch .. => "running batch"
  | ignoredBudget .. => "ignoring invalid " ++ budgetVariable

end Event

end ShaderMachine
