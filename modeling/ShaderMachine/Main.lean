import ShaderMachine.CommandLine.Execution

/-!
# The program

The command line with the files of the system and the standard streams.
-/

open ShaderMachine ShaderMachine.CommandLine

namespace ShaderMachine.CommandLine

/-- The reason that the system gives for a failed access. -/
def FileError.ofSystem : IO.Error → FileError
  | .alreadyExists _ code text | .otherError code text | .resourceBusy code text
  | .resourceVanished code text | .unsupportedOperation code text | .hardwareFault code text
  | .unsatisfiedConstraints code text | .illegalOperation code text | .protocolError code text
  | .timeExpired code text | .interrupted _ code text | .noFileOrDirectory _ code text
  | .invalidArgument _ code text | .permissionDenied _ code text | .resourceExhausted _ code text
  | .inappropriateType _ code text | .noSuchThing _ code text => ⟨text, code.toNat⟩
  | .unexpectedEof => ⟨"Unexpected end of file", 5⟩
  | .userError text => ⟨text, 5⟩

/-- An access that reports its failure. -/
def attempt {α : Type} (access : IO α) : IO (Except FileError α) := do
  match ← access.toBaseIO with
  | .ok a => return .ok a
  | .error e => return .error (.ofSystem e)

/-- Access to the files of the system. -/
def systemFiles : Files IO where
  read p := attempt (IO.FS.readBinFile p.text)
  write p bytes := attempt (IO.FS.writeBinFile p.text bytes)

end ShaderMachine.CommandLine

def main (arguments : List String) : IO UInt32 := do
  let budget ← IO.getEnv Event.budgetVariable
  let surroundings : Surroundings IO := ⟨systemFiles, budget, 0x4000000000000000⟩
  match ← execute surroundings arguments with
  | some completion =>
    (← IO.getStdout).putStr completion.output
    (← IO.getStderr).putStr completion.messages
    return completion.status.toUInt32
  | none =>
    (← IO.getStderr).putStr "The run did not end.\n"
    return 1
