import ShaderMachine.Numeral

/-!
# Failures

A failure of a command is told by what could not be done and the causes behind it. Its report names
the causes below a heading, numbered if there are several.
-/

namespace ShaderMachine.CommandLine

structure Failure where
  message : String
  causes : List String := []
deriving DecidableEq, Repr

/-- A text behind a mark; the lines behind the first one are indented by as much. -/
def indented (mark : String) (text : String) : String :=
  let margin := String.ofList (List.replicate mark.length ' ')
  let lines := (text.toList.splitOn '\n').map String.ofList
  mark ++ ("\n" ++ margin).intercalate lines

/-- The mark in front of a numbered cause, whose number is set to the right of five columns. -/
def causeMark (n : Nat) : String :=
  let number := Numeral.natText n
  String.ofList (List.replicate (5 - number.length) ' ') ++ number ++ ": "

/-- The causes, one below the other, the first of which has the given number. -/
def numbered (n : Nat) : List String → String
  | [] => ""
  | cause :: rest => "\n" ++ indented (causeMark n) cause ++ numbered (n + 1) rest

/-- The report of a failure. -/
def Failure.report (f : Failure) : String :=
  let causes := match f.causes with
    | [] => ""
    | [cause] => "\n\nCaused by:\n" ++ indented "    " cause
    | causes => "\n\nCaused by:" ++ numbered 0 causes
  "Error: " ++ f.message ++ causes ++ "\n"

end ShaderMachine.CommandLine
