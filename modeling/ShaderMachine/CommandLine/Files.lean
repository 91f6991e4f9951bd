import ShaderMachine.Numeral
import ShaderMachine.Text.Path

/-!
# Files

Commands read and write whole files through `Files`, in any monad that offers the two operations.
`Directory` is a directory in memory that offers them; paths lead from it downwards.
-/

namespace ShaderMachine.CommandLine

open Text (Path)

/-- Why a file cannot be read or written. -/
structure FileError where
  description : String
  code : Nat
deriving DecidableEq, Repr

namespace FileError

def message (e : FileError) : String :=
  e.description ++ " (os error " ++ Numeral.natText e.code ++ ")"

def notFound : FileError := ⟨"No such file or directory", 2⟩

def notADirectory : FileError := ⟨"Not a directory", 20⟩

def isADirectory : FileError := ⟨"Is a directory", 21⟩

end FileError

/-- Access to files. -/
structure Files (m : Type → Type) where
  read : Path → m (Except FileError ByteArray)
  write : Path → ByteArray → m (Except FileError Unit)

/-- A directory with the files in and beneath it, under the names that lead to them. -/
structure Directory where
  files : List (List String × ByteArray) := []

namespace Directory

/-- The names that a path goes through. -/
def names (p : Path) : List String :=
  (((p.chars.splitOn '/').filter fun name => !name.isEmpty && name != ['.']).map String.ofList)

/-- Whether a path can lead to directories only, whatever there is. -/
def wantsDirectory (p : Path) : Bool :=
  match (p.chars.splitOn '/').getLastD [] with
  | [] | ['.'] => true
  | _ => false

def file? (d : Directory) (names : List String) : Option ByteArray := d.files.lookup names

/-- Whether names lead to a directory: to this one, to one that holds a file, or out of it. -/
def isDirectory (d : Directory) (names : List String) : Bool :=
  names.isEmpty || names.contains ".." ||
    d.files.any fun (file, _) => names.isPrefixOf file && names.length < file.length

/-- Why nothing is found where names lead that are neither those of a file nor of a directory. -/
def absence (d : Directory) (names : List String) : FileError :=
  if d.files.any fun (file, _) => file.isPrefixOf names then .notADirectory else .notFound

/-- The directory that a path starts in: this one, or the root, which holds nothing here. -/
def base (d : Directory) (p : Path) : Directory := if p.chars.head? = some '/' then {} else d

def read (d : Directory) (p : Path) : Except FileError ByteArray :=
  let path := names p
  let d := d.base p
  if p.chars.isEmpty then .error .notFound
  else if d.isDirectory path then .error .isADirectory
  else
    match d.file? path with
    | some bytes => if wantsDirectory p then .error .notADirectory else .ok bytes
    | none => .error (d.absence path)

/-- The directory with a file added or replaced. -/
def put (d : Directory) (names : List String) (bytes : ByteArray) : Directory :=
  if (d.file? names).isSome then
    ⟨d.files.map fun (file, old) => (file, if file = names then bytes else old)⟩
  else ⟨d.files ++ [(names, bytes)]⟩

def write (d : Directory) (p : Path) (bytes : ByteArray) : Except FileError Directory :=
  let path := names p
  let around := d.base p
  if p.chars.isEmpty then .error .notFound
  else if !around.isDirectory path.dropLast then .error (around.absence path.dropLast)
  else if around.isDirectory path || wantsDirectory p then .error .isADirectory
  else if p.chars.head? = some '/' then .error ⟨"Permission denied", 13⟩
  else .ok (d.put path bytes)

/-- Access to the files of a directory in the state. -/
def access : Files (StateM Directory) where
  read p := return (← get).read p
  write p bytes := do
    match (← get).write p bytes with
    | .ok d =>
      set d
      return .ok ()
    | .error e => return .error e

end Directory

end ShaderMachine.CommandLine
