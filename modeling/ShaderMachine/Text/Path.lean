/-!
# Paths

A path is a text in which `/` separates components. Empty components and `.` do not count at its
end, so `a.json/` and `a.json/.` have the file name of `a.json`; a path that ends in `..`, that is
`.` alone, or that has no components has no file name.
-/

namespace ShaderMachine.Text

structure Path where
  chars : List Char
deriving DecidableEq, Repr

namespace Path

def ofString (s : String) : Path := ⟨s.toList⟩

/-- The path as it was written. -/
def text (p : Path) : String := String.ofList p.chars

/-- Removes separators and `.` components from the end of a path, which is given from its end. -/
def dropEmptyTail : List Char → List Char
  | '/' :: cs => dropEmptyTail cs
  | '.' :: '/' :: cs => dropEmptyTail cs
  | cs => cs

/-- The name and what is in front of it, both from their ends. -/
def split? (p : Path) : Option (List Char × List Char) :=
  let cs := dropEmptyTail p.chars.reverse
  match cs.takeWhile (· != '/'), cs.dropWhile (· != '/') with
  | [], _ | ['.'], _ | ['.', '.'], _ => none
  | name, rest => some (name, rest)

/-- The name that the path ends in. -/
def fileName? (p : Path) : Option (List Char) := p.split?.map fun (name, _) => name.reverse

/-- Divides a name, given from its end, at its last dot into extension and stem. A dot at the very
start of a name does not begin an extension. -/
def splitName (name : List Char) : Option (List Char) × List Char :=
  match name.dropWhile (· != '.') with
  | [] | ['.'] => (none, name)
  | _ :: stem => (some (name.takeWhile (· != '.')), stem)

/-- What stands behind the last dot of the file name. -/
def extension? (p : Path) : Option (List Char) := do
  let (name, _) ← p.split?
  return (← (splitName name).1).reverse

/-- The path up to its extension, including the dot. -/
def withoutExtension (p : Path) : Path :=
  match p.extension? with
  | some extension => ⟨p.chars.take (p.chars.length - extension.length)⟩
  | none => p

/-- The path with its extension replaced, or with one added. When nothing but `..` is left of the
name in front of its extension, there is no name to extend. -/
def withExtension (p : Path) (extension : List Char) : Path :=
  match p.withoutExtension.split? with
  | some (name, rest) => ⟨((splitName name).2 ++ rest).reverse ++ '.' :: extension⟩
  | none => p.withoutExtension

/-- Whether one of the components leads to the directory above. -/
def leadsUp (p : Path) : Bool := (p.chars.splitOn '/').contains ['.', '.']

end Path

end ShaderMachine.Text
