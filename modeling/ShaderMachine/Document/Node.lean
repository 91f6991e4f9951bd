/-!
# Documents

Manifests come in several formats. Each is read into the same tree of records, lists and scalars;
a scalar says as what it may be read in its format. What a manifest means is then defined once, on
the tree.
-/

namespace ShaderMachine.Document

/-- A value without parts. Each field is a way to read it, if there is one. -/
structure Scalar where
  text : Option String := none
  integer : Option Int := none
  flag : Option Bool := none
  /-- Whether it stands for an absent optional value. -/
  isNull : Bool := false
  /-- Whether it stands for an empty list or an empty record. -/
  isBlank : Bool := false
deriving DecidableEq, Repr, Inhabited

/-- A document or a part of one. The key of a record entry is absent when it cannot be read as
text. -/
inductive Node where
  | scalar (s : Scalar)
  | list (items : List Node)
  | record (entries : List (Option String × Node))
deriving Inhabited, Repr

namespace Node

/-- The value of one field of a record. A field may be absent, but not given twice. -/
def lookup? (entries : List (Option String × Node)) (name : String) : Option (Option Node) :=
  match entries.filter fun (key, _) => key == some name with
  | [] => some none
  | [(_, value)] => some (some value)
  | _ => none

/-- The values of the named fields, in the order of the names. A record may have other entries. A
list gives its items to the fields in order, and must not have more of them. -/
def fields? (names : List String) : Node → Option (List (Option Node))
  | scalar s => if s.isBlank then some (names.map fun _ => none) else none
  | list items =>
    if items.length ≤ names.length then
      some (items.map some ++ List.replicate (names.length - items.length) none)
    else none
  | record entries =>
    if entries.any fun (key, _) => key.isNone then none else names.mapM (lookup? entries)

/-- The items of a list. -/
def items? : Node → Option (List Node)
  | list items => some items
  | scalar s => if s.isBlank then some [] else none
  | record _ => none

def text? : Node → Option String
  | scalar s => s.text
  | _ => none

def flag? : Node → Option Bool
  | scalar s => s.flag
  | _ => none

/-- The natural number of an integer that is less than the bound. -/
def natBelow? (bound : Nat) : Node → Option Nat
  | scalar s =>
    match s.integer with
    | some (.ofNat n) => if n < bound then some n else none
    | _ => none
  | _ => none

def byte? (n : Node) : Option UInt8 := (n.natBelow? UInt8.size).map UInt8.ofNat

def word64? (n : Node) : Option UInt64 := (n.natBelow? UInt64.size).map UInt64.ofNat

/-- An optional value, which is absent when it stands for nothing. -/
def optional? {α : Type} (read : Node → Option α) (n : Node) : Option (Option α) :=
  match n with
  | scalar s => if s.isNull then some none else (read n).map some
  | _ => (read n).map some

/-- A list all of whose items can be read. -/
def listOf? {α : Type} (read : Node → Option α) (n : Node) : Option (List α) := do
  (← n.items?).mapM read

/-- A field that has a value when it is not given. -/
def withDefault? {α : Type} (default : α) (read : Node → Option α) : Option Node → Option α
  | none => some default
  | some n => read n

end Node

end ShaderMachine.Document
