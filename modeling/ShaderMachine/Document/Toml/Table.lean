import ShaderMachine.Document.Node

/-!
# TOML tables

A TOML document is a sequence of sections. A section opens a table by its path and assigns values
to paths within it. Tables can be opened in any order, but only once, and what has been given a
value cannot be extended. `Section.document?` puts the sections together.
-/

namespace ShaderMachine.Document.Toml

/-- How a table came into being. -/
inductive Origin where
  /-- A section of its own opened it. -/
  | header
  /-- It is part of the path of another section. -/
  | implied
  /-- It is part of the path of an assignment. -/
  | dotted
deriving DecidableEq, Repr

/-- What a key has in a table under construction. -/
inductive Entry where
  | value (n : Node)
  | table (origin : Origin) (entries : List (String × Entry))
  /-- The tables of sections that share one path. -/
  | tables (items : List (List (String × Entry)))
deriving Inhabited

abbrev Table := List (String × Entry)

/-- A key and the keys behind it. -/
structure KeyPath where
  first : String
  rest : List String
deriving DecidableEq, Repr

/-- Replaces what a key has, or adds the key. -/
def Table.change (key : String) (f : Option Entry → Option Entry) : Table → Option Table
  | [] => (f none).map fun e => [(key, e)]
  | (k, e) :: rest =>
    if k = key then (f (some e)).map fun e => (k, e) :: rest
    else (change key f rest).map fun rest => (k, e) :: rest

/-- Assigns a value to a path. The tables on the way may be new; those that a section opened are
closed to assignments, and the last one must belong to assignments only. -/
def Table.assign (value : Node) (first : String) : List String → Table → Option Table
  | [], table => table.change first fun
    | none => some (.value value)
    | some _ => none
  | next :: rest, table => table.change first fun
    | none => (assign value next rest []).map (.table .dotted)
    | some (.table origin entries) =>
      if origin = .dotted ∨ (origin = .implied ∧ rest ≠ []) then
        (assign value next rest entries).map (.table origin)
      else none
    | some _ => none

/-- Assigns values to paths, in order. -/
def Table.assignAll (table : Table) : List (KeyPath × Node) → Option Table
  | [] => some table
  | (path, value) :: rest => do
    let table ← table.assign value path.first path.rest
    table.assignAll rest

/-- The last item of a list replaced. -/
def changeLast {α : Type} (f : α → Option α) : List α → Option (List α)
  | [] => none
  | [a] => (f a).map fun a => [a]
  | a :: rest => (changeLast f rest).map (a :: ·)

/-- Changes what a path has. Of tables that share a path the last one is meant. -/
def Table.reach (f : Option Entry → Option Entry) (first : String) :
    List String → Table → Option Table
  | [], table => table.change first f
  | next :: rest, table => table.change first fun
    | none => (reach f next rest []).map (.table .implied)
    | some (.table origin entries) => (reach f next rest entries).map (.table origin)
    | some (.tables items) => (changeLast (reach f next rest) items).map .tables
    | some (.value _) => none

/-- A part of a document. -/
structure Section where
  path : KeyPath
  /-- Whether it adds a table to those that share the path. -/
  isItem : Bool
  assignments : List (KeyPath × Node)

/-- What the path of a section has after the section. -/
def Section.entry? (s : Section) (before : Option Entry) : Option Entry :=
  if s.isItem then do
    let table ← Table.assignAll [] s.assignments
    match before with
    | none => some (.tables [table])
    | some (.tables items) => some (.tables (items ++ [table]))
    | some _ => none
  else
    match before with
    | none => (Table.assignAll [] s.assignments).map (.table .header)
    | some (.table .implied entries) =>
      (Table.assignAll entries s.assignments).map (.table .header)
    | some _ => none

/-- The table after a section. -/
def Section.open? (s : Section) (table : Table) : Option Table :=
  table.reach s.entry? s.path.first s.path.rest

mutual

/-- The value of an entry. -/
def Entry.node : Entry → Node
  | .value n => n
  | .table _ entries => .record (entryNodes entries)
  | .tables items => .list (tableNodes items)

/-- The values of the entries of a table. -/
def entryNodes : List (String × Entry) → List (Option String × Node)
  | [] => []
  | (key, e) :: rest => (some key, e.node) :: entryNodes rest

/-- The values of tables. -/
def tableNodes : List (List (String × Entry)) → List Node
  | [] => []
  | entries :: rest => .record (entryNodes entries) :: tableNodes rest

end

/-- The record of a table. -/
def Table.node (table : Table) : Node := .record (entryNodes table)

/-- The document with the given assignments in front of all sections. -/
def document? (assignments : List (KeyPath × Node)) (sections : List Section) : Option Node := do
  let table ← Table.assignAll [] assignments
  let table ← sections.foldlM (fun table s => s.open? table) table
  return table.node

end ShaderMachine.Document.Toml
