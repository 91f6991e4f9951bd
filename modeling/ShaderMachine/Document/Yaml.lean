import ShaderMachine.Document.Yaml.Scalar

/-!
# Reading YAML

The grammar of nodes. In block style the column of a collection's first entry is the column of all
its entries, and whatever belongs to an entry is indented further; only the items of a list that is
the value of a key may stand in the column of the key. In flow style, between brackets, indentation
does not matter. Nodes can be given a name and be repeated by it; tags are passed over.

A text holds exactly one document. Fuel bounds the number of nested or consecutive nodes, and the
length of the input is always enough of it.
-/

namespace ShaderMachine.Document.Yaml

/-- The place that reading has got to, and the nodes that have a name. -/
structure State where
  place : Cursor
  anchors : List (String × Node) := []

/-- A read that may fail. -/
abbrev Scan := StateT State Option

namespace Scan

def here : Scan Cursor := return (← get).place

def moveTo (place : Cursor) : Scan Unit := modify fun s => { s with place := place }

/-- Passes over so many characters of the line. -/
def advance (count : Nat) : Scan Unit := do moveTo ((← here).advance count)

/-- Passes over blanks, line breaks and comments. -/
def skip (inBrackets tabs : Bool) : Scan Unit := do moveTo ((← here).skip inBrackets tabs)

/-- Reads the text of a scalar. -/
def text (f : Cursor → Option (List Char × Cursor)) : Scan (List Char) := do
  let (text, place) ← liftM (f (← here))
  moveTo place
  return text

/-! ## Names and tags -/

def isNameChar (c : Char) : Bool := c.isAlphanum || c == '_' || c == '-'

/-- The characters that may follow a name besides blanks. -/
def endsName (c : Char) : Bool :=
  isBlank c || c == '?' || c == ':' || c == ',' || c == ']' || c == '\x7d' || c == '%' ||
    c == '@' || c == '\x60'

/-- A name behind the mark that announces it. -/
def name : Scan String := do
  advance 1
  let c ← here
  let name := c.rest.takeWhile isNameChar
  let rest := c.rest.drop name.length
  if name.isEmpty || !(rest.head?.all endsName) then failure
  moveTo (c.upTo rest)
  return String.ofList name

def isTagChar (c : Char) : Bool :=
  c.isAlphanum || "-_;/?:@&=+$.~*'()#%".toList.contains c

/-- Passes over a tag. Only the two handles that need no declaration can be used. -/
def tag : Scan Unit := do
  advance 1
  let c ← here
  let rest := match c.rest with
    | '<' :: rest => (rest.dropWhile (· != '>')).drop 1
    | '!' :: rest => rest.dropWhile isTagChar
    | rest => rest.dropWhile isTagChar
  if !(rest.head?.all fun c => isBlank c || c == ',') then failure
  moveTo (c.upTo rest)

/-- The name that a node is given, if it is given one, behind which its tag is passed over. Either
may come first. -/
def properties (inBrackets : Bool) : Scan (Option String) := do
  match (← here).rest with
  | '&' :: _ =>
    let anchor ← name
    skip inBrackets true
    match (← here).rest with
    | '!' :: _ =>
      tag
      skip inBrackets true
    | _ => pure ()
    return some anchor
  | '!' :: _ =>
    tag
    skip inBrackets true
    match (← here).rest with
    | '&' :: _ =>
      let anchor ← name
      skip inBrackets true
      return some anchor
    | _ => return none
  | _ => return none

/-- Gives a node its name. -/
def register (anchor : Option String) (n : Node) : Scan Node := do
  match anchor with
  | some name => modify fun s => { s with anchors := (name, n) :: s.anchors }
  | none => pure ()
  return n

/-- The node of a name. -/
def namedNode : Scan Node := do
  let name ← name
  liftM ((← get).anchors.lookup name)

/-- A scalar in quotes. -/
def quotedNode (double : Bool) : Scan Node := do
  advance 1
  return .scalar (textScalar (← text (quoted? double)))

/-! ## Flow style -/

/-- Whether a comma or a closing bracket comes next. -/
def atItemEnd (c : Cursor) : Bool :=
  match c.rest with
  | mark :: _ => mark == ',' || mark == ']' || mark == '\x7d'
  | [] => false

mutual

/-- A node without properties that is not in block style. -/
def plainNode (fuel : Nat) (inBrackets : Bool) (indent : Nat) : Scan Node :=
  match fuel with
  | 0 => failure
  | fuel + 1 => do
    let c ← here
    if c.atMarker then failure
    match c.rest with
    | '*' :: _ => namedNode
    | '"' :: _ => quotedNode true
    | '\'' :: _ => quotedNode false
    | '[' :: _ =>
      advance 1
      skip true true
      return .list (← flowItems fuel indent)
    | '\x7b' :: _ =>
      advance 1
      skip true true
      return .record (← flowEntries fuel indent)
    | rest =>
      if startsPlain inBrackets rest then
        return .scalar (plainScalar (← text (plain? inBrackets indent)))
      else failure

/-- A node between brackets, which may consist of properties only. -/
def flowNode (fuel : Nat) (indent : Nat) : Scan Node :=
  match fuel with
  | 0 => failure
  | fuel + 1 => do
    let start ← here
    let anchor ← properties true
    let c ← here
    if atItemEnd c && start != c then register anchor blankNode
    else register anchor (← plainNode fuel true indent)

/-- What stands behind a key between brackets, if there is a colon on the line of the key. -/
def flowValue (fuel : Nat) (indent : Nat) (key : Cursor) : Scan (Option Node) :=
  match fuel with
  | 0 => failure
  | fuel + 1 => do
    let c ← here
    if c.rest.head? == some ':' && c.sameLine key then
      advance 1
      skip true true
      if atItemEnd (← here) then return some blankNode
      let value ← flowNode fuel indent
      skip true true
      return some value
    else return none

/-- The items of a list up to its closing bracket. A key and a value make an item by themselves. -/
def flowItems (fuel : Nat) (indent : Nat) : Scan (List Node) :=
  match fuel with
  | 0 => failure
  | fuel + 1 => do
    let start ← here
    if start.rest.head? == some ']' then
      advance 1
      return []
    let node ← flowNode fuel indent
    skip true true
    let item := match ← flowValue fuel indent start with
      | some value => .record [(node.text?, value)]
      | none => node
    match (← here).rest with
    | ',' :: _ =>
      advance 1
      skip true true
      return item :: (← flowItems fuel indent)
    | ']' :: _ =>
      advance 1
      return [item]
    | _ => failure

/-- The entries of a record up to its closing brace. -/
def flowEntries (fuel : Nat) (indent : Nat) : Scan (List (Option String × Node)) :=
  match fuel with
  | 0 => failure
  | fuel + 1 => do
    let start ← here
    if start.rest.head? == some '\x7d' then
      advance 1
      return []
    let key ← flowNode fuel indent
    skip true true
    let entry := (key.text?, (← flowValue fuel indent start).getD blankNode)
    match (← here).rest with
    | ',' :: _ =>
      advance 1
      skip true true
      return entry :: (← flowEntries fuel indent)
    | '\x7d' :: _ =>
      advance 1
      return [entry]
    | _ => failure

end

/-! ## Block style -/

/-- Whether the mark stands here as a word by itself. -/
def atMark (mark : Char) (c : Cursor) : Bool :=
  match c.rest with
  | d :: rest => d == mark && wordEnds rest
  | [] => false

/-- Passes over the colon behind a key, if there is one on the line of the key. -/
def colonBehind (key : Cursor) : Scan Bool := do
  let c ← here
  let blanks := c.rest.takeWhile isBlank
  let c := c.advance blanks.length
  if atMark ':' c && c.sameLine key then
    moveTo (c.advance 1)
    return true
  else return false

mutual

/-- What an indicator announces. Without the permission `compact` it cannot be a collection in block
style on the same line; `flush` items may be indented one blank less than other nodes. -/
def announced (fuel : Nat) (indent : Nat) (compact flush : Bool) : Scan Node :=
  match fuel with
  | 0 => failure
  | fuel + 1 => do
    let start ← here
    skip false (!compact)
    blockNode fuel indent (compact || !(← here).sameLine start) flush

/-- A node in a block that is indented by at least `indent` blanks. -/
def blockNode (fuel : Nat) (indent : Nat) (collections flush : Bool) : Scan Node :=
  match fuel with
  | 0 => failure
  | fuel + 1 => do
    let c ← here
    if c.atEnd || c.atMarker then return blankNode
    if c.column < indent then
      if flush && c.column + 1 == indent && atMark '-' c then
        return .list (← blockItems fuel c.column true)
      else return blankNode
    if atMark '-' c then
      if collections then return .list (← blockItems fuel c.column false) else failure
    if atMark '?' c then
      if collections then return .record (← blockEntries fuel c.column) else failure
    let anchor ← properties false
    if !(← here).sameLine c then
      register anchor (← blockNode fuel indent true flush)
    else
      match (← here).rest with
      | '|' :: _ =>
        advance 1
        register anchor (.scalar (textScalar (← text (block? true indent))))
      | '>' :: _ =>
        advance 1
        register anchor (.scalar (textScalar (← text (block? false indent))))
      | _ =>
        let node ← plainNode fuel false indent
        let node ← register anchor node
        if collections then
          if ← colonBehind c then
            let value ← announced fuel (c.column + 1) false true
            let entries ← blockEntries fuel c.column
            return .record ((node.text?, value) :: entries)
        return node

/-- The items of a list whose marks stand in a column. A `flush` list ends where another node begins
in its column. -/
def blockItems (fuel : Nat) (column : Nat) (flush : Bool) : Scan (List Node) :=
  match fuel with
  | 0 => failure
  | fuel + 1 => do
    skip false true
    let c ← here
    if c.atEnd || c.atMarker || decide (c.column < column) then return []
    if c.column != column then failure
    if atMark '-' c then
      advance 1
      let item ← announced fuel (column + 1) true false
      return item :: (← blockItems fuel column flush)
    else if flush then return []
    else failure

/-- The entries of a record whose keys stand in a column. -/
def blockEntries (fuel : Nat) (column : Nat) : Scan (List (Option String × Node)) :=
  match fuel with
  | 0 => failure
  | fuel + 1 => do
    skip false true
    let c ← here
    if c.atEnd || c.atMarker || decide (c.column < column) then return []
    if c.column != column then failure
    if atMark '?' c then
      advance 1
      let key ← announced fuel (column + 1) true true
      skip false true
      let d ← here
      let value ←
        if d.column == column && !d.atMarker && atMark ':' d then do
          advance 1
          announced fuel (column + 1) true true
        else pure blankNode
      return (key.text?, value) :: (← blockEntries fuel column)
    else
      let anchor ← properties false
      let key ← register anchor (← plainNode fuel false (column + 1))
      if ← colonBehind c then
        let value ← announced fuel (column + 1) false true
        return (key.text?, value) :: (← blockEntries fuel column)
      else failure

end

/-! ## Documents -/

/-- Passes over directives, and says whether there were any. -/
def directives : List (List Char) → Bool → Scan Bool
  | [], any => return any
  | _ :: lines, any => do
    skip false false
    let c ← here
    if c.column == 0 && c.rest.head? == some '%' then
      let words := (c.rest.splitOnP isBlank).filter fun word => !word.isEmpty
      match words.map String.ofList with
      | "%YAML" :: version :: comment =>
        if version != "1.1" && version != "1.2" then failure
        if !(comment.head?.all fun word => word.toList.head? == some '#') then failure
        advance c.rest.length
        directives lines true
      | _ => failure
    else return any

/-- Passes over marks that end a document. -/
def documentEnds (tabs : Bool) : List (List Char) → Scan Unit
  | [] => return
  | _ :: lines => do
    skip false tabs
    let c ← here
    if c.atMarker && c.rest.head? == some '.' then
      advance 3
      documentEnds true lines
    else return

/-- The only document of a text with the given lines. -/
def document (fuel : Nat) (lines : List (List Char)) : Scan Node := do
  documentEnds false lines
  let hasDirectives ← directives lines false
  skip false false
  let c ← here
  let node ←
    if c.atMarker && c.rest.head? == some '-' then do
      advance 3
      announced fuel 0 false false
    else if hasDirectives || c.atEnd then failure
    else blockNode fuel 0 true false
  documentEnds true lines
  skip false true
  if (← here).atEnd then return node else failure

end Scan

/-! ## Texts -/

/-- Whether a character may be part of a text at all. -/
def isAllowed (c : Char) : Bool :=
  let n := c.toNat
  n == 0x09 || n == 0x0A || n == 0x0D || (0x20 ≤ n && n ≤ 0x7E) || n == 0x85 ||
    (0xA0 ≤ n && n ≤ 0xFFFD) || 0x10000 ≤ n

/-- Line breaks as single characters. -/
def normalize : List Char → List Char
  | '\r' :: '\n' :: rest => '\n' :: normalize rest
  | '\r' :: rest => '\n' :: normalize rest
  | '\u0085' :: rest => '\n' :: normalize rest
  | c :: rest => c :: normalize rest
  | [] => []

/-- The node that a text describes. -/
def read? (text : String) : Option Node := do
  let cs := match text.toList with
    | '\ufeff' :: rest => rest
    | cs => cs
  if !cs.all isAllowed then failure
  let lines := (normalize cs).splitOn '\n'
  let start : State := match lines with
    | line :: below => { place := ⟨line, 0, below⟩ }
    | [] => { place := ⟨[], 0, []⟩ }
  let fuel := 4 * cs.length + 8
  let (node, _) ← (Scan.document fuel lines).run start
  return node

end ShaderMachine.Document.Yaml
