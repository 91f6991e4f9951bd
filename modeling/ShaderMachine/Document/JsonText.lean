import ShaderMachine.Numeral

/-!
# Writing JSON

Values as JSON text, compact or with one item on a line. Strings keep all characters but quotes,
backslashes and control characters; the latter have letters where JSON knows one and are written by
number otherwise.
-/

namespace ShaderMachine.Document

/-- A value to be written. Records keep the order of their entries. -/
inductive JsonText where
  /-- A number or a name, which is written as it stands. -/
  | token (cs : List Char)
  | string (s : String)
  | list (items : List JsonText)
  | record (entries : List (String × JsonText))

namespace JsonText

/-- The text of one character inside a string. -/
def escape (c : Char) : List Char :=
  if c = '"' then ['\\', '"']
  else if c = '\\' then ['\\', '\\']
  else if c = '\x08' then ['\\', 'b']
  else if c = '\x0c' then ['\\', 'f']
  else if c = '\n' then ['\\', 'n']
  else if c = '\r' then ['\\', 'r']
  else if c = '\t' then ['\\', 't']
  else if c.toNat < 0x20 then '\\' :: 'u' :: Numeral.hex 4 c.toNat
  else [c]

/-- A string with its quotes. -/
def quote (s : String) : List Char := '"' :: (s.toList.flatMap escape ++ ['"'])

/-- A natural number. -/
def nat (n : Nat) : JsonText := token (Numeral.decimal n)

/-- A truth value. -/
def bool (b : Bool) : JsonText :=
  token (if b then ['t', 'r', 'u', 'e'] else ['f', 'a', 'l', 's', 'e'])

mutual

/-- The value without any blanks. -/
def compact : JsonText → List Char
  | token cs => cs
  | string s => quote s
  | list [] => ['[', ']']
  | list (item :: items) => '[' :: (compact item ++ compactItems items)
  | record [] => ['\x7b', '\x7d']
  | record ((key, item) :: entries) =>
    '\x7b' :: (quote key ++ ':' :: (compact item ++ compactEntries entries))

/-- The items behind the first one, and the closing bracket. -/
def compactItems : List JsonText → List Char
  | [] => [']']
  | item :: items => ',' :: (compact item ++ compactItems items)

/-- The entries behind the first one, and the closing brace. -/
def compactEntries : List (String × JsonText) → List Char
  | [] => ['\x7d']
  | (key, item) :: entries =>
    ',' :: (quote key ++ ':' :: (compact item ++ compactEntries entries))

end

/-- A line break and the blanks of a nesting depth. -/
def newline (depth : Nat) : List Char := '\n' :: List.replicate (2 * depth) ' '

mutual

/-- The value with one item on a line, indented by two blanks for each level. -/
def pretty (depth : Nat) : JsonText → List Char
  | token cs => cs
  | string s => quote s
  | list [] => ['[', ']']
  | list (item :: items) =>
    '[' :: (newline (depth + 1) ++ (pretty (depth + 1) item ++ prettyItems depth items))
  | record [] => ['\x7b', '\x7d']
  | record ((key, item) :: entries) =>
    '\x7b' :: (newline (depth + 1) ++
      (quote key ++ ':' :: ' ' :: (pretty (depth + 1) item ++ prettyEntries depth entries)))

/-- The items behind the first one, and the closing bracket. -/
def prettyItems (depth : Nat) : List JsonText → List Char
  | [] => newline depth ++ [']']
  | item :: items =>
    ',' :: (newline (depth + 1) ++ (pretty (depth + 1) item ++ prettyItems depth items))

/-- The entries behind the first one, and the closing brace. -/
def prettyEntries (depth : Nat) : List (String × JsonText) → List Char
  | [] => newline depth ++ ['\x7d']
  | (key, item) :: entries =>
    ',' :: (newline (depth + 1) ++
      (quote key ++ ':' :: ' ' :: (pretty (depth + 1) item ++ prettyEntries depth entries)))

end

end JsonText

end ShaderMachine.Document
