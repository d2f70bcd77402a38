import LocaleBundle.Value

/-!
# Writing JSON

A value is written on one line, or with one item per line and a fixed indent per
level. Only quotes, backslashes and characters below U+0020 are escaped. Doubles
have their shortest text, the infinities and NaN their words.

JSON has no decimals and no bytes: `unwritable?` names the type of the first
such value, and `encode` refuses it.
-/

namespace LocaleBundle.Json

/-- How the items of a collection are set apart: on one line, or on lines of
their own with so many spaces per level. -/
inductive Layout where
  | compact
  | indented (step : Nat)

/-- The start of a new line at a level; nothing on one line. -/
def Layout.lineBreak : Layout → Nat → List Char
  | .compact, _ => []
  | .indented step, level => '\n' :: List.replicate (step * level) ' '

/-- What stands between two items. -/
def Layout.between : Layout → Nat → List Char
  | .compact, _ => [',', ' ']
  | .indented step, level => ',' :: '\n' :: List.replicate (step * level) ' '

/-- A character inside a string. -/
def escape (c : Char) : List Char :=
  if c = '"' then ['\\', '"']
  else if c = '\\' then ['\\', '\\']
  else if c = '\n' then ['\\', 'n']
  else if c = '\r' then ['\\', 'r']
  else if c = '\t' then ['\\', 't']
  else if c = '\x08' then ['\\', 'b']
  else if c = '\x0c' then ['\\', 'f']
  else if c.toNat < 0x20 then '\\' :: 'u' :: Text.Numeral.hex 4 c.toNat
  else [c]

/-- A string with its quotes. -/
def writeText (s : String) : List Char := '"' :: s.toList.flatMap escape ++ ['"']

mutual

/-- A value at a level of nesting. -/
def write (layout : Layout) : Nat → Value → List Char
  | _, .null => "null".toList
  | _, .bool true => "true".toList
  | _, .bool false => "false".toList
  | _, .int n => Text.Numeral.ofInt n
  | _, .float x => DoubleText.json.render x
  | _, .decimal d => d.render
  | _, .text s => writeText s
  | _, .bytes b => (Text.quotedBytes b).toList
  | _, .list [] => ['[', ']']
  | level, .list (v :: items) =>
    '[' :: layout.lineBreak (level + 1) ++ write layout (level + 1) v
      ++ writeItems layout (level + 1) items ++ layout.lineBreak level ++ [']']
  | _, .map [] => ['\x7b', '\x7d']
  | level, .map ((k, v) :: entries) =>
    '\x7b' :: layout.lineBreak (level + 1) ++ writeText k
      ++ ':' :: ' ' :: write layout (level + 1) v
      ++ writeEntries layout (level + 1) entries ++ layout.lineBreak level ++ ['\x7d']

/-- The items after the first, each with what sets it apart. -/
def writeItems (layout : Layout) : Nat → List Value → List Char
  | _, [] => []
  | level, v :: items =>
    layout.between level ++ write layout level v ++ writeItems layout level items

/-- The entries after the first, each with what sets it apart. -/
def writeEntries (layout : Layout) : Nat → List (String × Value) → List Char
  | _, [] => []
  | level, (k, v) :: entries =>
    layout.between level ++ writeText k ++ ':' :: ' ' :: write layout level v
      ++ writeEntries layout level entries

end

mutual

/-- The type of the first value, in writing order, that JSON cannot hold. -/
def unwritable? : Value → Option String
  | .decimal d => some (Value.decimal d).typeName
  | .bytes b => some (Value.bytes b).typeName
  | .list items => unwritableItems? items
  | .map entries => unwritableEntries? entries
  | _ => none

/-- The same for the values of a list. -/
def unwritableItems? : List Value → Option String
  | [] => none
  | v :: items => (unwritable? v).or (unwritableItems? items)

/-- The same for the values of a map. -/
def unwritableEntries? : List (String × Value) → Option String
  | [] => none
  | (_, v) :: entries => (unwritable? v).or (unwritableEntries? entries)

end

/-- The JSON text of a value, or the type that keeps it from having one. -/
def encode (layout : Layout) (v : Value) : Except String (List Char) :=
  match unwritable? v with
  | some typeName => .error typeName
  | none => .ok (write layout 0 v)

end LocaleBundle.Json
