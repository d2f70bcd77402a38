import LocaleBundle.Entries
import LocaleBundle.Number.Decimal
import LocaleBundle.Number.Shortest
import LocaleBundle.Text.Quoted

/-!
# Values

Locale files, placeholder arguments and build options hold dynamic values. Most
are JSON values; decimals and bytes reach the library through its callers.

`typeName` names a value's type in messages, `quoted` shows it inside other
text, and `display` shows it as text of its own: the same, except that a text is
shown without quotes.
-/

namespace LocaleBundle

/-- A dynamic value. -/
inductive Value where
  | null
  | bool (b : Bool)
  | int (n : Int)
  | float (x : Binary64)
  | decimal (d : Decimal)
  | text (s : String)
  | bytes (b : List UInt8)
  | list (items : List Value)
  | map (entries : List (String × Value))
  deriving Inhabited

namespace Value

/-- Whether a value counts as present: null, false, zero and the empty text and
collections do not. -/
def isTruthy : Value → Bool
  | .null => false
  | .bool b => b
  | .int n => n ≠ 0
  | .float (.finite _ k) => k.val ≠ 0
  | .float _ => true
  | .decimal (.finite _ c _) => c ≠ 0
  | .decimal _ => true
  | .text s => s ≠ ""
  | .bytes b => !b.isEmpty
  | .list items => !items.isEmpty
  | .map entries => !entries.isEmpty

/-- The name of a value's type in messages. -/
def typeName : Value → String
  | .null => "NoneType"
  | .bool _ => "bool"
  | .int _ => "int"
  | .float _ => "float"
  | .decimal _ => "Decimal"
  | .text _ => "str"
  | .bytes _ => "bytes"
  | .list _ => "list"
  | .map _ => "dict"

/-- The name of a value's type, with the collection of types it belongs to. -/
def fullTypeName : Value → String
  | .decimal _ => "decimal.Decimal"
  | v => v.typeName

mutual

/-- A value inside other text. -/
def quoted : Value → String
  | .null => "None"
  | .bool true => "True"
  | .bool false => "False"
  | .int n => Text.Numeral.text n
  | .float x => String.ofList (DoubleText.plain.render x)
  | .decimal d => "Decimal('" ++ String.ofList d.render ++ "')"
  | .text s => Text.quoted s
  | .bytes b => Text.quotedBytes b
  | .list items => "[" ++ ", ".intercalate (quotedItems items) ++ "]"
  | .map entries => "\x7b" ++ ", ".intercalate (quotedEntries entries) ++ "\x7d"

/-- The values of a list, each quoted. -/
def quotedItems : List Value → List String
  | [] => []
  | v :: rest => quoted v :: quotedItems rest

/-- The entries of a map, each as key and value. -/
def quotedEntries : List (String × Value) → List String
  | [] => []
  | (k, v) :: rest => (Text.quoted k ++ ": " ++ quoted v) :: quotedEntries rest

end

/-- A value as text of its own. -/
def display : Value → String
  | .text s => s
  | .decimal d => String.ofList d.render
  | v => v.quoted

/-- The text of a value that is one. -/
def asText? : Value → Option String
  | .text s => some s
  | _ => none

/-- The entries of a value that is a map. -/
def asMap? : Value → Option (Entries Value)
  | .map entries => some entries
  | _ => none

/-- Whether a value is a number; the truth values are none. -/
def isNumber : Value → Bool
  | .int _ | .float _ | .decimal _ => true
  | _ => false

end Value

end LocaleBundle
