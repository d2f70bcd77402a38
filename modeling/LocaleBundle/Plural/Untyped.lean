import LocaleBundle.Plural.Table
import LocaleBundle.Text.Search

/-!
# Untyped plural tables

A caller may hand in any value in the place of a plural table. A map is one. A list
or a text can be searched for match keys, among its items or its parts, but has no
cases for them: if the search finds none, then no case is selected, and otherwise
the value is refused. Any other value is refused at once.
-/

namespace LocaleBundle.Plural.Untyped

variable [Cldr]

/-- Whether a value is a given text. -/
def isText (s : String) : Value → Bool
  | .text t => t = s
  | _ => false

/-- Whether a text has another as a part. -/
def hasPart (s part : String) : Bool := (Text.splitAtFirst part.toList s.toList).isSome

/-- Searches a value that has no cases. -/
def search (isThere : String → Bool) (typeName : String) (value : Value)
    (locale : Option String) : Logged (Option String) := do
  match ← startAmong isThere value locale with
  | none => return none
  | some _ => Logged.fail (.noCases typeName)

/-- The template that a value in the place of a table selects. -/
def select (table value : Value) (locale : Option String) : Logged (Option String) :=
  match table with
  | .map entries => Table.select entries value locale
  | .list items => search (fun key => items.any (isText key)) table.typeName value locale
  | .text s => search (hasPart s) table.typeName value locale
  | _ => Logged.fail (.notSearchable table.fullTypeName)

/-- The text that a value in the place of a table gives for a call. -/
def resolve (table : Value) (args : List Value) (key : String) (locale : Option String) :
    Logged String := do
  let selected ← select table (args.head?.getD .null) locale
  fillSelected selected args key

/-- A map in the place of a table is resolved as that table. -/
theorem resolve_map (table : Table) (args : List Value) (key : String)
    (locale : Option String) :
    resolve (.map table) args key locale = Table.resolve table args key locale := rfl

end LocaleBundle.Plural.Untyped
