import LocaleBundle.Plural.Cldr
import LocaleBundle.Template

/-!
# Plural tables

A plural table maps match keys to templates, or by an integer to another match
key. A value selects the case of its match key; failing that, and if a locale is
given, a number selects its plural category; failing that the wildcard `*` is
taken. Redirects are followed until a template is reached. One that names no
case goes on at the wildcard, unless the walk has been there. A walk that comes
back to a match key is a fault.
-/

namespace LocaleBundle

/-- The match key of a value: a number by its integer part, the truth values by
their words, and anything else by its text. -/
def Value.matchKey : Value → String
  | .text s => s
  | .bool true => "true"
  | .bool false => "false"
  | .int n => Text.Numeral.text n
  | .float (.finite negative k) => Text.Numeral.text (Binary64.signed negative (Binary64.floor k))
  | .decimal (.finite negative c e) =>
    Text.Numeral.text (Binary64.signed negative (Decimal.floor c e))
  | v => v.display

namespace Plural

/-- Match keys with their cases. -/
abbrev Table := Entries Value

/-- The match key that stands for every value. -/
def wildcard : String := "*"

variable [Cldr]

/-- The match key at which the search for a value starts, of those that are there:
the value's own, or else its category's, or else the wildcard. -/
def startAmong (isThere : String → Bool) (value : Value) (locale : Option String) :
    Logged (Option String) :=
  let otherwise := if isThere wildcard then some wildcard else none
  match value with
  | .null => return otherwise
  | _ =>
    if isThere value.matchKey then return some value.matchKey
    else
      match locale with
      | none => return otherwise
      | some locale =>
        if value.isNumber then do
          let category ← categoryIn value locale
          return if isThere category.name then some category.name else otherwise
        else return otherwise

/-- The text of a call for which a template is selected, or none: the template, or
else the key, with the arguments put in. -/
def fillSelected (selected : Option String) (args : List Value) (key : String) :
    Logged String :=
  match selected with
  | some template => return Template.fill template args
  | none => do
    Logged.record .warning (Diagnostic.noPluralCase key (args.head?.getD .null)).message
    return Template.fill key args

namespace Table

/-- The match key of a table at which the search for a value starts. -/
def start (table : Table) (value : Value) (locale : Option String) : Logged (Option String) :=
  startAmong (fun key => Entries.contains key table) value locale

/-- Follows redirects from a match key, past those visited. -/
def follow (table : Table) :
    (fuel : Nat) → (visited : List String) → String → Logged (Option String)
  | 0, _, _ => return none
  | fuel + 1, visited, current =>
    if current ∈ visited then
      Logged.fail (.fault (.redirectCycle (visited ++ [current])))
    else
      let visited := visited ++ [current]
      match Entries.get? current table with
      | none => return none
      | some (.text template) => return some template
      | some (.int n) => do
        let target := Text.Numeral.text n
        Logged.record .debug ("Plural redirect " ++ current ++ " -> " ++ target)
        if Entries.contains target table then follow table fuel visited target
        else if Entries.contains wildcard table && !visited.contains wildcard then
          follow table fuel visited wildcard
        else return none
      | some entry => Logged.fail (.fault (.badPluralCase current entry))

/-- The template that a table selects for a value. A walk visits each match key
of the table once, and then at most comes back to one. -/
def select (table : Table) (value : Value) (locale : Option String) : Logged (Option String) := do
  match ← table.start value locale with
  | none => return none
  | some key => follow table (table.length + 1) [] key

/-- The text that a table gives for a call: the case that the first argument
selects, or else the key, with the arguments put in. -/
def resolve (table : Table) (args : List Value) (key : String) (locale : Option String) :
    Logged String := do
  let selected ← table.select (args.head?.getD .null) locale
  fillSelected selected args key

end Table

end Plural

variable [Plural.Cldr]

/-- The text of a translation for a call: a plural table is resolved, a missing
translation is the key's own text. -/
def Value.translate (translation : Value) (args : List Value) (key : String)
    (locale : Option String) : Logged String :=
  match translation with
  | .null => return Template.fill key args
  | .map table => Plural.Table.resolve table args key locale
  | .text template => return Template.fill template args
  | v => Logged.fail (.notText v.fullTypeName)

end LocaleBundle
