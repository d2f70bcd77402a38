import LocaleBundle.Logged

/-!
# Locale records

A locale record is what a locale file holds: the locale's code, its display
name, an optional fallback, the translations, and whatever other fields the file
has, which are kept. `ofValue` checks the shape of a parsed file and `toValue`
gives the value that is written.

Only the shape is checked here. Whether the code and the fallback fit the
configured locales is for the store to say.
-/

namespace LocaleBundle.Locale

/-- The record of one locale. -/
structure Record where
  locale : Value
  name : String
  translations : Entries Value := []
  fallback : Value := .null
  extra : Entries Value := []

namespace Record

/-- The fields with a meaning of their own. -/
def fieldNames : List String := ["locale", "name", "fallback", "translations"]

/-- The keys that are translated by a plural table. -/
def pluralKeys (record : Record) : List String :=
  record.translations.filterMap fun
    | (key, .map _) => some key
    | _ => none

/-- Whether a plural case may stand in a locale file: a template or a redirect. -/
def isCase : Value → Bool
  | .text _ | .int _ => true
  | _ => false

/-- What is wrong with a translation, if anything is. -/
def translationFlaw? (key : String) : Value → Option String
  | .text _ => none
  | .map table =>
    (table.find? fun (_, entry) => !isCase entry).map fun (matchKey, _) =>
      "plural case " ++ Text.quoted matchKey ++ " of " ++ Text.quoted key
        ++ " must be a string or integer"
  | _ => some ("translation for " ++ Text.quoted key ++ " must be a string or plural object")

/-- What is wrong with the first flawed translation, if there is one. -/
def translationsFlaw? (translations : Entries Value) : Option String :=
  translations.findSome? fun (key, v) => translationFlaw? key v

/-- The value of a field; a field that is absent is null. -/
def field (name : String) (fields : Entries Value) : Value := (Entries.get? name fields).getD .null

/-- The record that a parsed file holds, or what is wrong with its shape. An
empty name or fallback of any type counts as absent. -/
def ofValue? : Value → Except String Record
  | .map fields =>
    match (Entries.get? "translations" fields).getD (.map []) with
    | .map translations =>
      match translationsFlaw? translations with
      | some reason => .error reason
      | none =>
        let name := field "name" fields
        let fallback := field "fallback" fields
        match if name.isTruthy then name.asText? else some "" with
        | none => .error "\"name\" must be a string"
        | some name => .ok {
            locale := field "locale" fields
            name := name
            translations := translations
            fallback := if fallback.isTruthy then fallback else .null
            extra := Entries.without fieldNames fields }
    | _ => .error "\"translations\" must be an object"
  | v => .error ("expected a JSON object, got " ++ v.typeName)

/-- The record that the parsed file at a path holds. -/
def ofValue (v : Value) (filePath locale : String) : Except Error Record :=
  (ofValue? v).mapError fun reason => .fault (.badLocaleFile filePath locale reason)

/-- The value that is written: code and name, the fallback if there is one, the
other fields, and the translations. -/
def toValue (record : Record) : Value :=
  let head : Entries Value := [("locale", record.locale), ("name", .text record.name)]
  let fallback : Entries Value := match record.fallback with
    | .null => []
    | v => [("fallback", v)]
  .map (Entries.insert "translations" (.map record.translations)
    (Entries.insertAll (head ++ fallback) record.extra))

end Record

end LocaleBundle.Locale
