import LocaleBundle.Text.Search

/-!
# Locale codes

A locale code is a language of two lowercase letters, alone or with a region of
two uppercase letters behind an underscore or a hyphen.
-/

namespace LocaleBundle.Locale

/-- The parts of a locale code. -/
structure Code where
  language : String
  region : Option String
  deriving DecidableEq

namespace Code

/-- The letters of languages. -/
def isLower (c : Char) : Bool := 'a' ≤ c && c ≤ 'z'

/-- The letters of regions. -/
def isUpper (c : Char) : Bool := 'A' ≤ c && c ≤ 'Z'

/-- Takes a locale code apart. -/
def parse? (code : String) : Option Code :=
  match code.toList with
  | [a, b] => if isLower a && isLower b then some ⟨code, none⟩ else none
  | [a, b, separator, c, d] =>
    if isLower a && isLower b && (separator = '_' || separator = '-') && isUpper c && isUpper d then
      some ⟨String.ofList [a, b], some (String.ofList [c, d])⟩
    else none
  | _ => none

/-- Whether a text is a locale code. -/
def isValid (code : String) : Bool := (parse? code).isSome

/-- A text with underscores for its hyphens. -/
def underscored (code : String) : String :=
  String.ofList (code.toList.map fun c => if c = '-' then '_' else c)

/-- The name shown for a locale that gives none: the language, with the region
in parentheses. What is no locale code has no such name. -/
def displayName? (code : String) : Option String :=
  (parse? code).map fun parts =>
    match parts.region with
    | some region => parts.language ++ " (" ++ region ++ ")"
    | none => code

end Code

end LocaleBundle.Locale
