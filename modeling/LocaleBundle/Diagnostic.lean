import LocaleBundle.Value

/-!
# Diagnostics

A diagnostic describes one problem for people and for tools: which problem it
is, a message, and where they help a hint, a locale and a file. The functions
below hold the wording of every problem the library reports.
-/

namespace LocaleBundle

/-- The problems that are reported. -/
inductive Problem where
  | malformedLocale
  | wrongLocale
  | unknownFallback
  | fallbackCycle
  | badLocaleFile
  | redirectCycle
  | badPluralCase
  | noPluralCase
  | missingTranslation
  | badPlaceholder
  deriving DecidableEq

namespace Problem

/-- All problems. -/
def all : List Problem := [
  .malformedLocale, .wrongLocale, .unknownFallback, .fallbackCycle, .badLocaleFile,
  .redirectCycle, .badPluralCase, .noPluralCase, .missingTranslation, .badPlaceholder]

/-- The name of a problem. -/
def name : Problem → String
  | .malformedLocale => "LOCALE_INVALID"
  | .wrongLocale => "LOCALE_MISMATCH"
  | .unknownFallback => "FALLBACK_UNKNOWN"
  | .fallbackCycle => "FALLBACK_CYCLE"
  | .badLocaleFile => "LOCALE_FILE_INVALID"
  | .redirectCycle => "PLURAL_REDIRECT_CYCLE"
  | .badPluralCase => "PLURAL_INVALID"
  | .noPluralCase => "PLURAL_NO_MATCH"
  | .missingTranslation => "TRANSLATION_MISSING"
  | .badPlaceholder => "PLACEHOLDER_INVALID"

/-- The number of a problem: locale data from 1000, resolution from 2000, replication
from 3000. -/
def number : Problem → Nat
  | .malformedLocale => 1001
  | .wrongLocale => 1002
  | .unknownFallback => 1003
  | .fallbackCycle => 1004
  | .badLocaleFile => 1005
  | .redirectCycle => 2001
  | .badPluralCase => 2002
  | .noPluralCase => 2003
  | .missingTranslation => 2004
  | .badPlaceholder => 3001

/-- The problem of a name. -/
def ofName? (s : String) : Option Problem := all.find? fun problem => problem.name = s

end Problem

/-- How grave a problem is. -/
inductive Severity where
  | error
  | warning
  | info
  deriving DecidableEq

/-- The word for a severity. -/
def Severity.name : Severity → String
  | .error => "error"
  | .warning => "warning"
  | .info => "info"

/-- The severity of a word. -/
def Severity.ofName? (s : String) : Option Severity :=
  [Severity.error, .warning, .info].find? fun severity => severity.name = s

/-- A problem described. -/
structure Diagnostic where
  problem : Problem
  message : String
  hint : Option String := none
  locale : Option String := none
  file : Option String := none
  severity : Severity := .error
  deriving DecidableEq

namespace Diagnostic

/-! ## The problems -/

/-- A locale code is malformed. -/
def malformedLocale (locale : String) : Diagnostic where
  problem := .malformedLocale
  message := "Invalid locale: " ++ locale ++ " (does not match xx or xx_XX)"
  hint := "Use a lowercase language code with an optional uppercase region, e.g. 'en' or 'pt_BR'"
  locale := locale

/-- A locale file declares another locale than the one it is configured for. -/
def wrongLocale (filePath : String) (declared : Value) (expected : String) : Diagnostic where
  problem := .wrongLocale
  message := "Invalid locale file: " ++ filePath ++ " (locale mismatch " ++ declared.display
    ++ " !== " ++ expected ++ ")"
  hint := "Set the \"locale\" field to '" ++ expected ++ "' or rename the file"
  locale := expected
  file := filePath

/-- A fallback is not a configured locale. -/
def unknownFallback (filePath locale : String) (fallback : Value) : Diagnostic where
  problem := .unknownFallback
  message := "Invalid locale file: " ++ filePath ++ " (invalid fallback " ++ fallback.display ++ ")"
  hint := "A fallback must name another configured locale"
  locale := locale
  file := filePath

/-- Fallbacks lead back to where they started. -/
def fallbackCycle (filePath : String) (cycle : List String) : Diagnostic where
  problem := .fallbackCycle
  message := "Invalid locale file: " ++ filePath ++ " (circular fallback "
    ++ " -> ".intercalate cycle ++ ")"
  hint := "Remove the fallback from one of the locales in the cycle"
  locale := cycle.head?
  file := filePath

/-- A locale file is not JSON or has the wrong shape. -/
def badLocaleFile (filePath locale reason : String) : Diagnostic where
  problem := .badLocaleFile
  message := "Invalid locale file: " ++ filePath ++ " (" ++ reason ++ ")"
  hint := "Expected a JSON object \x7b\"locale\", \"name\"?, \"fallback\"?, \"translations\"\x7d"
  locale := locale
  file := filePath

/-- The redirects of a plural table lead back to a match key. -/
def redirectCycle (path : List String) : Diagnostic where
  problem := .redirectCycle
  message := "Circular plural redirect: " ++ " -> ".intercalate path
  hint := "Every redirect chain must end at a string entry"

/-- A plural case is neither a text nor a redirect. -/
def badPluralCase (matchKey : String) (value : Value) : Diagnostic where
  problem := .badPluralCase
  message := "Invalid plural entry '" ++ matchKey ++ "': expected string or integer redirect, got "
    ++ value.typeName
  hint := "Plural entries map a match key to a string or to another match key as an integer"

/-- A value matches no plural case. -/
def noPluralCase (key : String) (value : Value) : Diagnostic where
  problem := .noPluralCase
  message := "No plural case for " ++ value.quoted ++ " in '" ++ key ++ "' and no '*' entry"
  hint := "Add a '*' entry to the plural table"
  severity := .warning

/-- No locale of a chain translates a key. -/
def missingTranslation (key locale : String) : Diagnostic where
  problem := .missingTranslation
  message := "Missing translation for '" ++ key ++ "' in " ++ locale
  hint := "The key text is used as the displayed string"
  locale := locale
  severity := .warning

/-- A call token cannot be read. -/
def badPlaceholder (fileName : String) (offset : Int) (reason : String) : Diagnostic where
  problem := .badPlaceholder
  message := "Invalid translation placeholder in " ++ fileName ++ " at offset "
    ++ Text.Numeral.text offset ++ ": " ++ reason
  hint := "Placeholder arguments must be a JSON string key followed by JSON literals"
  file := fileName

end Diagnostic

end LocaleBundle
