import LocaleBundle.Diagnostic.Format

/-!
# Faults

A fault is a problem that stops a build. Its kind says what went wrong and
carries what a program needs to react; its report is for people. The kinds form
a tree: unusable locale data, unresolvable plural tables and malformed
placeholders are kinds of their own, with finer kinds below them.
-/

namespace LocaleBundle

namespace Fault

/-- The kinds of fault. A cyclic fallback carries the cycle, its first locale
repeated at the end; a redirect cycle the match keys visited, ending with the
repeated one; a malformed placeholder the file and the offset of its token. -/
inductive Kind where
  | general
  | localeData
  | malformedLocale
  | wrongLocale
  | unknownFallback
  | fallbackCycle (cycle : List String)
  | badLocaleFile
  | pluralTable
  | redirectCycle (path : List String)
  | badPluralCase
  | badPlaceholder (fileName : String) (offset : Int)
  deriving DecidableEq

/-- The kind that a kind is a case of. -/
def Kind.parent? : Kind → Option Kind
  | .general => none
  | .localeData | .pluralTable | .badPlaceholder _ _ => some .general
  | .malformedLocale | .wrongLocale | .unknownFallback | .fallbackCycle _ | .badLocaleFile =>
    some .localeData
  | .redirectCycle _ | .badPluralCase => some .pluralTable

/-- A kind and all that it is a case of. -/
def Kind.lineage (kind : Kind) : List Kind :=
  kind :: (match kind.parent? with
    | none => []
    | some parent => parent :: parent.parent?.toList)

/-- Whether a fault of this kind is about locale data. -/
def Kind.isLocaleData (kind : Kind) : Bool := kind.lineage.contains .localeData

/-- What a fault tells people: a plain text, or a diagnostic. -/
inductive Report where
  | text (s : String)
  | diagnostic (d : Diagnostic)
  deriving DecidableEq

end Fault

/-- A problem that stops a build. -/
structure Fault where
  kind : Fault.Kind
  report : Fault.Report
  deriving DecidableEq

namespace Fault

/-- The text of a fault; a diagnostic is written in the style of a compiler. -/
def message (fault : Fault) : String :=
  match fault.report with
  | .text s => s
  | .diagnostic d => d.report

/-- The diagnostic of a fault, if it has one. -/
def diagnostic? (fault : Fault) : Option Diagnostic :=
  match fault.report with
  | .text _ => none
  | .diagnostic d => some d

/-- A locale code is malformed. -/
def malformedLocale (locale : Value) : Fault :=
  ⟨.malformedLocale, .diagnostic (.malformedLocale locale.display)⟩

/-- A locale file declares another locale. -/
def wrongLocale (filePath : String) (declared : Value) (expected : String) : Fault :=
  ⟨.wrongLocale, .diagnostic (.wrongLocale filePath declared expected)⟩

/-- A fallback is not configured. -/
def unknownFallback (filePath locale : String) (fallback : Value) : Fault :=
  ⟨.unknownFallback, .diagnostic (.unknownFallback filePath locale fallback)⟩

/-- Fallbacks form a cycle. -/
def fallbackCycle (filePath : String) (cycle : List String) : Fault :=
  ⟨.fallbackCycle cycle, .diagnostic (.fallbackCycle filePath cycle)⟩

/-- A locale file cannot be used. -/
def badLocaleFile (filePath locale reason : String) : Fault :=
  ⟨.badLocaleFile, .diagnostic (.badLocaleFile filePath locale reason)⟩

/-- The redirects of a plural table form a cycle. -/
def redirectCycle (path : List String) : Fault :=
  ⟨.redirectCycle path, .diagnostic (.redirectCycle path)⟩

/-- A plural case has the wrong type. -/
def badPluralCase (matchKey : String) (value : Value) : Fault :=
  ⟨.badPluralCase, .diagnostic (.badPluralCase matchKey value)⟩

/-- A call token cannot be read. -/
def badPlaceholder (fileName : String) (offset : Nat) (reason : String) : Fault :=
  ⟨.badPlaceholder fileName offset, .diagnostic (.badPlaceholder fileName offset reason)⟩

end Fault

end LocaleBundle
