import LocaleBundle.Diagnostic
import LocaleBundle.Json.Writer

/-!
# Writing diagnostics

A diagnostic is written in the style of a compiler, on one line, or as a JSON
object. Hints, and the message where it is all there is, can be cut to a length
to keep a log readable. Details that are empty are left out.
-/

namespace LocaleBundle.Diagnostic

/-- The styles a diagnostic is written in. -/
inductive Style where
  | rust
  | simple
  | json
  deriving DecidableEq

/-- The name of a style. -/
def Style.name : Style → String
  | .rust => "rust"
  | .simple => "simple"
  | .json => "json"

/-- The style of a name. -/
def Style.ofName? (s : String) : Option Style :=
  [Style.rust, .simple, .json].find? fun style => style.name = s

/-- How diagnostics are written: the style, and the length to which long texts
are cut if they are. A negative length leaves out so many characters. -/
structure Format where
  style : Style := .rust
  limit : Option Int := none
  deriving DecidableEq

namespace Format

/-- The first `n` characters; for a negative `n` all but the last `-n`. -/
def cut (n : Int) (cs : List Char) : List Char :=
  if 0 ≤ n then cs.take n.toNat else cs.take (cs.length - n.natAbs)

/-- A text, cut and marked if it is too long. -/
def shorten (format : Format) (s : String) : String :=
  match format.limit with
  | none => s
  | some limit => if limit < s.length then String.ofList (cut limit s.toList) ++ "..." else s

/-- A text that is there and not empty. -/
def present? (s : Option String) : Option String := s.filter (· ≠ "")

/-- The compiler style: a headline, then a line for each detail. -/
def lines (format : Format) (d : Diagnostic) : List String :=
  [d.severity.name ++ "[" ++ d.problem.name ++ "]: " ++ d.message]
    ++ ((present? d.file).map ("  --> " ++ ·)).toList
    ++ ((present? d.locale).map ("  = locale: " ++ ·)).toList
    ++ ((present? d.hint).map fun hint => "  = help: " ++ format.shorten hint).toList

/-- The members of the JSON object of a diagnostic. -/
def members (format : Format) (d : Diagnostic) : Entries Value :=
  [("code", .text d.problem.name), ("code_value", .int d.problem.number),
    ("message", .text (format.shorten d.message)), ("severity", .text d.severity.name)]
    ++ ((present? d.locale).map fun locale => ("locale", Value.text locale)).toList
    ++ ((present? d.file).map fun path => ("file_path", Value.text path)).toList
    ++ ((present? d.hint).map fun hint => ("hint", Value.text (format.shorten hint))).toList

/-- A diagnostic in the chosen style. -/
def write (format : Format) (d : Diagnostic) : String :=
  match format.style with
  | .rust => "\n".intercalate (format.lines d)
  | .simple => d.problem.name ++ ": " ++ format.shorten d.message
  | .json => String.ofList (Json.write .compact 0 (.map (format.members d)))

/-- Several diagnostics, with a blank line between them. -/
def writeAll (format : Format) (ds : List Diagnostic) : String :=
  "\n\n".intercalate (ds.map format.write)

end Format

/-- A diagnostic in the style of a compiler, in full. -/
def report (d : Diagnostic) : String := ({} : Format).write d

end LocaleBundle.Diagnostic
