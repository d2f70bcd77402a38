import LocaleBundle.Entries
import LocaleBundle.Text.Numeral

/-!
# Load reports

The record of a locale has one of three origins: it was read from the locale's
file, it was made and written to a new file, or it was made in memory only. A
load report lists the origins in configured order.
-/

namespace LocaleBundle.Locale

/-- Where the record of a locale came from. -/
inductive Origin where
  | file
  | newFile
  | memory
  deriving DecidableEq

namespace Origin

/-- All origins. -/
def all : List Origin := [.file, .newFile, .memory]

/-- The word for an origin. -/
def name : Origin → String
  | .file => "loaded"
  | .newFile => "created"
  | .memory => "synthesized"

/-- The origin of a word. -/
def ofName? (s : String) : Option Origin := all.find? fun origin => origin.name = s

end Origin

/-- What loading did for one locale: the origin of its record, the path of its
file, and how many of its keys are translated by a plural table. -/
structure LoadEntry where
  locale : String
  origin : Origin
  path : String
  pluralKeys : Int := 0
  deriving DecidableEq

/-- Whether the locale had no file before. -/
def LoadEntry.isNew (entry : LoadEntry) : Bool := entry.origin ≠ .file

/-- What loading did, in configured order. -/
structure LoadReport where
  entries : List LoadEntry
  deriving DecidableEq

namespace LoadReport

/-- How many records have an origin. -/
def count (report : LoadReport) (origin : Origin) : Nat :=
  report.entries.countP fun entry => entry.origin = origin

/-- The entry of a locale. -/
def find? (report : LoadReport) (locale : String) : Option LoadEntry :=
  report.entries.find? fun entry => entry.locale = locale

/-- The origin of each record. -/
def origins (report : LoadReport) : Entries Origin :=
  Entries.ofPairs (report.entries.map fun entry => (entry.locale, entry.origin))

/-- A report as one line. -/
def line (report : LoadReport) : String :=
  "LoadSummary(total=" ++ toString report.entries.length
    ++ ", loaded=" ++ toString (report.count .file)
    ++ ", created=" ++ toString (report.count .newFile)
    ++ ", synthesized=" ++ toString (report.count .memory) ++ ")"

end LoadReport

end LocaleBundle.Locale
