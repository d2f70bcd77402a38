import LocaleBundle.Locale.Store

/-!
# The key audit

After a scan the keys that sources refer to are compared with the keys that each
locale translates. A key that is referred to and not translated is missing, a
key that is translated and not referred to is unused. Missing keys can be filled
in with empty translations and written back; unused keys are only reported.
-/

namespace LocaleBundle.Locale

/-- What the audit found for one locale, and whether its file was filled in. -/
structure Findings where
  locale : String
  missing : List String := []
  unused : List String := []
  filledIn : Bool := false
  deriving DecidableEq

namespace Findings

/-- Whether nothing is missing and nothing unused. -/
def areNone (findings : Findings) : Bool := findings.missing.isEmpty && findings.unused.isEmpty

/-- Keys in double quotes, set apart by spaces. -/
def inQuotes (keys : List String) : String :=
  " ".intercalate (keys.map fun key => "\"" ++ key ++ "\"")

/-- A kind of finding, if there is any: its word, the number of keys, the keys. -/
def clause (word : String) (keys : List String) : List String :=
  if keys = [] then [] else [word ++ " " ++ toString keys.length ++ " keys: " ++ inQuotes keys]

/-- The findings for a locale as one line. -/
def line (findings : Findings) : String :=
  "i18n " ++ findings.locale ++ ": "
    ++ ", ".intercalate (clause "missing" findings.missing ++ clause "unused" findings.unused)

end Findings

/-- What the audit found, in configured order. -/
structure AuditReport where
  findings : List Findings
  deriving DecidableEq

namespace AuditReport

/-- Whether a key is missing somewhere. -/
def anyMissing (report : AuditReport) : Bool := report.findings.any fun f => !f.missing.isEmpty

/-- Whether a key is unused somewhere. -/
def anyUnused (report : AuditReport) : Bool := report.findings.any fun f => !f.unused.isEmpty

/-- The locales whose files were filled in. -/
def filledIn (report : AuditReport) : List String :=
  (report.findings.filter (·.filledIn)).map (·.locale)

/-- The findings for a locale. -/
def find? (report : AuditReport) (locale : String) : Option Findings :=
  report.findings.find? fun f => f.locale = locale

/-- A line for every locale with findings. -/
def text (report : AuditReport) : String :=
  "\n".intercalate ((report.findings.filter fun f => !f.areNone).map (·.line))

end AuditReport

namespace Record

/-- The keys that a record does not translate, sorted. -/
def missing (record : Record) (keys : List String) : List String :=
  TextSet.sort (TextSet.difference (TextSet.ofList keys) (Entries.keys record.translations))

/-- The translated keys that are not among the given ones, sorted. -/
def unused (record : Record) (keys : List String) : List String :=
  TextSet.sort (TextSet.difference (Entries.keys record.translations) keys)

/-- A record with empty translations for some keys. -/
def fillIn (record : Record) (keys : List String) : Record :=
  { record with
    translations := Entries.insertAll record.translations (keys.map fun key => (key, .text "")) }

end Record

namespace Workspace

/-- Audits one locale. If `fillIn` says so, missing keys are filled in and the
file is written. -/
def auditOne (fillIn : Bool) (keys : List String) (locale : String) : Job Workspace Findings := do
  let record ← Job.ofExcept ((← Job.get).store.get locale)
  let missing := record.missing keys
  let unused := record.unused keys
  if fillIn && !missing.isEmpty then
    changeStore fun store => store.putRecord locale (record.fillIn missing)
    save locale
    return ⟨locale, missing, unused, true⟩
  else return ⟨locale, missing, unused, false⟩

/-- Audits one locale and logs what was found. -/
def auditLogged (fillIn : Bool) (keys : List String) (locale : String) :
    Job Workspace Findings := do
  let findings ← auditOne fillIn keys locale
  if !findings.areNone then Job.record .info findings.line
  return findings

/-- Audits every configured locale. -/
def audit (fillIn : Bool) (keys : List String) : Job Workspace AuditReport := do
  let store := (← Job.get).store
  let findings ← Job.forEach store.locales.codes (auditLogged fillIn keys)
  return ⟨findings⟩

end Workspace

end LocaleBundle.Locale
