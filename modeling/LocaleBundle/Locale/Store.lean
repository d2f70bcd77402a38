import LocaleBundle.KeyLedger
import LocaleBundle.Locale.Fallback
import LocaleBundle.Locale.Files
import LocaleBundle.Locale.LoadReport
import LocaleBundle.Locale.Locales

/-!
# The locale store

The store holds the records of a build's locales. `load` reads every locale file
in configured order, or makes a record where there is none; it checks each file
against the configuration and the fallbacks for cycles, and notes the plural
keys in the ledger. `lookup` then finds a translation along a fallback chain,
and `save` writes a record back.

Loading works on a workspace: the file tree, the store and the key ledger. What
was done before a failure stays done.
-/

namespace LocaleBundle.Locale

/-- The locales, where their files are, and the records loaded so far. -/
structure Store where
  locales : Locales
  files : Files
  addMissing : Bool
  records : Entries Record := []
  fallbacks : Fallbacks := []

/-- What a build's locale operations work on. -/
structure Workspace where
  tree : FileTree
  store : Store
  ledger : KeyLedger

/-- A translation that a lookup found: its value, the locale that gave it, and
the locale it was looked up for. -/
structure Resolved where
  value : Value
  locale : String
  requested : String

/-- Whether a translation came from another locale than the one asked for. -/
def Resolved.isFallback (resolved : Resolved) : Bool := resolved.locale ≠ resolved.requested

namespace Store

/-- A store for the locales that values give, with nothing loaded. -/
def ofValues (values : List Value) (default : Value) (files : Files) (addMissing : Bool) :
    Except Error Store :=
  match Locales.ofValues "Default locale" values default with
  | .error e => .error e
  | .ok locales => .ok { locales := locales, files := files, addMissing := addMissing }

/-- The record of a locale. -/
def get (store : Store) (locale : String) : Except Error Record :=
  match Entries.get? locale store.records with
  | none => .error (.notLoaded locale)
  | some record => .ok record

/-- Whether a locale has a record. -/
def contains (store : Store) (locale : String) : Bool := Entries.contains locale store.records

/-- The display name of each loaded locale. -/
def names (store : Store) : Entries String :=
  store.records.map fun (locale, record) => (locale, record.name)

/-- A locale and its fallbacks, in lookup order. -/
def chain (store : Store) (locale : String) : List String := store.fallbacks.chain locale

/-- The first usable translation of a key in the records of some locales. An
empty translation is not usable. -/
def lookupIn (store : Store) (requested key : String) : List String → Except Error (Option Resolved)
  | [] => .ok none
  | locale :: rest =>
    match store.get locale with
    | .error e => .error e
    | .ok record =>
      let value := (Entries.get? key record.translations).getD .null
      if value.isTruthy then .ok (some ⟨value, locale, requested⟩)
      else lookupIn store requested key rest

/-- Finds a translation in a locale or its fallbacks. -/
def lookup (store : Store) (locale key : String) : Except Error (Option Resolved) :=
  store.lookupIn locale key (store.chain locale)

/-- Puts a record into the store. -/
def putRecord (store : Store) (locale : String) (record : Record) : Store :=
  { store with records := Entries.insert locale record store.records }

/-- Writes a translation into a record; the key of a new one comes last. -/
def setTranslation (store : Store) (locale key : String) (value : Value) : Except Error Store :=
  match store.get locale with
  | .error e => .error e
  | .ok record =>
    .ok (store.putRecord locale
      { record with translations := Entries.insert key value record.translations })

/-- The display name of a locale without one; a configured locale has it. -/
def nameFor (locale : String) : String := (Code.displayName? locale).getD locale

/-- A record for a locale that has no file. -/
def emptyRecord (locale : String) : Record := { locale := .text locale, name := nameFor locale }

/-- The record that a file's content gives a locale: the content must have the
shape of a record, declare the locale, and name a configured fallback if any. -/
def accept (store : Store) (locale : String) (content : Value) : Except Error Record :=
  let path := store.files.path locale
  match Record.ofValue content path locale with
  | .error e => .error e
  | .ok record =>
    if record.locale.asText? ≠ some locale then
      .error (.fault (.wrongLocale path record.locale locale))
    else
      let named := if record.name = "" then { record with name := nameFor locale } else record
      match record.fallback with
      | .null => .ok named
      | .text fallback =>
        if fallback ∈ store.locales.codes then .ok named
        else .error (.fault (.unknownFallback path locale record.fallback))
      | other => .error (.fault (.unknownFallback path locale other))

/-- Reads the record of a locale, or makes one if there is no file. -/
def loadLocale (store : Store) (locale : String) : Job FileTree (Record × Origin) := do
  let tree ← Job.get
  if store.files.isPresent tree locale then
    let content ← Job.ofExcept (store.files.read tree locale)
    let record ← Job.ofExcept (store.accept locale content)
    return (record, .file)
  else
    let record := emptyRecord locale
    if store.addMissing then
      let _ ← store.files.write record
      Job.record .info ("Created locale file " ++ store.files.path locale)
      return (record, .newFile)
    else return (record, .memory)

/-- Takes a loaded record into the store, with its fallback. -/
def take (store : Store) (locale : String) (record : Record) : Store :=
  { store.putRecord locale record with
    fallbacks := Entries.insert locale record.fallback.asText? store.fallbacks }

/-- Writes the file of a record from memory. -/
def saveRecord (store : Store) (locale : String) : Job FileTree Unit := do
  let record ← Job.ofExcept (store.get locale)
  let path ← store.files.write record
  Job.record .info ("Wrote locale file " ++ path)

end Store

namespace Workspace

variable {α : Type}

/-- A job on the files alone. -/
def onFiles (job : Job FileTree α) : Job Workspace α :=
  Job.within (·.tree) (fun workspace tree => { workspace with tree := tree }) job

/-- A job on the ledger alone. -/
def onLedger (job : Job KeyLedger α) : Job Workspace α :=
  Job.within (·.ledger) (fun workspace ledger => { workspace with ledger := ledger }) job

/-- Changes the store. -/
def changeStore (change : Store → Store) : Job Workspace Unit :=
  Job.modify fun workspace => { workspace with store := change workspace.store }

/-- Loads one locale into the store. -/
def loadOne (locale : String) : Job Workspace LoadEntry := do
  let store := (← Job.get).store
  let (record, origin) ← onFiles (store.loadLocale locale)
  changeStore fun store => store.take locale record
  return { locale := locale, origin := origin, path := store.files.path locale,
           pluralKeys := record.pluralKeys.length }

/-- Refuses fallbacks that form a cycle. -/
def checkCycles : Job Workspace Unit := do
  let store := (← Job.get).store
  match store.fallbacks.cycles with
  | [] => return
  | cycle :: _ =>
    Job.fail (.fault (.fallbackCycle (store.files.path (cycle.headD "")) cycle))

/-- Notes a key that a locale translates by a plural table. -/
def notePluralKey (locale key : String) : Job Workspace Unit := do
  Job.record .debug ("Plural key in " ++ locale ++ ": " ++ key)
  onLedger (KeyLedger.update fun ledger => ledger.notePlural key)

/-- Notes the plural keys of all records. -/
def notePluralKeys : Job Workspace Unit := do
  let store := (← Job.get).store
  let noted := store.records.flatMap fun (_, record) =>
    record.pluralKeys.map fun key => (record.locale.display, key)
  let _ ← Job.forEach noted fun (locale, key) => notePluralKey locale key

/-- Loads and checks every configured locale. Nothing of an earlier load is
kept. -/
def load : Job Workspace LoadReport := do
  changeStore fun store => { store with records := [], fallbacks := [] }
  let store := (← Job.get).store
  onFiles store.files.makeDirectory
  let entries ← Job.forEach store.locales.codes loadOne
  checkCycles
  notePluralKeys
  let report : LoadReport := ⟨entries⟩
  Job.record .debug ("Locales loaded: " ++ report.line)
  return report

/-- Writes a record's file from memory. -/
def save (locale : String) : Job Workspace Unit := do
  let store := (← Job.get).store
  onFiles (store.saveRecord locale)

end Workspace

end LocaleBundle.Locale
