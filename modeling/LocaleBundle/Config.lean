import LocaleBundle.Bundle.Copies

/-!
# Build configuration

A build is configured by named options: the locales, the directory of their
files, the default locale, the directory of the assets to replicate, and whether
missing files and keys are to be added. Each option has two spellings. Options
that are not given have defaults: English alone, in `i18n`.

The build target says which output is being made. Only the client output of a
production build has its translations put in.
-/

namespace LocaleBundle

/-- The options of a build. -/
inductive BuildOption where
  | locales
  | localesDirectory
  | defaultLocale
  | assetsDirectory
  | addMissing
  deriving DecidableEq

/-- The spellings of the options. -/
def BuildOption.spellings : List (String × BuildOption) := [
  ("locales", .locales), ("localesDir", .localesDirectory), ("locales_dir", .localesDirectory),
  ("defaultLocale", .defaultLocale), ("default_locale", .defaultLocale),
  ("assetsDir", .assetsDirectory), ("assets_dir", .assetsDirectory),
  ("addMissing", .addMissing), ("add_missing", .addMissing)]

/-- The option of a name. -/
def BuildOption.ofName? (name : String) : Option BuildOption := Entries.get? name spellings

/-- A checked configuration. -/
structure Config where
  locales : Locale.Locales
  localesDirectory : String
  assetsDirectory : Option String
  addMissing : Value

namespace Config

/-- The values given for the options. -/
structure Settings where
  locales : Value := .list [.text "en"]
  localesDirectory : Value := .text "i18n"
  defaultLocale : Value := .null
  assetsDirectory : Value := .null
  addMissing : Value := .bool true

/-- The items of a collection; a text stays as it is. -/
def collect : Value → Except Error Value
  | .text s => .ok (.text s)
  | .list items => .ok (.list items)
  | .map entries => .ok (.list (entries.map fun (k, _) => .text k))
  | .bytes b => .ok (.list (b.map fun byte => .int byte.toNat))
  | v => .error (.notIterable v.fullTypeName)

/-- Sets an option by its name. -/
def Settings.set (settings : Settings) (name : String) (value : Value) : Except Error Settings :=
  match BuildOption.ofName? name with
  | none => .error (.unknownOption name)
  | some .locales => (collect value).map fun items => { settings with locales := items }
  | some .localesDirectory => .ok { settings with localesDirectory := value }
  | some .defaultLocale => .ok { settings with defaultLocale := value }
  | some .assetsDirectory => .ok { settings with assetsDirectory := value }
  | some .addMissing => .ok { settings with addMissing := value }

/-- Sets options in order, up to the first refusal. -/
def Settings.setAll (settings : Settings) : List (String × Value) → Except Error Settings
  | [] => .ok settings
  | (name, value) :: rest =>
    match settings.set name value with
    | .error e => .error e
    | .ok settings => settings.setAll rest

/-- The assets directory that a value gives. -/
def assetsDirectoryOf (v : Value) : Except Error (Option String) :=
  if v.isTruthy then
    match v with
    | .text d => .ok (Bundle.directoryName? (some d))
    | v => .error (.notADirectoryName v.fullTypeName)
  else .ok none

/-- Checks settings: first the locales and the default, then the directories. -/
def ofSettings (settings : Settings) : Except Error Config :=
  match settings.locales with
  | .list values =>
    match Locale.Locales.ofValues "default_locale" values settings.defaultLocale with
    | .error e => .error e
    | .ok locales =>
      match assetsDirectoryOf settings.assetsDirectory with
      | .error e => .error e
      | .ok assetsDirectory =>
        match settings.localesDirectory with
        | .text directory => .ok ⟨locales, directory, assetsDirectory, settings.addMissing⟩
        | v => .error (.notAPath v.fullTypeName)
  | _ => .error .localesAsText

/-- The configuration that options give. Of options with one name the last value
counts, and of the two spellings of an option the later one. -/
def ofOptions (options : List (String × Value)) : Except Error Config :=
  match ({} : Settings).setAll (Entries.ofPairs options) with
  | .error e => .error e
  | .ok settings => ofSettings settings

/-- The directory of the locale files, as the option writes it. Only directories
below the working directory are modelled: in a file tree an absolute location is
not found, and `..` is followed name by name instead of being folded first. -/
def location (config : Config) : Location := Location.ofText config.localesDirectory

/-- The absolute path of that directory, seen from a working directory and folded.
The locale files are not sought by this path but at the location: below the
working directory and without `..` parts the two are the same place. -/
def localesPath (config : Config) (workingDirectory : String) : Except FileError String :=
  if config.location.isNameable then .ok (config.location.absoluteText workingDirectory)
  else .error .badName

/-- Whether missing files and keys are to be added. -/
def addsMissing (config : Config) : Bool := config.addMissing.isTruthy

end Config

/-- The output that is being built. -/
structure Target where
  mode : String := "production"
  ssr : Bool := false
  deriving DecidableEq

/-- Whether translations are put into the output: it is the client output of a
production build. -/
def Target.inlines (target : Target) : Bool :=
  !target.ssr && target.mode = "production"

end LocaleBundle
