import LocaleBundle.File.Tree
import LocaleBundle.Json.Reader
import LocaleBundle.Json.Writer
import LocaleBundle.Locale.Record

/-!
# Locale files

Every locale has one file in the locales directory, named for its code. A file
is UTF-8 text; any of the three line ends counts as a line feed when it is read.

A file is written whole or not at all: the content goes to a temporary file
beside it, which gets the permission bits of the file it replaces and is then
renamed over it. If one of these steps is refused the temporary file is removed.
-/

namespace LocaleBundle.Locale

/-- The directory with the locale files. -/
structure Files where
  directory : Location
  deriving DecidableEq

/-- The steps in which a file is written. -/
inductive WriteStep where
  | create
  | fill
  | setMode
  | rename
  deriving DecidableEq

/-- The steps that the file system refuses whatever the tree looks like. -/
abbrev Refusals := WriteStep → Option FileError

namespace Files

/-- Where a locale's file is. -/
def location (files : Files) (locale : String) : Location :=
  files.directory.join (locale ++ ".json")

/-- The path of a locale's file. -/
def path (files : Files) (locale : String) : String := (files.location locale).text

/-- Makes the locales directory. -/
def makeDirectory (files : Files) : Job FileTree Unit := fun tree =>
  match tree.makeDirectories files.directory with
  | .error e => ⟨tree, .error (.file e), []⟩
  | .ok tree => ⟨tree, .ok (), []⟩

/-- Whether a locale has a file. -/
def isPresent (files : Files) (tree : FileTree) (locale : String) : Bool :=
  tree.isFile (files.location locale)

/-- A text with every line end as a line feed. -/
def unifyLineEnds : List Char → List Char
  | [] => []
  | '\r' :: '\n' :: s => '\n' :: unifyLineEnds s
  | '\r' :: s => '\n' :: unifyLineEnds s
  | c :: s => c :: unifyLineEnds s

/-- The value that a file's bytes write. -/
def decode (content : ByteArray) (filePath locale : String) : Except Error Value :=
  match String.fromUTF8? content with
  | none => .error .undecodable
  | some text =>
    let cs := unifyLineEnds text.toList
    (Json.readDocument cs).mapError fun e =>
      .fault (.badLocaleFile filePath locale ("invalid JSON: " ++ e.describe cs))

/-- Reads a locale's file. -/
def read (files : Files) (tree : FileTree) (locale : String) : Except Error Value :=
  match tree.read (files.location locale) with
  | .error e => .error (.file e)
  | .ok content => decode content (files.path locale) locale

/-- The text of a record's file: the indented JSON and a line feed. -/
def encode (record : Record) : Except Error String :=
  match Json.encode (.indented 2) record.toValue with
  | .error typeName => .error (.unwritable typeName)
  | .ok cs => .ok (String.ofList (cs ++ ['\n']))

/-- The permission bits of a file that is to be replaced, for a new one those of
new files. -/
def targetMode (tree : FileTree) (target : Location) : Except FileError Nat :=
  match tree.mode target with
  | .error .notFound => .ok FileTree.newFileMode
  | other => other

/-- The name of a temporary file for a locale, different for each number. -/
def temporaryName (locale : String) (n : Nat) : String :=
  "." ++ locale ++ "." ++ toString n ++ ".tmp"

/-- The location of a temporary file that is not there yet. Among one number more
than the tree has nodes there is one. -/
def temporary (files : Files) (tree : FileTree) (locale : String) : Location :=
  let candidates := (List.range (tree.nodes.length + 1)).map fun n =>
    files.directory.join (temporaryName locale n)
  (candidates.find? fun l => (tree.find l).toOption.isNone).getD (files.directory.join "")

/-- One step: refused from outside, or by the tree. -/
def tryStep (refusals : Refusals) (step : WriteStep) (next : Except FileError FileTree) :
    Except FileError FileTree :=
  match refusals step with
  | some e => .error e
  | none => next

/-- The steps after the temporary file is there. -/
def fillAndRename (refusals : Refusals) (tree : FileTree) (temp target : Location)
    (content : ByteArray) (mode : Nat) : Except FileError FileTree := do
  let tree ← tryStep refusals .fill (tree.writeFile temp content)
  let tree ← tryStep refusals .setMode (tree.setMode temp mode)
  tryStep refusals .rename (tree.rename temp target)

/-- Replaces a file by way of a temporary one. After a refusal the temporary file
is gone again. -/
def replace (refusals : Refusals) (tree : FileTree) (temp target : Location)
    (content : ByteArray) : FileTree × Except FileError Unit :=
  match targetMode tree target with
  | .error e => (tree, .error e)
  | .ok mode =>
    match tryStep refusals .create (tree.createFile temp) with
    | .error e => (tree, .error e)
    | .ok created =>
      match fillAndRename refusals created temp target content mode with
      | .ok tree => (tree, .ok ())
      | .error e => ((created.removeFile temp).toOption.getD created, .error e)

/-- The locale of a record as the text that names its file. -/
def localeText (record : Record) : String := record.locale.display

/-- Writes a record's file while some steps are refused, and gives its path. -/
def writeAgainst (refusals : Refusals) (files : Files) (record : Record) :
    Job FileTree String := fun tree =>
  match encode record with
  | .error e => ⟨tree, .error e, []⟩
  | .ok text =>
    let locale := localeText record
    let (tree, result) := replace refusals tree (files.temporary tree locale)
      (files.location locale) text.toUTF8
    match result with
    | .error e => ⟨tree, .error (.file e), []⟩
    | .ok () => ⟨tree, .ok (files.path locale), []⟩

/-- Writes a record's file, and gives its path. -/
def write (files : Files) (record : Record) : Job FileTree String :=
  writeAgainst (fun _ => none) files record

end Files

end LocaleBundle.Locale
