import LocaleBundle.Fault
import LocaleBundle.Plural.Category

/-!
# Errors

Everything that makes an operation fail, by cause. The faults of a build come
with their reports; the other causes are misuse of the library, values without a
meaning where they stand, and refusals of the file system. `message` gives the
wording. The refusals of the file system and of decimal arithmetic, undecodable
bytes and a directory of a wrong type have none of their own.
-/

namespace LocaleBundle

/-- Why the file system refuses an operation. -/
inductive FileError where
  | notFound
  | alreadyExists
  | isDirectory
  | notDirectory
  /-- A name holds the character that no name may hold. -/
  | badName
  deriving DecidableEq

/-- The wording of a refusal; most have none. -/
def FileError.message? : FileError → Option String
  | .badName => "embedded null byte"
  | _ => none

/-- The cause of a failure. -/
inductive Error where
  /-- A fault of the build. -/
  | fault (f : Fault)
  /-- A value has no plural category. -/
  | quantity (q : Plural.QuantityError)
  /-- No locale is given. -/
  | noLocales
  /-- The locales are given as one text. -/
  | localesAsText
  /-- The default locale is not among the locales; `subject` names the setting. -/
  | defaultNotListed (subject : String) (default : Value) (locales : List String)
  /-- A build option has an unknown name. -/
  | unknownOption (name : String)
  /-- A value is not a collection. -/
  | notIterable (typeName : String)
  /-- A value cannot be compared for duplicates. -/
  | unhashable (typeName : String)
  /-- A signaling NaN cannot be compared for duplicates. -/
  | unhashableNan
  /-- A directory setting is not a text. -/
  | notADirectoryName (typeName : String)
  /-- A locales directory is not a path. -/
  | notAPath (typeName : String)
  /-- No record of the locale is loaded. -/
  | notLoaded (locale : String)
  /-- The key ledger is closed. -/
  | ledgerClosed
  /-- The build has no locale data. -/
  | notStarted
  /-- The build is not scanning. -/
  | notScanning
  /-- The file system refuses. -/
  | file (e : FileError)
  /-- A file's bytes are no UTF-8 text. -/
  | undecodable
  /-- JSON cannot hold a value of the type. -/
  | unwritable (typeName : String)
  /-- A text is not JSON; the wording says where. -/
  | malformedJson (description : String)
  /-- A value cannot be searched for match keys. -/
  | notSearchable (typeName : String)
  /-- A value that holds a match key has no case for it. -/
  | noCases (typeName : String)
  /-- A template is not a text. -/
  | notText (typeName : String)
  /-- A name is none of the listed names of an option. -/
  | notAnOption (name : String) (option : String)

namespace Error

/-- A list of texts in a message. -/
def listText (items : List String) : String := (Value.list (items.map Value.text)).quoted

/-- The wording of a failure. -/
def message? : Error → Option String
  | .fault f => f.message
  | .quantity q => q.message?
  | .noLocales => "At least one locale is required"
  | .localesAsText => "locales must be a sequence of locale codes, not a string"
  | .defaultNotListed subject default locales =>
    subject ++ " '" ++ default.display ++ "' is not one of " ++ listText locales
  | .unknownOption name => "Unknown i18n option: " ++ name
  | .notIterable typeName => "'" ++ typeName ++ "' object is not iterable"
  | .unhashable typeName => "unhashable type: '" ++ typeName ++ "'"
  | .unhashableNan => "Cannot hash a signaling NaN value"
  | .notADirectoryName "bytes" =>
    "endswith first arg must be bytes or a tuple of bytes, not str"
  | .notADirectoryName _ => none
  | .notAPath "bytes" =>
    "argument should be a str object or an os.PathLike object returning str, not <class 'bytes'>"
  | .notAPath typeName => "expected str, bytes or os.PathLike object, not " ++ typeName
  | .notLoaded locale => Text.quoted locale
  | .ledgerClosed => "KeyAccumulator is finalized; call reset() to start a new build pass"
  | .notStarted => "BuildPass.start() must run before locale data is available"
  | .notScanning => "BuildPass.transform() called outside the scan phase"
  | .file e => e.message?
  | .undecodable => none
  | .unwritable typeName => "Object of type " ++ typeName ++ " is not JSON serializable"
  | .malformedJson description => description
  | .notSearchable "bytes" => "a bytes-like object is required, not 'str'"
  | .notSearchable typeName => "argument of type '" ++ typeName ++ "' is not iterable"
  | .noCases "str" => "string indices must be integers, not 'str'"
  | .noCases typeName => typeName ++ " indices must be integers or slices, not str"
  | .notText "bytes" => "cannot use a string pattern on a bytes-like object"
  | .notText typeName => "expected string or bytes-like object, got '" ++ typeName ++ "'"
  | .notAnOption name option => Text.quoted name ++ " is not a valid " ++ option

end Error

end LocaleBundle
