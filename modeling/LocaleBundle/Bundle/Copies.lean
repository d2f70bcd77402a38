import LocaleBundle.Bundle.Artifact
import LocaleBundle.Locale.Store
import LocaleBundle.Plural.Table
import LocaleBundle.Token

/-!
# Copies for the locales

Every artifact in scope is copied once per locale, below a directory named for
the locale. Code has its placeholders replaced on the way: a key that is plural
in some locale becomes the JSON of its raw translation, which is resolved at run
time; any other key the JSON string of its text, with the captured arguments put
in if they suffice for the template.

A missing translation is its key's text. It is warned of once per locale and key;
the warnings made so far are all the state that copying has.
-/

namespace LocaleBundle.Bundle

/-- A directory with a slash at its end; an empty one is none. -/
def directoryName? (directory : Option String) : Option String :=
  match directory with
  | none => none
  | some d =>
    if d = "" then none
    else if Text.endsWith ['/'] d.toList then some d
    else some (d ++ "/")

/-- How copies are made: the keys that are left for run time, and the directory
to which copying is limited. -/
structure Plan where
  pluralKeys : List String
  assetsDirectory : Option String
  deriving DecidableEq

/-- A plan with its assets directory in normal form. -/
def Plan.make (pluralKeys : List String) (assetsDirectory : Option String) : Plan :=
  ⟨pluralKeys, directoryName? assetsDirectory⟩

/-- The locales and keys whose missing translations were warned of. -/
abbrev Warned := List (String × String)

namespace Plan

/-- The name of a locale's copy of an artifact; an artifact outside the assets
directory has none. -/
def target? (plan : Plan) (fileName locale : String) : Option String :=
  match plan.assetsDirectory with
  | none => some (locale ++ "/" ++ fileName)
  | some directory =>
    (Text.after? directory.toList fileName.toList).map fun rest =>
      directory ++ locale ++ "/" ++ String.ofList rest

/-- Warns of a missing translation, the first time. -/
def warnMissing (locale key : String) : Job Warned Unit := fun warned =>
  if (locale, key) ∈ warned then ⟨warned, .ok (), []⟩
  else
    ⟨warned ++ [(locale, key)], .ok (),
      [⟨.warning, (Diagnostic.missingTranslation key locale).message⟩]⟩

/-- The translation of a key in a locale, or the key itself. -/
def found (store : Locale.Store) (locale key : String) : Job Warned Value := do
  match ← Job.ofExcept (store.lookup locale key) with
  | some resolved => return resolved.value
  | none =>
    warnMissing locale key
    return .text key

/-- The JSON of a value on one line. -/
def literal (v : Value) : Except Error String :=
  match Json.encode .compact v with
  | .error typeName => .error (.unwritable typeName)
  | .ok cs => .ok (String.ofList cs)

variable [Plural.Cldr]

/-- The text of a translation for a call that is settled at build time. A
template with more slots than captured arguments is left as it is. -/
def settledText (translation : Value) (args : List Value) (key locale : String) : Logged String :=
  match translation with
  | .map table => Plural.Table.resolve table args key (some locale)
  | .text template =>
    if Template.isServed template args.length then return Template.fill template args
    else return template
  | v => Logged.fail (.notText v.fullTypeName)

/-- The literal that stands for a call in a locale. -/
def literalFor (plan : Plan) (store : Locale.Store) (locale key : String) (args : List Value) :
    Job Warned String := do
  let translation ← Plan.found store locale key
  if plan.pluralKeys.contains key then Job.ofExcept (literal translation)
  else
    let text ← Job.ofLogged (settledText translation args key locale)
    Job.ofExcept (literal (.text text))

/-- Code with its placeholders replaced for a locale. -/
def localize (plan : Plan) (store : Locale.Store) (code locale fileName : String) :
    Job Warned String :=
  let literal (token : CallToken) := plan.literalFor store locale token.key token.args
  Token.replace code locale literal fileName

/-- A locale's copy of an artifact, under its new name. -/
def copyFor (plan : Plan) (store : Locale.Store) (artifact : Artifact) (locale target : String) :
    Job Warned Artifact := do
  match artifact.code? with
  | some code =>
    let translated ← plan.localize store code locale artifact.fileName
    Job.record .debug ("translated " ++ artifact.fileName ++ " -> " ++ target)
    return { fileName := target, source := .text translated }
  | none =>
    Job.record .debug ("copied " ++ artifact.fileName ++ " -> " ++ target)
    return { fileName := target, source := artifact.source }

/-- The copies of an artifact for some locales; none if it is out of scope. -/
def copiesFor (plan : Plan) (store : Locale.Store) (artifact : Artifact) :
    List String → Job Warned (List Artifact)
  | [] => Job.ok []
  | locale :: rest =>
    match plan.target? artifact.fileName locale with
    | none => Job.ok []
    | some target => do
      let copy ← plan.copyFor store artifact locale target
      let copies ← copiesFor plan store artifact rest
      return copy :: copies

/-- The copies of an artifact, one per locale. -/
def copies (plan : Plan) (store : Locale.Store) (artifact : Artifact) :
    Job Warned (List Artifact) :=
  plan.copiesFor store artifact store.locales.codes

/-- The copies of all artifacts, in order. A failure leaves none. -/
def copyAll (plan : Plan) (store : Locale.Store) (artifacts : List Artifact) :
    Job Warned (List Artifact) := do
  let copies ← Job.forEach artifacts (plan.copies store)
  let inScope := copies.filter fun group => !group.isEmpty
  Job.record .info ("Replicated " ++ toString inScope.length ++ " artifacts into "
    ++ toString store.locales.codes.length ++ " locales (" ++ toString copies.flatten.length
    ++ " files)")
  return copies.flatten

end Plan

end LocaleBundle.Bundle
