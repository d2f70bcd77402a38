import LocaleBundle.Config
import LocaleBundle.Key
import LocaleBundle.Locale.Audit
import LocaleBundle.Plural.Rules

/-!
# Builds

A build goes through the same steps each time: `start` loads the locales,
`transform` hands each module to the transformer, which puts in placeholders and
notes keys, `finish` closes the key ledger and audits the locales, and `bundle`
replicates the output. Starting again forgets the build before.

The steps work on a site: the file tree, the build, and what the transformer
keeps for itself.
-/

namespace LocaleBundle

/-- Where a build is. -/
inductive Phase where
  | idle
  | scanning
  | audited
  deriving DecidableEq

/-- A build: its configuration and target, and what the steps leave. -/
structure Build where
  config : Config
  target : Target
  ledger : KeyLedger := {}
  store? : Option Locale.Store := none
  keySets? : Option KeySets := none
  phase : Phase := .idle

/-- What a build's steps work on. -/
structure Site (τ : Type) where
  tree : FileTree
  build : Build
  notes : τ

/-- What a transformer changes: the key ledger and its own notes. -/
structure Desk (τ : Type) where
  ledger : KeyLedger
  notes : τ

/-- A transformer takes a module's code and name, notes the keys it sees, and
gives the new code, or nothing if the module stays as it is. -/
abbrev Transformer (τ : Type) := (code moduleName : String) → Job (Desk τ) (Option String)

/-- The suffixes of modules that are handed to the transformer. -/
def moduleSuffixes : List String := ["cjs", "js", "mjs", "ts", "jsx", "tsx"]

/-- Whether a text, after a suffix, ends the name proper: by its end, a line feed
at the end, or a query. -/
def endsName (rest : List Char) : Bool :=
  rest = [] || rest = ['\n'] || rest.head? = some '?'

/-- Whether a dot with one of the suffixes ends the name proper of a module. -/
def isCodeModule : List Char → Bool
  | [] => false
  | c :: rest =>
    (c = '.' && moduleSuffixes.any fun suffix =>
      (Text.after? suffix.toList rest).any endsName) || isCodeModule rest

namespace Build

/-- Whether translations are put into the output. -/
def inlines (build : Build) : Bool := build.target.inlines

/-- The store of a build that was started. -/
def store (build : Build) : Except Error Locale.Store :=
  match build.store? with
  | none => .error .notStarted
  | some store => .ok store

/-- A store for the configured locales, with nothing loaded. Its files are sought
at the configured location, so only a directory below the working directory is
modelled (see `Config.location`). -/
def emptyStore (build : Build) : Locale.Store where
  locales := build.config.locales
  files := ⟨build.config.location⟩
  addMissing := build.config.addsMissing

end Build

namespace Site

variable {τ α : Type}

/-- A job on the build's locales: with the store that is given, on the tree and
the ledger of the site. What becomes of the store is for the caller to keep. -/
def withStore (store : Locale.Store) (job : Job Locale.Workspace α) :
    Job (Site τ) (Locale.Store × Except Error α) := fun site =>
  let step := job ⟨site.tree, store, site.build.ledger⟩
  let build := { site.build with ledger := step.state.ledger }
  let site := { site with tree := step.state.tree, build := build }
  ⟨site, .ok (step.state.store, step.result), step.log⟩

/-- Changes the build. -/
def changeBuild (change : Build → Build) : Job (Site τ) Unit :=
  Job.modify fun site => { site with build := change site.build }

/-- Begins a build: forgets the keys and loads the locales. Only a load that
succeeds gives the build its store. -/
def start : Job (Site τ) Locale.LoadReport := do
  changeBuild fun build =>
    { build with ledger := build.ledger.reset, keySets? := none, store? := none }
  let build := (← Job.get).build
  let (store, result) ← withStore build.emptyStore Locale.Workspace.load
  let report ← Job.ofExcept result
  changeBuild fun build => { build with store? := some store, phase := .scanning }
  return report

/-- The part of a site that a transformer works on. -/
def desk (site : Site τ) : Desk τ := ⟨site.build.ledger, site.notes⟩

/-- A site after a transformer's work. -/
def putDesk (site : Site τ) (desk : Desk τ) : Site τ :=
  { site with build := { site.build with ledger := desk.ledger }, notes := desk.notes }

/-- Hands a module to the transformer, if there is one and the build puts
translations in; other modules stay as they are. -/
def transform (transformer : Option (Transformer τ)) (code moduleName : String) :
    Job (Site τ) (Option String) := do
  let build := (← Job.get).build
  match transformer with
  | none => return none
  | some transformer =>
    if !build.inlines then return none
    else if !isCodeModule moduleName.toList then return none
    else if build.phase ≠ .scanning then Job.fail .notScanning
    else Job.within desk putDesk (transformer code moduleName)

/-- Closes the ledger and audits the locales. -/
def finish : Job (Site τ) (Option Locale.AuditReport) := do
  let build := (← Job.get).build
  if !build.inlines then return none
  else
    let store ← Job.ofExcept build.store
    let ledger := build.ledger.close
    changeBuild fun build => { build with ledger := ledger, keySets? := some ledger.sets }
    let (store, result) ← withStore store
      (Locale.Workspace.audit build.config.addsMissing ledger.keys)
    changeBuild fun build => { build with store? := some store }
    let report ← Job.ofExcept result
    changeBuild fun build => { build with phase := .audited }
    return some report

/-- The keys of the scan: those fixed when it was finished, or else those of the
ledger, which is closed. -/
def scannedKeys : Job (Site τ) KeySets := do
  let build := (← Job.get).build
  match build.keySets? with
  | some keys => return keys
  | none =>
    changeBuild fun build => { build with ledger := build.ledger.close }
    return build.ledger.sets

/-- Replicates the artifacts of a build's output. -/
def bundle [Plural.Cldr] (artifacts : List Bundle.Artifact) : Job (Site τ) (List Bundle.Artifact) := do
  let build := (← Job.get).build
  if !build.inlines then return []
  else
    let store ← Job.ofExcept build.store
    let keys ← scannedKeys
    let plan := Bundle.Plan.make keys.pluralKeys build.config.assetsDirectory
    Job.within (fun _ => []) (fun site _ => site) (plan.copyAll store artifacts)

end Site

end LocaleBundle
