import LocaleBundle.Build
import LocaleBundle.Proofs.Locale.Consistent

/-!
# Histories of a build

The steps of a build may be called in any order, any number of times, and a step that fails may be
followed by any other. Between the calls the files may change. Each call is an event, and a history
is what a site has become after some events; what holds of a fresh build and is kept by every event
holds of all histories.
-/

namespace LocaleBundle

namespace KeyLedger

/-- Whether a ledger became another one by noting keys. -/
inductive Noted (ledger : KeyLedger) : KeyLedger → Prop
  | refl : Noted ledger ledger
  | keys {middle after : KeyLedger} (keys : List String) (h : Noted ledger middle)
    (hnote : middle.noteAll keys = .ok after) : Noted ledger after
  | plural {middle after : KeyLedger} (key : String) (h : Noted ledger middle)
    (hnote : middle.notePlural key = .ok after) : Noted ledger after

variable {ledger after : KeyLedger}

lemma noteAll_ok {keys : List String} (h : ledger.noteAll keys = .ok after) :
    after = { ledger with keys := TextSet.adjoinAll ledger.keys keys } := by
  unfold noteAll at h
  split at h
  · exact absurd h (by simp)
  · exact (Except.ok.inj h).symm

lemma notePlural_ok {key : String} (h : ledger.notePlural key = .ok after) :
    after = ledger.withPlurals [key] := by
  unfold notePlural at h
  split at h
  · exact absurd h (by simp)
  · exact (Except.ok.inj h).symm

/-- Noting keys neither closes nor opens a ledger, and no plural key is lost. -/
lemma Noted.keeps (h : Noted ledger after) :
    after.closed = ledger.closed ∧ ∀ key ∈ ledger.pluralKeys, key ∈ after.pluralKeys := by
  induction h with
  | refl => exact ⟨rfl, fun _ hkey => hkey⟩
  | keys keys _ hnote ih =>
    rw [noteAll_ok hnote]
    exact ih
  | plural other _ hnote ih =>
    rw [notePlural_ok hnote]
    exact ⟨ih.1, fun key hkey => TextSet.mem_adjoinAll.mpr (Or.inl (ih.2 key hkey))⟩

end KeyLedger

/-- Whether a transformer changes the ledger by noting keys only. -/
def Transformer.OnlyNotes {τ : Type} (transformer : Transformer τ) : Prop :=
  ∀ code moduleName desk,
    KeyLedger.Noted desk.ledger (transformer code moduleName desk).state.ledger

namespace Build

/-- The keys of the scan: those fixed when it was finished, or else those of the ledger. -/
def scanned (build : Build) : KeySets := build.keySets?.getD build.ledger.sets

/-- How copies of the output are made. -/
def plan (build : Build) : Bundle.Plan :=
  Bundle.Plan.make build.scanned.pluralKeys build.config.assetsDirectory

end Build

namespace Site

open Locale

variable {τ : Type} {site : Site τ} {store : Store}

/-! ## What a step does -/

lemma outcome_withStore {α : Type} (store : Store) (job : Job Workspace α) (site : Site τ) :
    Job.outcome (withStore store job) site =
      let done := job ⟨site.tree, store, site.build.ledger⟩
      ({ site with
          tree := done.state.tree, build := { site.build with ledger := done.state.ledger } },
        .ok (done.state.store, done.result)) := rfl

/-- The workspace in which a start loads the locales. -/
def loading (site : Site τ) : Workspace := ⟨site.tree, site.build.emptyStore, {}⟩

/-- A site in which a start has begun and no store is loaded yet. -/
def afterLoad (site : Site τ) (after : Workspace) : Site τ where
  tree := after.tree
  build := { site.build with ledger := after.ledger, keySets? := none, store? := none }
  notes := site.notes

/-- A site that scans with the store that was loaded. -/
def afterStart (site : Site τ) (after : Workspace) : Site τ :=
  { site.afterLoad after with build := { (site.afterLoad after).build with
      store? := some after.store, phase := .scanning } }

/-- A start is a load; what it does with the store depends on the outcome. -/
lemma outcome_start (site : Site τ) : Job.outcome start site =
    let after := (Workspace.load site.loading).state
    Job.outcome (Job.bind (Job.ofExcept (Workspace.load site.loading).result) fun report =>
        Job.bind (changeBuild fun build =>
          { build with store? := some after.store, phase := .scanning }) fun _ => Job.ok report)
      (site.afterLoad after) := by
  unfold start
  -- the ledger is reset and the store dropped before the load, whatever the load comes to
  simp only [Job.bind_eq, changeBuild, Job.outcome_bind_modify, Job.outcome_bind_get]
  exact Job.outcome_bind_ok (outcome_withStore _ _ _)

/-- A start that fails leaves no store, and the phase as it was. -/
lemma outcome_start_error {e : Error} (h : (Workspace.load site.loading).result = .error e) :
    Job.outcome start site = (site.afterLoad (Workspace.load site.loading).state, .error e) := by
  rw [outcome_start, h]
  exact Job.outcome_bind_ofExcept_error

/-- A start that returns leaves the store that was loaded, and begins to scan. -/
lemma outcome_start_ok {report : LoadReport}
    (h : (Workspace.load site.loading).result = .ok report) :
    Job.outcome start site = (site.afterStart (Workspace.load site.loading).state, .ok report) := by
  rw [outcome_start, h]
  simp only [changeBuild, Job.outcome_bind_ofExcept_ok, Job.outcome_bind_modify, Job.outcome_ok]
  rfl

/-- A start ends as its load does. -/
lemma result_start (site : Site τ) :
    (start site).result = (Workspace.load site.loading).result := by
  cases hload : (Workspace.load site.loading).result with
  | error e => exact (Prod.mk.inj (outcome_start_error hload)).2
  | ok report => exact (Prod.mk.inj (outcome_start_ok hload)).2

/-- The workspace in which a scan is audited. -/
def auditing (site : Site τ) (store : Store) : Workspace :=
  ⟨site.tree, store, site.build.ledger.close⟩

/-- A site whose scan was audited. -/
def afterAudit (site : Site τ) (after : Workspace) : Site τ where
  tree := after.tree
  build := { site.build with
    ledger := after.ledger, store? := some after.store, keySets? := some site.build.ledger.sets }
  notes := site.notes

/-- A site whose scan was audited without a failure. -/
def afterFinish (site : Site τ) (after : Workspace) : Site τ :=
  { site.afterAudit after with build := { (site.afterAudit after).build with phase := .audited } }

/-- The audit of a scan. -/
def audit (site : Site τ) (store : Store) : Step Workspace AuditReport :=
  Workspace.audit site.build.config.addsMissing site.build.ledger.keys (site.auditing store)

/-- A finish closes the ledger, fixes the keys and audits the locales. -/
lemma outcome_finish (hinlines : site.build.inlines = true)
    (hstore : site.build.store? = some store) :
    Job.outcome finish site =
      Job.outcome (Job.bind (Job.ofExcept (site.audit store).result) fun report =>
        Job.bind (changeBuild fun build => { build with phase := .audited }) fun _ =>
          Job.ok (some report)) (site.afterAudit (site.audit store).state) := by
  unfold finish
  simp only [Job.bind_eq, Job.outcome_bind_get, hinlines, Bool.not_true, Bool.false_eq_true,
    if_false, Build.store, hstore, Job.outcome_bind_ofExcept_ok, changeBuild,
    Job.outcome_bind_modify]
  -- the audited store is kept before the outcome of the audit is looked at
  rw [Job.outcome_bind_ok (outcome_withStore _ _ _)]
  exact Job.outcome_bind_modify

/-- A finish whose audit fails leaves the phase as it was. -/
lemma outcome_finish_error (hinlines : site.build.inlines = true)
    (hstore : site.build.store? = some store) {e : Error}
    (h : (site.audit store).result = .error e) :
    Job.outcome finish site = (site.afterAudit (site.audit store).state, .error e) := by
  rw [outcome_finish hinlines hstore, h]
  exact Job.outcome_bind_ofExcept_error

/-- A finish that returns ends the scan. -/
lemma outcome_finish_ok (hinlines : site.build.inlines = true)
    (hstore : site.build.store? = some store) {report : AuditReport}
    (h : (site.audit store).result = .ok report) :
    Job.outcome finish site = (site.afterFinish (site.audit store).state, .ok (some report)) := by
  rw [outcome_finish hinlines hstore, h]
  simp only [changeBuild, Job.outcome_bind_ofExcept_ok, Job.outcome_bind_modify, Job.outcome_ok]
  rfl

/-- A site with the keys of its scan fixed. -/
def afterScan (site : Site τ) : Site τ :=
  match site.build.keySets? with
  | some _ => site
  | none => { site with build := { site.build with ledger := site.build.ledger.close } }

lemma outcome_scannedKeys (site : Site τ) :
    Job.outcome scannedKeys site = (site.afterScan, .ok site.build.scanned) := by
  unfold scannedKeys afterScan Build.scanned
  simp only [Job.bind_eq, Job.outcome_bind_get]
  cases hsets : site.build.keySets? with
  | some sets => rfl
  | none =>
    simp only [changeBuild, Job.outcome_bind_modify, Job.pure_eq, Job.outcome_ok, hsets]
    rfl

section

variable [Plural.Cldr]

/-- A bundle is made of the copies that the build's plan gives in its store. -/
lemma outcome_bundle (artifacts : List Bundle.Artifact) (hinlines : site.build.inlines = true)
    (hstore : site.build.store? = some store) :
    Job.outcome (bundle artifacts) site =
      (site.afterScan, (site.build.plan.copyAll store artifacts []).result) := by
  unfold bundle
  simp only [Job.bind_eq, Job.outcome_bind_get, hinlines, Bool.not_true, Bool.false_eq_true,
    if_false, Build.store, hstore, Job.outcome_bind_ofExcept_ok]
  rw [Job.outcome_bind_ok (outcome_scannedKeys site)]
  rfl

/-- Without a store, neither a finish nor a bundle goes on. -/
lemma outcome_of_not_started (artifacts : List Bundle.Artifact)
    (hinlines : site.build.inlines = true) (hstore : site.build.store? = none) :
    Job.outcome finish site = (site, .error .notStarted) ∧
      Job.outcome (bundle artifacts) site = (site, .error .notStarted) := by
  unfold finish bundle
  simp only [Job.bind_eq, Job.outcome_bind_get, hinlines, Bool.not_true, Bool.false_eq_true,
    if_false, Build.store, hstore, Job.outcome_bind_ofExcept_error, and_self]

/-- A build that does not put translations in is neither finished nor bundled. -/
lemma outcome_of_not_inlines (artifacts : List Bundle.Artifact)
    (hinlines : site.build.inlines = false) :
    Job.outcome finish site = (site, .ok none) ∧
      Job.outcome (bundle artifacts) site = (site, .ok []) := by
  unfold finish bundle
  simp only [Job.bind_eq, Job.outcome_bind_get, hinlines, Bool.not_false, if_true, Job.pure_eq,
    Job.outcome_ok, and_self]

end

/-- A module of code is handed to the transformer of a build that scans, and refused otherwise. -/
lemma outcome_transform (transformer : Transformer τ) (code : String) {moduleName : String}
    (hinlines : site.build.inlines = true) (hmodule : isCodeModule moduleName.toList = true) :
    Job.outcome (transform (some transformer) code moduleName) site =
      if site.build.phase = .scanning then
        (site.putDesk (transformer code moduleName site.desk).state,
          (transformer code moduleName site.desk).result)
      else (site, .error .notScanning) := by
  unfold transform
  simp only [Job.bind_eq, Job.outcome_bind_get, hinlines, hmodule, Bool.not_true,
    Bool.false_eq_true, if_false]
  by_cases hphase : site.build.phase = .scanning
  · rw [if_neg (not_not.mpr hphase), if_pos hphase]
    rfl
  · rw [if_pos hphase, if_neg hphase]
    rfl

/-- A build without a transformer, or one that does not put translations in, leaves modules alone,
as does any build a module that is not code. -/
lemma outcome_transform_none {transformer : Option (Transformer τ)} {moduleName : String}
    (code : String) (h : transformer = none ∨ site.build.inlines = false ∨
      isCodeModule moduleName.toList = false) :
    Job.outcome (transform transformer code moduleName) site = (site, .ok none) := by
  unfold transform
  simp only [Job.bind_eq, Job.outcome_bind_get]
  cases transformer with
  | none => rfl
  | some t =>
    by_cases hinlines : site.build.inlines = true
    · have hmodule : isCodeModule moduleName.toList = false := by simpa [hinlines] using h
      simp only [hinlines, hmodule, Bool.not_true, Bool.not_false, Bool.false_eq_true, if_false,
        if_true, Job.pure_eq, Job.outcome_ok]
    · simp only [hinlines, Bool.not_false, if_true, Job.pure_eq, Job.outcome_ok]

end Site

/-! ## Histories -/

/-- What may happen to a build: a call of one of its steps, or a change of the files by others. -/
inductive Event where
  | start
  | transform (code moduleName : String)
  | finish
  | bundle (artifacts : List Bundle.Artifact)
  | edit (tree : FileTree)

/-- A site after some events, and the store as the latest start loaded it, if it succeeded. -/
structure History (τ : Type) where
  site : Site τ
  loaded? : Option Locale.Store

namespace History

variable {τ : Type}

/-- A build to which nothing has happened yet. -/
def fresh (config : Config) (target : Target) (tree : FileTree) (notes : τ) : History τ :=
  ⟨⟨tree, { config := config, target := target }, notes⟩, none⟩

variable [Plural.Cldr]

/-- A history with one more event, whether its step succeeds or fails. -/
def step (transformer : Option (Transformer τ)) (h : History τ) : Event → History τ
  | .start =>
    let started := Site.start h.site
    match started.result with
    | .error _ => ⟨started.state, none⟩
    | .ok _ => ⟨started.state, started.state.build.store?⟩
  | .transform code moduleName =>
    { h with site := (Site.transform transformer code moduleName h.site).state }
  | .finish => { h with site := (Site.finish h.site).state }
  | .bundle artifacts => { h with site := (Site.bundle artifacts h.site).state }
  | .edit tree => { h with site := { h.site with tree := tree } }

/-- A history with some more events. -/
def run (transformer : Option (Transformer τ)) (h : History τ) (events : List Event) : History τ :=
  events.foldl (step transformer) h

/-- What an event leads to from a history. -/
inductive Leads (transformer : Option (Transformer τ)) (h : History τ) : Event → History τ → Prop
  | startError {e : Error} (hload : (Locale.Workspace.load h.site.loading).result = .error e) :
    Leads transformer h .start ⟨h.site.afterLoad (Locale.Workspace.load h.site.loading).state, none⟩
  | startOk {report : Locale.LoadReport}
    (hload : (Locale.Workspace.load h.site.loading).result = .ok report) :
    Leads transformer h .start ⟨h.site.afterStart (Locale.Workspace.load h.site.loading).state,
      some (Locale.Workspace.load h.site.loading).state.store⟩
  | transform {t : Transformer τ} (code moduleName : String) (ht : t ∈ transformer)
    (hphase : h.site.build.phase = .scanning) :
    Leads transformer h (.transform code moduleName)
      { h with site := h.site.putDesk (t code moduleName h.site.desk).state }
  | finishError {store : Locale.Store} {e : Error} (hstore : h.site.build.store? = some store)
    (haudit : (h.site.audit store).result = .error e) :
    Leads transformer h .finish { h with site := h.site.afterAudit (h.site.audit store).state }
  | finishOk {store : Locale.Store} {report : Locale.AuditReport}
    (hstore : h.site.build.store? = some store)
    (haudit : (h.site.audit store).result = .ok report) :
    Leads transformer h .finish { h with site := h.site.afterFinish (h.site.audit store).state }
  | bundle {store : Locale.Store} (artifacts : List Bundle.Artifact)
    (hstore : h.site.build.store? = some store) :
    Leads transformer h (.bundle artifacts) { h with site := h.site.afterScan }
  | edit (tree : FileTree) :
    Leads transformer h (.edit tree) { h with site := { h.site with tree := tree } }
  | skip {event : Event} (hevent : event ≠ .start) : Leads transformer h event h

variable {transformer : Option (Transformer τ)} {h : History τ} {P : History τ → Prop}

lemma run_cons (event : Event) (events : List Event) :
    h.run transformer (event :: events) = (h.step transformer event).run transformer events := rfl

lemma run_concat (events : List Event) (event : Event) :
    h.run transformer (events ++ [event]) = (h.run transformer events).step transformer event :=
  List.foldl_concat ..

lemma run_append (earlier later : List Event) :
    h.run transformer (earlier ++ later) = (h.run transformer earlier).run transformer later :=
  List.foldl_append ..

lemma step_start_ok {report : Locale.LoadReport}
    (hload : (Locale.Workspace.load h.site.loading).result = .ok report) :
    h.step transformer .start = ⟨h.site.afterStart (Locale.Workspace.load h.site.loading).state,
      some (Locale.Workspace.load h.site.loading).state.store⟩ := by
  obtain ⟨hstate, hresult⟩ := Prod.mk.inj (Site.outcome_start_ok hload)
  simp only [step, hstate, hresult]
  rfl

lemma leads_start (transformer : Option (Transformer τ)) (h : History τ) :
    Leads transformer h .start (h.step transformer .start) := by
  cases hload : (Locale.Workspace.load h.site.loading).result with
  | error e =>
    obtain ⟨hstate, hresult⟩ := Prod.mk.inj (Site.outcome_start_error hload)
    simp only [step, hstate, hresult]
    exact .startError hload
  | ok report =>
    rw [step_start_ok hload]
    exact .startOk hload

lemma leads_transform (transformer : Option (Transformer τ)) (h : History τ)
    (code moduleName : String) : Leads transformer h (.transform code moduleName)
      (h.step transformer (.transform code moduleName)) := by
  cases transformer with
  | none =>
    have houtcome : Job.outcome (Site.transform none code moduleName) h.site = (h.site, .ok none) :=
      Site.outcome_transform_none code (Or.inl rfl)
    simp only [step, (Prod.mk.inj houtcome).1]
    exact .skip (by simp)
  | some t =>
    by_cases hcode : h.site.build.inlines = true ∧ isCodeModule moduleName.toList = true
    · have houtcome := Site.outcome_transform t code hcode.1 hcode.2
      by_cases hphase : h.site.build.phase = .scanning
      · rw [if_pos hphase] at houtcome
        simp only [step, (Prod.mk.inj houtcome).1]
        exact .transform code moduleName rfl hphase
      · rw [if_neg hphase] at houtcome
        simp only [step, (Prod.mk.inj houtcome).1]
        exact .skip (by simp)
    · rw [not_and_or, Bool.not_eq_true, Bool.not_eq_true] at hcode
      have houtcome : Job.outcome (Site.transform (some t) code moduleName) h.site =
          (h.site, .ok none) := Site.outcome_transform_none code (Or.inr hcode)
      simp only [step, (Prod.mk.inj houtcome).1]
      exact .skip (by simp)

lemma leads_finish (transformer : Option (Transformer τ)) (h : History τ) :
    Leads transformer h .finish (h.step transformer .finish) := by
  by_cases hinlines : h.site.build.inlines = true
  · cases hstore : h.site.build.store? with
    | none =>
      have houtcome := (Site.outcome_of_not_started [] hinlines hstore).1
      simp only [step, (Prod.mk.inj houtcome).1]
      exact .skip (by simp)
    | some store =>
      cases haudit : (h.site.audit store).result with
      | error e =>
        simp only [step, (Prod.mk.inj (Site.outcome_finish_error hinlines hstore haudit)).1]
        exact .finishError hstore haudit
      | ok report =>
        simp only [step, (Prod.mk.inj (Site.outcome_finish_ok hinlines hstore haudit)).1]
        exact .finishOk hstore haudit
  · have houtcome := (Site.outcome_of_not_inlines [] (Bool.not_eq_true _ ▸ hinlines)).1
    simp only [step, (Prod.mk.inj houtcome).1]
    exact .skip (by simp)

lemma leads_bundle (transformer : Option (Transformer τ)) (h : History τ)
    (artifacts : List Bundle.Artifact) :
    Leads transformer h (.bundle artifacts) (h.step transformer (.bundle artifacts)) := by
  by_cases hinlines : h.site.build.inlines = true
  · cases hstore : h.site.build.store? with
    | none =>
      have houtcome := (Site.outcome_of_not_started artifacts hinlines hstore).2
      simp only [step, (Prod.mk.inj houtcome).1]
      exact .skip (by simp)
    | some store =>
      simp only [step, (Prod.mk.inj (Site.outcome_bundle artifacts hinlines hstore)).1]
      exact .bundle artifacts hstore
  · have houtcome := (Site.outcome_of_not_inlines artifacts (Bool.not_eq_true _ ▸ hinlines)).2
    simp only [step, (Prod.mk.inj houtcome).1]
    exact .skip (by simp)

/-- Each event leads where its step does. -/
lemma leads_step (transformer : Option (Transformer τ)) (h : History τ) (event : Event) :
    Leads transformer h event (h.step transformer event) := by
  cases event with
  | start => exact leads_start transformer h
  | transform code moduleName => exact leads_transform transformer h code moduleName
  | finish => exact leads_finish transformer h
  | bundle artifacts => exact leads_bundle transformer h artifacts
  | edit tree => exact .edit tree

/-- No event changes the configuration, or what is being built. -/
lemma setup_step (transformer : Option (Transformer τ)) (h : History τ) (event : Event) :
    (h.step transformer event).site.build.config = h.site.build.config ∧
      (h.step transformer event).site.build.target = h.site.build.target := by
  have hleads := leads_step transformer h event
  generalize h.step transformer event = after at hleads
  cases hleads with
  | bundle artifacts hstore =>
    show h.site.afterScan.build.config = h.site.build.config ∧
      h.site.afterScan.build.target = h.site.build.target
    unfold Site.afterScan
    split
    · exact ⟨rfl, rfl⟩
    · exact ⟨rfl, rfl⟩
  | _ => exact ⟨rfl, rfl⟩

lemma target_step (transformer : Option (Transformer τ)) (h : History τ) (event : Event) :
    (h.step transformer event).site.build.target = h.site.build.target :=
  (setup_step transformer h event).2

/-- Only a start and a finish change the phase, the store or the keys that are fixed. -/
lemma stays_step (transformer : Option (Transformer τ)) (h : History τ) {event : Event}
    (hstart : event ≠ .start) (hfinish : event ≠ .finish) :
    (h.step transformer event).site.build.phase = h.site.build.phase ∧
      (h.step transformer event).site.build.store? = h.site.build.store? ∧
      (h.step transformer event).site.build.keySets? = h.site.build.keySets? := by
  have hleads := leads_step transformer h event
  generalize h.step transformer event = after at hleads
  cases hleads with
  | startError hload => exact absurd rfl hstart
  | startOk hload => exact absurd rfl hstart
  | finishError hstore haudit => exact absurd rfl hfinish
  | finishOk hstore haudit => exact absurd rfl hfinish
  | bundle artifacts hstore =>
    show h.site.afterScan.build.phase = h.site.build.phase ∧
      h.site.afterScan.build.store? = h.site.build.store? ∧
      h.site.afterScan.build.keySets? = h.site.build.keySets?
    unfold Site.afterScan
    split
    · exact ⟨rfl, rfl, rfl⟩
    · exact ⟨rfl, rfl, rfl⟩
  | _ => exact ⟨rfl, rfl, rfl⟩

/-- What every event keeps is kept by all events. -/
lemma run_induction (hstep : ∀ h event, P h → P (h.step transformer event)) (hstart : P h)
    (events : List Event) : P (h.run transformer events) := by
  induction events generalizing h with
  | nil => exact hstart
  | cons event events ih => exact ih (hstep h event hstart)

lemma target_run (transformer : Option (Transformer τ)) (h : History τ) (events : List Event) :
    (h.run transformer events).site.build.target = h.site.build.target :=
  run_induction (P := fun after => after.site.build.target = h.site.build.target)
    (fun after event hafter => (target_step transformer after event).trans hafter) rfl events

lemma inlines_step (transformer : Option (Transformer τ)) (h : History τ) (event : Event) :
    (h.step transformer event).site.build.inlines = h.site.build.inlines :=
  congrArg Target.inlines (target_step transformer h event)

lemma inlines_run (transformer : Option (Transformer τ)) (h : History τ) (events : List Event) :
    (h.run transformer events).site.build.inlines = h.site.build.inlines :=
  congrArg Target.inlines (target_run transformer h events)

lemma config_run (transformer : Option (Transformer τ)) (h : History τ) (events : List Event) :
    (h.run transformer events).site.build.config = h.site.build.config :=
  run_induction (P := fun after => after.site.build.config = h.site.build.config)
    (fun after event hafter => (setup_step transformer after event).1.trans hafter) rfl events

/-- Only a start changes which store is the one that was loaded. -/
lemma loaded?_run {events : List Event} (hevents : ∀ event ∈ events, event ≠ .start) :
    (h.run transformer events).loaded? = h.loaded? := by
  induction events generalizing h with
  | nil => rfl
  | cons event events ih =>
    obtain ⟨hfirst, hrest⟩ := List.forall_mem_cons.mp hevents
    have hstep : (h.step transformer event).loaded? = h.loaded? := by
      cases event with
      | start => exact absurd rfl hfirst
      | _ => rfl
    rw [run_cons, ih hrest, hstep]

end History

end LocaleBundle
