import LocaleBundle.Proofs.Build.Gate

/-!
# The latest start

What a finish and a bundle work on is settled by the latest start. If it has failed, or if there was
none, they give an error and change nothing, whatever earlier starts have loaded. If it succeeded,
they read the records that it loaded, which finishes may have filled in since, and a bundle leaves
for run time what the latest finish since has fixed, or what is in the ledger if there was none.
-/

namespace LocaleBundle

open Locale

/-- An audit does nothing to a store but fill it in, if missing keys are added, with keys of the
ledger. -/
lemma Site.filledIn_audit {τ : Type} {site : Site τ} {store loaded : Store} {noted : String → Prop}
    (hfilled : loaded.FilledIn noted store)
    (hkeys : site.build.config.addsMissing = true → ∀ key ∈ site.build.ledger.keys, noted key) :
    loaded.FilledIn noted (site.audit store).state.store :=
  Workspace.filledIn_audit hfilled hkeys

namespace History

section

variable [Plural.Cldr] {τ : Type} {transformer : Option (Transformer τ)} {h began : History τ}
  {events earlier later : List Event} {loaded store : Store}

/-- Whether the latest start among some events has succeeded: the events are those before it, the
start, and those after it. -/
structure LatestStart (transformer : Option (Transformer τ)) (h : History τ)
    (events earlier later : List Event) : Prop where
  split : events = earlier ++ .start :: later
  latest : .start ∉ later
  starts : Starts (h.run transformer earlier)

/-- Whether a finish among the events after a start may have filled in a key: missing keys are
added, and the key was in the ledger. -/
def Backfills (transformer : Option (Transformer τ)) (began : History τ) (events : List Event)
    (key : String) : Prop :=
  began.site.build.config.addsMissing = true ∧ ∃ before, before ++ [.finish] <+: events ∧
    key ∈ (began.run transformer before).site.build.ledger.keys

/-- The keys that are scanned by the events after a start: those in the ledger at the latest finish,
or those in the ledger now if there was none. -/
inductive Snapshot (transformer : Option (Transformer τ)) (began : History τ)
    (events : List Event) : KeySets → Prop
  | unfinished (hfinish : .finish ∉ events) :
    Snapshot transformer began events (began.run transformer events).site.build.ledger.sets
  | finished {before after : List Event} (hsplit : events = before ++ .finish :: after)
    (hfinish : .finish ∉ after) :
    Snapshot transformer began events (began.run transformer before).site.build.ledger.sets

/-- What a start at a point of a history and some events after it come to: a store and key sets
that a finish and a bundle work on, and that nothing from before the start is part of. -/
structure Pass (transformer : Option (Transformer τ)) (h : History τ) (later : List Event)
    (artifacts : List Bundle.Artifact) (after : Site τ) (store : Store) (sets : KeySets) : Prop where
  opens : (h.step transformer .start).site.build.ledger =
    ({} : KeyLedger).withPlurals (Workspace.load h.site.loading).state.store.tableKeys
  filledIn : (Workspace.load h.site.loading).state.store.FilledIn
    (Backfills transformer (h.step transformer .start) later) store
  snapshot : Snapshot transformer (h.step transformer .start) later sets
  audits : (Site.finish after).result = (after.audit store).result.map some ∧
    (Site.finish after).state.tree = (after.audit store).state.tree
  copies : (Site.bundle artifacts after).result =
    ((Bundle.Plan.make sets.pluralKeys h.site.build.config.assetsDirectory).copyAll
      store artifacts []).result

/-! ## Without a start that has succeeded -/

lemma LatestStart.concat {event : Event} (hlatest : LatestStart transformer h events earlier later)
    (hstart : event ≠ .start) :
    LatestStart transformer h (events ++ [event]) earlier (later ++ [event]) where
  split := by rw [hlatest.split, List.append_assoc, List.cons_append]
  latest := by simpa [hlatest.latest] using hstart.symm
  starts := hlatest.starts

lemma store?_step_start (hstarts : ¬ Starts h) :
    (h.step transformer .start).site.build.store? = none := by
  cases hload : (Workspace.load h.site.loading).result with
  | error e =>
    obtain ⟨hstate, hresult⟩ := Prod.mk.inj (Site.outcome_start_error hload)
    simp [step, hstate, hresult, Site.afterLoad]
  | ok report => exact absurd ⟨report, (Site.result_start h.site).trans hload⟩ hstarts

/-- Without a store, no event but a start gives one. -/
lemma store?_step_none (hstore : h.site.build.store? = none) {event : Event}
    (hstart : event ≠ .start) : (h.step transformer event).site.build.store? = none := by
  have hleads := leads_step transformer h event
  generalize h.step transformer event = after at hleads
  cases hleads with
  | startError hload => exact absurd rfl hstart
  | startOk hload => exact absurd rfl hstart
  | finishError hsome haudit => exact absurd (hsome.symm.trans hstore) (by simp)
  | finishOk hsome haudit => exact absurd (hsome.symm.trans hstore) (by simp)
  | bundle artifacts hsome => exact absurd (hsome.symm.trans hstore) (by simp)
  | _ => exact hstore

/-- Where the latest start has failed or there was none, there is no store. -/
lemma store?_run_none (hstore : h.site.build.store? = none) (events : List Event)
    (hnone : ¬ ∃ earlier later, LatestStart transformer h events earlier later) :
    (h.run transformer events).site.build.store? = none := by
  induction events using List.reverseRecOn with
  | nil => exact hstore
  | append_singleton events event ih =>
    rw [run_concat]
    by_cases hstart : event = .start
    · subst hstart
      exact store?_step_start fun hstarts => hnone ⟨events, [], rfl, List.not_mem_nil, hstarts⟩
    · refine store?_step_none (ih ?_) hstart
      rintro ⟨earlier, later, hlatest⟩
      exact hnone ⟨earlier, later ++ [event], hlatest.concat hstart⟩

/-! ## After a start that has succeeded -/

/-- A finish keeps the store that it has audited, and fixes the keys in the ledger. -/
lemma step_finish (transformer : Option (Transformer τ)) (hinlines : h.site.build.inlines = true)
    (hstore : h.site.build.store? = some store) :
    (h.step transformer .finish).site.build.store? = some (h.site.audit store).state.store ∧
      (h.step transformer .finish).site.build.keySets? = some h.site.build.ledger.sets := by
  cases haudit : (h.site.audit store).result with
  | error e =>
    obtain ⟨hstate, -⟩ := Prod.mk.inj (Site.outcome_finish_error hinlines hstore haudit)
    simp only [step, hstate]
    exact ⟨rfl, rfl⟩
  | ok report =>
    obtain ⟨hstate, -⟩ := Prod.mk.inj (Site.outcome_finish_ok hinlines hstore haudit)
    simp only [step, hstate]
    exact ⟨rfl, rfl⟩

/-- What holds after a start that has loaded a store, and some events that are no starts. -/
structure Continues (transformer : Option (Transformer τ)) (began : History τ) (loaded : Store)
    (events : List Event) : Prop where
  store : ∃ store, (began.run transformer events).site.build.store? = some store ∧
    loaded.FilledIn (Backfills transformer began events) store
  unfixed : (began.run transformer events).site.build.keySets? = none ↔ .finish ∉ events
  scanned : Snapshot transformer began events (began.run transformer events).site.build.scanned

lemma continues_start (hstarts : Starts h) : Continues transformer (h.step transformer .start)
    (Workspace.load h.site.loading).state.store [] := by
  obtain ⟨report, hreport⟩ := hstarts
  rw [step_start_ok ((Site.result_start h.site).symm.trans hreport)]
  refine ⟨⟨_, rfl, .refl _ _⟩, by simp [run, Site.afterStart, Site.afterLoad], ?_⟩
  exact .unfinished List.not_mem_nil

lemma Backfills.concat {key : String} (hkey : Backfills transformer began events key)
    (event : Event) : Backfills transformer began (events ++ [event]) key := by
  obtain ⟨hadds, before, hbefore, hnoted⟩ := hkey
  exact ⟨hadds, before, hbefore.trans (List.prefix_append ..), hnoted⟩

lemma Continues.finish (hcontinues : Continues transformer began loaded events)
    (hinlines : began.site.build.inlines = true) :
    Continues transformer began loaded (events ++ [.finish]) := by
  obtain ⟨store, hstore, hfilled⟩ := hcontinues.store
  have hinlines' : (began.run transformer events).site.build.inlines = true :=
    (inlines_run ..).trans hinlines
  obtain ⟨haudited, hsets⟩ := step_finish transformer hinlines' hstore
  rw [← run_concat] at haudited hsets
  refine ⟨⟨_, haudited, ?_⟩, by simp [hsets], ?_⟩
  · refine Site.filledIn_audit (hfilled.imp fun key hkey => hkey.concat .finish) ?_
    intro hadds key hkey
    rw [config_run] at hadds
    exact ⟨hadds, events, List.prefix_rfl, hkey⟩
  · rw [Build.scanned, hsets]
    exact .finished rfl List.not_mem_nil

lemma Continues.concat (hcontinues : Continues transformer began loaded events) {event : Event}
    (hstart : event ≠ .start) (hfinish : event ≠ .finish) :
    Continues transformer began loaded (events ++ [event]) := by
  obtain ⟨store, hstore, hfilled⟩ := hcontinues.store
  obtain ⟨-, hstore', hsets⟩ := stays_step transformer (began.run transformer events) hstart hfinish
  rw [← run_concat] at hstore' hsets
  have hmem : Event.finish ∉ events ++ [event] ↔ .finish ∉ events := by simp [hfinish.symm]
  refine ⟨⟨store, hstore'.trans hstore, hfilled.imp fun key hkey => hkey.concat event⟩, ?_, ?_⟩
  · rw [hsets, hcontinues.unfixed, hmem]
  · by_cases hnone : Event.finish ∉ events
    · -- the keys are not fixed, neither before the event nor after it
      rw [Build.scanned, hsets, hcontinues.unfixed.mpr hnone]
      exact .unfinished (hmem.mpr hnone)
    · obtain ⟨sets, hsome⟩ := Option.ne_none_iff_exists'.mp (mt hcontinues.unfixed.mp hnone)
      have hscanned := hcontinues.scanned
      rw [Build.scanned, hsome] at hscanned
      rw [Build.scanned, hsets, hsome]
      simp only [Option.getD_some] at hscanned ⊢
      cases hscanned with
      | unfinished hfinish' => exact absurd hfinish' hnone
      | @finished before after hsplit hafter =>
        have hsplit' : events ++ [event] = before ++ .finish :: (after ++ [event]) := by
          rw [hsplit, List.append_assoc, List.cons_append]
        exact .finished hsplit' (by simp [hafter, hfinish.symm])

/-- Events that are no starts continue from the latest one. -/
lemma continues_run (hstart : Continues transformer began loaded [])
    (hinlines : began.site.build.inlines = true) (hevents : .start ∉ events) :
    Continues transformer began loaded events := by
  induction events using List.reverseRecOn with
  | nil => exact hstart
  | append_singleton events event ih =>
    rw [List.mem_append, List.mem_singleton, not_or] at hevents
    have hcontinues := ih hevents.1
    by_cases hfinish : event = .finish
    · subst hfinish
      exact hcontinues.finish hinlines
    · exact hcontinues.concat (Ne.symm hevents.2) hfinish

omit [Plural.Cldr] in
/-- A finish of a build with a store ends as its audit does, and leaves the files as it does. -/
lemma finish_eq_audit (hinlines : h.site.build.inlines = true)
    (hstore : h.site.build.store? = some store) :
    (Site.finish h.site).result = (h.site.audit store).result.map some ∧
      (Site.finish h.site).state.tree = (h.site.audit store).state.tree := by
  cases haudit : (h.site.audit store).result with
  | error e =>
    obtain ⟨hstate, hresult⟩ := Prod.mk.inj (Site.outcome_finish_error hinlines hstore haudit)
    exact ⟨hresult, congrArg Site.tree hstate⟩
  | ok report =>
    obtain ⟨hstate, hresult⟩ := Prod.mk.inj (Site.outcome_finish_ok hinlines hstore haudit)
    exact ⟨hresult, congrArg Site.tree hstate⟩

/-- A start that has succeeded settles what a finish and a bundle after it work on. -/
lemma pass_of_starts (hinlines : h.site.build.inlines = true) (hstarts : Starts h)
    (hlater : .start ∉ later) (artifacts : List Bundle.Artifact) :
    ∃ store sets, Pass transformer h later artifacts
      ((h.step transformer .start).run transformer later).site store sets := by
  have hbegan : (h.step transformer .start).site.build.inlines = true :=
    (inlines_step ..).trans hinlines
  have hcontinues : Continues transformer (h.step transformer .start)
      (Workspace.load h.site.loading).state.store later :=
    continues_run (continues_start hstarts) hbegan hlater
  obtain ⟨store, hstore, hfilled⟩ := hcontinues.store
  have hafter : ((h.step transformer .start).run transformer later).site.build.inlines = true :=
    (inlines_run ..).trans hbegan
  obtain ⟨report, hreport⟩ := hstarts
  have hload := (Site.result_start h.site).symm.trans hreport
  have hledger : (h.step transformer .start).site.build.ledger =
      ({} : KeyLedger).withPlurals (Workspace.load h.site.loading).state.store.tableKeys := by
    rw [step_start_ok hload]
    exact Workspace.ledger_load rfl hload
  refine ⟨store, _, hledger, hfilled, hcontinues.scanned, finish_eq_audit hafter hstore, ?_⟩
  have hbundle := (Prod.mk.inj (Site.outcome_bundle artifacts hafter hstore)).2
  have hconfig : ((h.step transformer .start).run transformer later).site.build.config =
      h.site.build.config := by rw [config_run, (setup_step ..).1]
  rw [Build.plan, hconfig] at hbundle
  exact hbundle

/-- A start that fails invalidates all that came before it. Whatever was called before and whether
it failed or not, if translations are put in: where the latest start has failed or there was none,
a finish and a bundle give an error and change nothing. Where it has succeeded, a finish audits and
a bundle copies with the records that it has loaded, but for keys that finishes have filled in
since, and with the plural keys of a snapshot that was taken since. -/
theorem finish_bundle_of_latestStart (transformer : Option (Transformer τ)) (config : Config)
    (target : Target) (hinlines : target.inlines = true) (tree : FileTree) (notes : τ)
    (events : List Event) (artifacts : List Bundle.Artifact) :
    let initial := fresh config target tree notes
    let after := (initial.run transformer events).site
    ((¬ ∃ earlier later, LatestStart transformer initial events earlier later) →
      Job.outcome Site.finish after = (after, .error .notStarted) ∧
        Job.outcome (Site.bundle artifacts) after = (after, .error .notStarted)) ∧
    ∀ earlier later, LatestStart transformer initial events earlier later →
      ∃ store sets, Pass transformer (initial.run transformer earlier) later artifacts after
        store sets := by
  intro initial after
  have hinitial : ∀ events, (initial.run transformer events).site.build.inlines = true :=
    fun events => (inlines_run transformer initial events).trans hinlines
  refine ⟨fun hnone => ?_, fun earlier later hlatest => ?_⟩
  · exact Site.outcome_of_not_started artifacts (hinitial events) (store?_run_none rfl events hnone)
  · have hafter : after =
        (((initial.run transformer earlier).step transformer .start).run transformer later).site := by
      show (initial.run transformer events).site = _
      rw [hlatest.split, run_append, run_cons]
    rw [hafter]
    exact pass_of_starts (hinitial earlier) hlatest.starts hlatest.latest artifacts

/-- If the last event is a start, it is the latest one. -/
lemma LatestStart.starts_of_concat
    (hlatest : LatestStart transformer h (events ++ [.start]) earlier later) :
    Starts (h.run transformer events) := by
  obtain ⟨hsplit, hlater, hstarts⟩ := hlatest
  rcases List.eq_nil_or_concat later with rfl | ⟨rest, last, rfl⟩
  · obtain ⟨rfl, -⟩ := List.append_singleton_inj.mp hsplit
    exact hstarts
  · have hsame : events ++ [.start] = (earlier ++ .start :: rest) ++ [last] := by
      rw [hsplit, List.append_assoc, List.cons_append, List.concat_eq_append]
    obtain ⟨-, rfl⟩ := List.append_singleton_inj.mp hsame
    exact absurd (by simp) hlater

end

/-- English is scanned, and then a file takes the place of its folder. -/
def displaced : List Event :=
  [.start, .transform "Hello" "a.js", .edit ⟨[(["i18n"], .file .empty 0o644)]⟩]

/-- The start that comes upon this file takes the store away. When the file is gone, the next start
gives a new one. -/
theorem finish_bundle_of_latestStart_displaced :
    (Site.finish (beginning.run (some notesCode) (displaced ++ [.start])).site).result =
      .error .notStarted ∧
    LatestStart (some notesCode) beginning (displaced ++ [.start, .edit {}, .start, .finish])
      (displaced ++ [.start, .edit {}]) [.finish] ∧
    ∃ store sets, Pass (some notesCode)
      (beginning.run (some notesCode) (displaced ++ [.start, .edit {}])) [.finish] []
      (beginning.run (some notesCode) (displaced ++ [.start, .edit {}, .start, .finish])).site
      store sets := by
  have hfails : ¬ Starts (beginning.run (some notesCode) displaced) := by
    rintro ⟨report, hreport⟩
    have herror : ∃ e, (Site.start (beginning.run (some notesCode) displaced).site).result =
        .error e := ⟨_, rfl⟩
    obtain ⟨e, he⟩ := herror
    exact absurd (hreport.symm.trans he) (by simp)
  have hlatest : LatestStart (some notesCode) beginning
      (displaced ++ [.start, .edit {}, .start, .finish]) (displaced ++ [.start, .edit {}])
      [.finish] := ⟨rfl, by simp, ⟨⟨[⟨"en", .newFile, "i18n/en.json", 0⟩]⟩, rfl⟩⟩
  have hnone : ¬ ∃ earlier later, LatestStart (some notesCode) beginning (displaced ++ [.start])
      earlier later := by
    rintro ⟨earlier, later, hlatest⟩
    exact hfails hlatest.starts_of_concat
  obtain ⟨hfailed, -⟩ := finish_bundle_of_latestStart (some notesCode) beginning.site.build.config {}
    rfl {} () (displaced ++ [.start]) []
  obtain ⟨-, hpasses⟩ := finish_bundle_of_latestStart (some notesCode) beginning.site.build.config {}
    rfl {} () (displaced ++ [.start, .edit {}, .start, .finish]) []
  exact ⟨(Prod.mk.inj (hfailed hnone).1).2, hlatest, hpasses _ _ hlatest⟩

end History

end LocaleBundle
