import LocaleBundle.Proofs.Build.History
import LocaleBundle.Proofs.Bundle.Tables
import LocaleBundle.Proofs.Locale.FilledIn

/-!
# Plural tables in builds

A start notes the keys of all plural tables. An audit adds no table, a transformer that only notes
keys loses none, and a finish takes over what is noted. So whatever was called before, a bundle
leaves every table in the store for run time.
-/

namespace LocaleBundle

open Locale

namespace Locale.Workspace

/-! ## Audits -/

/-- Whether a workspace has a given ledger, and tables for no other keys than those known. -/
structure TablesIn (known : List String) (ledger : KeyLedger) (w : Workspace) : Prop where
  ledger : w.ledger = ledger
  tables : ∀ key ∈ w.store.tableKeys, key ∈ known

variable {known : List String} {ledger : KeyLedger}

/-- Empty translations are no tables. -/
lemma mem_translations_of_fillIn {record : Record} {keys : List String} {key : String}
    {table : Entries Value} (h : (key, .map table) ∈ (record.fillIn keys).translations) :
    (key, .map table) ∈ record.translations := by
  rcases Entries.mem_of_mem_insertAll h with hold | hnew
  · exact hold
  · obtain ⟨other, -, hsame⟩ := List.mem_map.mp hnew
    exact absurd (Prod.mk.inj hsame).2 (by simp)

/-- Completing a record adds no table. -/
lemma TablesIn.putRecord {w : Workspace} (h : TablesIn known ledger w) {locale : String}
    {record : Record} {keys : List String} (hrecord : w.store.get locale = .ok record) :
    TablesIn known ledger { w with store := w.store.putRecord locale (record.completed keys) } := by
  refine ⟨h.ledger, fun key hkey => ?_⟩
  obtain ⟨e, he, table, hentry⟩ := mem_tableKeys_iff.mp hkey
  rcases Entries.mem_of_mem_insert he with rfl | hold
  · -- the record was in the store before
    have hfound := Entries.mem_of_get? (Store.get_eq_ok_iff.mp hrecord)
    exact h.tables key
      (mem_tableKeys_iff.mpr ⟨_, hfound, table, mem_translations_of_fillIn hentry⟩)
  · exact h.tables key (mem_tableKeys_iff.mpr ⟨e, hold, table, hentry⟩)

end Locale.Workspace

/-! ## What a build has noted -/

/-- Whether a build still has the tables that were loaded and no others, and has their keys in its
ledger and in the key sets of its scan. -/
structure Build.NotesTables (build : Build) (loaded : Store) : Prop where
  store : ∃ store, build.store? = some store ∧ ∀ key ∈ store.tableKeys, key ∈ loaded.tableKeys
  ledger : ∀ key ∈ loaded.tableKeys, key ∈ build.ledger.pluralKeys
  keySets : ∀ sets, build.keySets? = some sets → ∀ key ∈ loaded.tableKeys, key ∈ sets.pluralKeys

namespace Site

variable {τ : Type} {site : Site τ} {store loaded : Store}

/-- An audit leaves the ledger closed and adds no table. -/
lemma tablesIn_audit (site : Site τ) (store : Store) :
    Workspace.TablesIn store.tableKeys site.build.ledger.close (site.audit store).state := by
  have hbefore : Workspace.TablesIn store.tableKeys site.build.ledger.close (site.auditing store) :=
    ⟨rfl, fun _ hkey => hkey⟩
  have hkeeps : Job.Keeps (Workspace.TablesIn store.tableKeys site.build.ledger.close)
      (fun _ => True) (Workspace.audit site.build.config.addsMissing site.build.ledger.keys) :=
    Workspace.keeps_audit (fun _ _ _ _ hw hget => hw.putRecord hget)
      (fun _ _ _ hw => ⟨hw.ledger, hw.tables⟩)
  exact (hkeeps _ hbefore).1

lemma notesTables_afterAudit (h : site.build.NotesTables loaded)
    (hstore : site.build.store? = some store) :
    (site.afterAudit (site.audit store).state).build.NotesTables loaded := by
  have haudit := tablesIn_audit site store
  obtain ⟨other, hother, htables⟩ := h.store
  obtain rfl : store = other := Option.some.inj (hstore.symm.trans hother)
  refine ⟨⟨_, rfl, fun key hkey => htables key (haudit.tables key hkey)⟩, ?_, ?_⟩
  · show ∀ key ∈ loaded.tableKeys, key ∈ (site.audit store).state.ledger.pluralKeys
    rw [haudit.ledger]
    exact h.ledger
  · intro sets hsets
    rw [← Option.some.inj hsets]
    exact h.ledger

lemma notesTables_afterScan (h : site.build.NotesTables loaded) :
    site.afterScan.build.NotesTables loaded := by
  unfold afterScan
  split
  · exact h
  · exact ⟨h.store, h.ledger, h.keySets⟩

/-- After a start the tables that were loaded are noted. -/
lemma notesTables_afterStart {report : LoadReport}
    (h : (Workspace.load site.loading).result = .ok report) :
    (site.afterStart (Workspace.load site.loading).state).build.NotesTables
      (Workspace.load site.loading).state.store := by
  have hledger := Workspace.ledger_load rfl h
  refine ⟨⟨_, rfl, fun _ hkey => hkey⟩, fun key hkey => ?_,
    fun sets hsets => absurd hsets (by simp [afterStart, afterLoad])⟩
  show key ∈ (Workspace.load site.loading).state.ledger.pluralKeys
  rw [hledger]
  exact TextSet.mem_adjoinAll.mpr (Or.inr hkey)

end Site

namespace History

variable {τ : Type} {transformer : Option (Transformer τ)} {h : History τ}

/-- Whether a build has no store, because the latest start has failed or there was none, or else has
noted the tables that were loaded. -/
def NotesTables (h : History τ) : Prop :=
  (h.loaded? = none ∧ h.site.build.store? = none) ∨
    ∃ loaded, h.loaded? = some loaded ∧ h.site.build.NotesTables loaded

/-- The plan of a build that has noted the tables lists their keys. -/
lemma mem_plan {build : Build} {loaded : Store} (h : build.NotesTables loaded) :
    ∀ key ∈ loaded.tableKeys, key ∈ build.plan.pluralKeys := by
  intro key hkey
  show key ∈ build.scanned.pluralKeys
  unfold Build.scanned
  cases hsets : build.keySets? with
  | none => exact h.ledger key hkey
  | some sets => exact h.keySets sets hsets key hkey

section

variable [Plural.Cldr]

/-- Every event keeps the tables noted, if the transformer only notes keys. -/
lemma NotesTables.step (htransformer : ∀ t ∈ transformer, t.OnlyNotes) (hnotes : NotesTables h)
    (event : Event) : NotesTables (h.step transformer event) := by
  have hleads := leads_step transformer h event
  generalize h.step transformer event = after at hleads
  cases hleads with
  | startError hload => exact Or.inl ⟨rfl, rfl⟩
  | startOk hload => exact Or.inr ⟨_, rfl, Site.notesTables_afterStart hload⟩
  | skip hevent => exact hnotes
  | edit tree => exact hnotes
  | @transform t code moduleName ht hphase =>
    rcases hnotes with hnone | ⟨loaded, hloaded, hbuild⟩
    · exact Or.inl hnone
    · have hgrows := (htransformer t ht code moduleName h.site.desk).keeps.2
      exact Or.inr ⟨loaded, hloaded,
        ⟨hbuild.store, fun key hkey => hgrows key (hbuild.ledger key hkey), hbuild.keySets⟩⟩
  | finishError hstore haudit =>
    rcases hnotes with hnone | ⟨loaded, hloaded, hbuild⟩
    · exact absurd (hstore.symm.trans hnone.2) (by simp)
    · exact Or.inr ⟨loaded, hloaded, Site.notesTables_afterAudit hbuild hstore⟩
  | finishOk hstore haudit =>
    rcases hnotes with hnone | ⟨loaded, hloaded, hbuild⟩
    · exact absurd (hstore.symm.trans hnone.2) (by simp)
    · have hafter := Site.notesTables_afterAudit hbuild hstore
      exact Or.inr ⟨loaded, hloaded, ⟨hafter.store, hafter.ledger, hafter.keySets⟩⟩
  | bundle artifacts hstore =>
    rcases hnotes with hnone | ⟨loaded, hloaded, hbuild⟩
    · exact absurd (hstore.symm.trans hnone.2) (by simp)
    · exact Or.inr ⟨loaded, hloaded, Site.notesTables_afterScan hbuild⟩

/-- What a bundle gives in a history: nothing, or the error that there is no store, or else copies
in which the key of every table that was loaded is left for run time, so that whenever a call finds
a table, its JSON is put in. -/
inductive Bundles (h : History τ) (artifacts : List Bundle.Artifact) :
    Except Error (List Bundle.Artifact) → Prop
  | skipped (hinlines : h.site.build.inlines = false) : Bundles h artifacts (.ok [])
  | notStarted (hinlines : h.site.build.inlines = true) (hloaded : h.loaded? = none) :
    Bundles h artifacts (.error .notStarted)
  | copied {loaded store : Store} (hinlines : h.site.build.inlines = true)
    (hloaded : h.loaded? = some loaded) (hstore : h.site.build.store? = some store)
    (hlisted : ∀ e, e ∈ loaded.records ∨ e ∈ store.records → ∀ key table,
      (key, .map table) ∈ e.2.translations → key ∈ h.site.build.plan.pluralKeys)
    (hraw : ∀ locale key args warned table,
      (Bundle.Plan.found store locale key warned).result = .ok (.map table) →
        key ∈ h.site.build.plan.pluralKeys ∧
        (h.site.build.plan.literalFor store locale key args warned).result =
          Bundle.Plan.literal (.map table)) :
    Bundles h artifacts (h.site.build.plan.copyAll store artifacts []).result

/-- Where the tables that were loaded are noted, a bundle is made of copies that leave all tables for
run time, and it fails for no plural table. -/
lemma bundles_of_loaded {loaded : Store} (hinlines : h.site.build.inlines = true)
    (hloaded : h.loaded? = some loaded) (hbuild : h.site.build.NotesTables loaded)
    (artifacts : List Bundle.Artifact) : Bundles h artifacts (Site.bundle artifacts h.site).result ∧
      ∀ f, (Site.bundle artifacts h.site).result = .error (.fault f) →
        Fault.Kind.pluralTable ∉ f.kind.lineage := by
  obtain ⟨store, hstore, htables⟩ := hbuild.store
  have hbundle : (Site.bundle artifacts h.site).result =
      (h.site.build.plan.copyAll store artifacts []).result :=
    congrArg Prod.snd (Site.outcome_bundle artifacts hinlines hstore)
  have hplan := mem_plan hbuild
  -- an audit may have filled in the records since they were loaded, but not with tables
  have hlists : ∀ key ∈ store.tableKeys, key ∈ h.site.build.plan.pluralKeys :=
    fun key hkey => hplan key (htables key hkey)
  rw [hbundle]
  refine ⟨.copied hinlines hloaded hstore ?_ ?_, fun f hf => ?_⟩
  · intro e he key table hentry
    rcases he with hbefore | hnow
    · exact hplan key (Workspace.mem_tableKeys_iff.mpr ⟨e, hbefore, table, hentry⟩)
    · exact hlists key (Workspace.mem_tableKeys_iff.mpr ⟨e, hnow, table, hentry⟩)
  · intro locale key args warned table hfound
    have hkey := hlists key (Bundle.Plan.mem_tableKeys_of_found hfound)
    exact ⟨hkey, Bundle.Plan.literalFor_of_found_table hfound hkey⟩
  · obtain ⟨fileName, offset, reason, rfl⟩ :=
      (Bundle.Plan.gives_copyAll hlists artifacts []).1 _ hf f rfl
    simp [Fault.badPlaceholder, Fault.Kind.lineage, Fault.Kind.parent?]

lemma NotesTables.bundles (hnotes : NotesTables h) (artifacts : List Bundle.Artifact) :
    Bundles h artifacts (Site.bundle artifacts h.site).result ∧
      ∀ f, (Site.bundle artifacts h.site).result = .error (.fault f) →
        Fault.Kind.pluralTable ∉ f.kind.lineage := by
  by_cases hinlines : h.site.build.inlines = true
  · rcases hnotes with ⟨hnone, hstore⟩ | ⟨loaded, hloaded, hbuild⟩
    · have hbundle : (Site.bundle artifacts h.site).result = .error .notStarted :=
        congrArg Prod.snd (Site.outcome_of_not_started artifacts hinlines hstore).2
      rw [hbundle]
      exact ⟨.notStarted hinlines hnone, fun f hf => absurd hf (by simp)⟩
    · exact bundles_of_loaded hinlines hloaded hbuild artifacts
  · rw [Bool.not_eq_true] at hinlines
    have hbundle : (Site.bundle artifacts h.site).result = .ok [] :=
      congrArg Prod.snd (Site.outcome_of_not_inlines artifacts hinlines).2
    rw [hbundle]
    exact ⟨.skipped hinlines, fun f hf => absurd hf (by simp)⟩

/-- Plural tables are shipped as they are. Whatever was called before, whether it failed or not, and
however the files have changed, if the transformer only notes keys: the copies that a bundle makes
leave the key of every table of the store that the latest start has loaded for run time, no call
that finds a table resolves it, and no bundle fails for a plural table. -/
theorem bundle_ships_tables (transformer : Option (Transformer τ))
    (htransformer : ∀ t ∈ transformer, t.OnlyNotes) (config : Config) (target : Target)
    (tree : FileTree) (notes : τ) (events : List Event) (artifacts : List Bundle.Artifact) :
    Bundles ((fresh config target tree notes).run transformer events) artifacts
      (Site.bundle artifacts ((fresh config target tree notes).run transformer events).site).result ∧
    ∀ f, (Site.bundle artifacts
        ((fresh config target tree notes).run transformer events).site).result =
          .error (.fault f) → Fault.Kind.pluralTable ∉ f.kind.lineage := by
  have hnotes : NotesTables ((fresh config target tree notes).run transformer events) :=
    run_induction (fun _ event h => h.step htransformer event) (Or.inl ⟨rfl, rfl⟩) events
  exact hnotes.bundles artifacts

end

/-- A transformer that notes each module's code as a key. -/
def notesCode : Transformer Unit := fun code _ desk =>
  match desk.ledger.note code with
  | .error e => ⟨desk, .error e, []⟩
  | .ok ledger => ⟨{ desk with ledger := ledger }, .ok none, []⟩

lemma onlyNotes_notesCode : notesCode.OnlyNotes := by
  intro code moduleName desk
  unfold notesCode
  cases hnote : desk.ledger.note code with
  | error e => exact .refl
  | ok ledger => exact .keys [code] .refl hnote

/-- An English record in which one key has a plural table. -/
def counted : Record where
  locale := .text "en"
  name := "English"
  translations := [("$1 items", .map [("*", .text "$1 items")])]

lemma isWritable_counted : counted.IsWritable where
  locale := .text "en"
  fallback := Or.inl rfl
  fallbackJson := .null
  areTranslations := List.forall_mem_singleton.mpr
    (.table (List.forall_mem_singleton.mpr (Or.inl ⟨"$1 items", rfl⟩)))
  translationsJson := .map (List.nodup_singleton _) (List.forall_mem_singleton.mpr
    (.map (List.nodup_singleton _) (List.forall_mem_singleton.mpr (.text "$1 items"))))
  extraNames := by simp [counted]
  extraJson := .map List.nodup_nil (by simp [counted])

/-- A build of English, whose record is on file. -/
def counting : History Unit :=
  fresh ⟨Locales.english, "i18n", none, .bool true⟩ {}
    ⟨[(["i18n"], .directory 0o755),
      (["i18n", "en.json"], .file (Files.content counted).toUTF8 0o644)]⟩ ()

lemma load_counting : ∃ report, (Workspace.load counting.site.loading).result = .ok report ∧
    (Workspace.load counting.site.loading).state.store.records = [("en", counted)] := by
  have hfolder : counting.site.tree.IsFolder counting.site.loading.store.files.directory ["i18n"] :=
    ⟨rfl, rfl, rfl⟩
  have honFile : counting.site.loading.store.OnFile counting.site.tree "en" (Files.content counted) :=
    (Store.onFile_iff hfolder rfl).mpr ⟨0o644, rfl⟩
  have hrecord : counting.site.loading.store.recordOf counting.site.tree "en" = .ok counted := by
    rw [Store.recordOf_of_onFile honFile,
      Store.recordFrom_content isWritable_counted rfl (Or.inl rfl)]
    rfl
  have hclear : ∀ code ∈ ["en"], ∀ m,
      counting.site.tree.at? (Files.placeIn ["i18n"] code) ≠ some (.directory m) := by
    intro code hcode m
    have hthere : counting.site.tree.at? (Files.placeIn ["i18n"] "en") =
        some (.file (Files.content counted).toUTF8 0o644) := rfl
    rw [List.mem_singleton.mp hcode, hthere]
    simp
  have hsettled : Workspace.Consistent
      { counting.site.loading with store := { counting.site.loading.store with
          records := [("en", counted)], fallbacks := [("en", none)] } } ["i18n"]
      (fun _ => counted) := by
    refine ⟨hfolder, rfl, rfl, rfl, fun code hcode => ?_, fun _ => hclear⟩
    rw [List.mem_singleton.mp hcode, ← hrecord]
    exact Store.recordOf_of_same rfl rfl
  have hload : ∃ report, (Workspace.load counting.site.loading).result = .ok report ∧
      (Workspace.load counting.site.loading).state.store.records = [("en", counted)] ∧
      (Workspace.load counting.site.loading).state.store.fallbacks = [("en", none)] :=
    hsettled.load_fresh rfl rfl rfl rfl fun _ => hclear
  obtain ⟨report, hreport, hrecords, -⟩ := hload
  exact ⟨report, hreport, hrecords⟩

/-- A build that has gone through all its steps once, but for the last bundle. -/
def counts : History Unit :=
  counting.run (some notesCode) [.start, .bundle [], .transform "Hello" "a.js", .finish]

theorem bundle_ships_tables_counts : (∀ t ∈ some notesCode, t.OnlyNotes) ∧
    "$1 items" ∈ counts.site.build.plan.pluralKeys := by
  have htransformer : ∀ t ∈ some notesCode, t.OnlyNotes := by
    intro t ht
    rw [← Option.some.inj ht]
    exact onlyNotes_notesCode
  obtain ⟨report, hload, hrecords⟩ := load_counting
  have hloaded : counts.loaded? = some (Workspace.load counting.site.loading).state.store := by
    rw [counts, run_cons, step_start_ok hload, loaded?_run (by simp)]
  have hinlines : counts.site.build.inlines = true := by
    rw [Build.inlines, counts, target_run]
    rfl
  have hbundles : Bundles counts [] (Site.bundle [] counts.site).result :=
    (bundle_ships_tables (some notesCode) htransformer counting.site.build.config {}
      counting.site.tree () [.start, .bundle [], .transform "Hello" "a.js", .finish] []).1
  refine ⟨htransformer, ?_⟩
  generalize (Site.bundle [] counts.site).result = result at hbundles
  cases hbundles with
  | skipped hnot => exact absurd (hnot.symm.trans hinlines) (by simp)
  | notStarted _ hnone => exact absurd (hnone.symm.trans hloaded) (by simp)
  | @copied loaded store _ hsome _ hlisted _ =>
    have hrecord : ("en", counted) ∈ loaded.records := by
      rw [Option.some.inj (hsome.symm.trans hloaded), hrecords]
      exact List.mem_cons_self
    exact hlisted ("en", counted) (Or.inl hrecord) "$1 items" _ List.mem_cons_self

end History

end LocaleBundle
