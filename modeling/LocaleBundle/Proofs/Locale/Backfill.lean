import LocaleBundle.Proofs.Locale.Audit

/-!
# What an audit fills in is loaded again

An audit that fills in missing keys writes the files of those locales that miss some, and no others.
The files agree with the records before and after, so a fresh load gives the completed records, and
a second audit finds nothing missing.
-/

namespace LocaleBundle.Locale

open Files Record

namespace Workspace

open Store

variable {w : Workspace} {folder : Place} {record : String → Record} {code : String}
  {codes keys : List String}

/-! ## Records that agree with their files -/

/-- What an audit finds for a record. -/
def findingsFor (record : Record) (keys : List String) (code : String) : Findings :=
  ⟨code, record.missing keys, record.unused keys, !(record.missing keys).isEmpty⟩

lemma Consistent.hasRecord (h : Consistent w folder record) (hcode : code ∈ w.store.locales.codes) :
    w.store.HasRecord code (record code) :=
  ⟨hcode, h.get hcode, h.isSettled hcode⟩

section

variable {found : AuditReport} (h : Consistent w folder record)
  (haudit : (audit true keys w).result = .ok found)

include h haudit

lemma Consistent.changesOnly_audit : ChangesOnly keys found.filledIn w (audit true keys w).state :=
  (isAudited_of_audit (fun _ hcode => ⟨_, h.hasRecord hcode⟩) haudit).2

lemma Consistent.forall₂_isAudited : List.Forall₂ (fun code findings => code ∈ w.store.locales.codes ∧
      IsAudited true keys w (audit true keys w).state code findings (record code))
    w.store.locales.codes found.findings := by
  obtain ⟨haudited, -⟩ := isAudited_of_audit (fun _ hcode => ⟨_, h.hasRecord hcode⟩) haudit
  refine ((List.forall₂_and_left _ _).mpr ⟨fun _ hcode => hcode, haudited⟩).imp ?_
  rintro code findings ⟨hcode, r, hr⟩
  obtain rfl := Except.ok.inj ((h.get hcode).symm.trans hr.get)
  exact ⟨hcode, hr⟩

lemma Consistent.findings_eq : found.findings =
    w.store.locales.codes.map fun code => findingsFor (record code) keys code := by
  have hfindings := (h.forall₂_isAudited haudit).imp
    (S := fun code findings => findingsFor (record code) keys code = findings)
    fun code findings hcode =>
      (hcode.2.findings_eq (h.isSettled hcode.1).writable.nodup_keys_translations).symm
  rw [← List.forall₂_map_left_iff (R := (· = ·)), List.forall₂_eq_eq_eq] at hfindings
  exact hfindings.symm

/-- The locales that miss keys are filled in. -/
lemma Consistent.mem_filledIn : code ∈ found.filledIn ↔
    code ∈ w.store.locales.codes ∧ (record code).missing keys ≠ [] := by
  unfold AuditReport.filledIn
  rw [h.findings_eq haudit]
  simp [findingsFor]

lemma Consistent.completed (hcode : code ∈ w.store.locales.codes) :
    (audit true keys w).state.store.get code = .ok ((record code).completed keys) ∧
    ((record code).missing keys ≠ [] → w.store.OnFile (audit true keys w).state.tree code
      (content ((record code).completed keys))) := by
  have hcompleted := (h.forall₂_isAudited haudit).imp (S := fun code _ =>
      ((audit true keys w).state.store.get code = .ok ((record code).completed keys) ∧
      ((record code).missing keys ≠ [] → w.store.OnFile (audit true keys w).state.tree code
        (content ((record code).completed keys)))) ∧ True)
    fun code findings haudited => ⟨haudited.2.completed, trivial⟩
  exact ((List.forall₂_and_left _ _).mp hcompleted).1 code hcode

/-- The file of a locale that misses nothing stays. -/
lemma Consistent.at?_audit (hcode : code ∈ w.store.locales.codes)
    (hmissing : (record code).missing keys = []) :
    (audit true keys w).state.tree.at? (placeIn folder code) = w.tree.at? (placeIn folder code) := by
  have hvalid := w.store.locales.valid
  have hplace := (resolve_location_iff (hvalid code hcode)).mpr ⟨folder, h.isFolder, rfl⟩
  refine (h.changesOnly_audit haudit).places _ fun other hother hsame => ?_
  obtain ⟨hconfigured, hmisses⟩ := (h.mem_filledIn haudit).mp hother
  obtain rfl := eq_of_resolve_location (hvalid code hcode) (hvalid other hconfigured) hplace hsame
  exact hmisses hmissing

/-- After an audit the records agree with the files again. -/
lemma Consistent.consistent_audit : Consistent (audit true keys w).state folder
    fun code => (record code).completed keys := by
  have hchanges := h.changesOnly_audit haudit
  have hsetup := hchanges.filledIn.setup
  have hfolder : (audit true keys w).state.tree.IsFolder w.store.files.directory folder :=
    hchanges.directories.isFolder_iff.mpr h.isFolder
  refine ⟨hsetup.files ▸ hfolder, ?_, ?_, ?_, ?_, ?_⟩
  · have hkeys : (audit true keys w).state.store.records.keys = w.store.locales.codes := by
      rw [hchanges.filledIn.locales, h.records, Entries.keys_map]
    rw [hsetup.locales, ← hkeys]
    refine Entries.eq_map_of_get? (hkeys ▸ w.store.locales.nodup) fun code hcode => ?_
    exact get_eq_ok_iff.mp (h.completed haudit (hkeys ▸ hcode)).1
  · rw [hchanges.filledIn.fallbacks, hsetup.locales]
    exact h.fallbacks
  · rw [hchanges.filledIn.fallbacks]
    exact h.acyclic
  · rw [hsetup.locales]
    intro code hcode
    rw [recordOf_of_same hsetup.locales hsetup.files]
    -- a file that was written gives the completed record, and any other file what it gave before
    by_cases hmissing : (record code).missing keys = []
    · rw [completed_of_missing_nil hmissing, ← h.recordOf code hcode]
      exact (recordOf_congr h.isFolder (w.store.locales.valid code hcode) hfolder
        (h.at?_audit haudit hcode hmissing)).1
    · rw [recordOf_of_onFile ((h.completed haudit hcode).2 hmissing)]
      exact ((h.isSettled hcode).completed keys).recordFrom_content
  · rw [hsetup.addMissing, hsetup.locales]
    intro hadd code hcode m hdirectory
    exact h.clear hadd code hcode m ((hchanges.directories _ _).mp hdirectory)

end

/-- An audit of records that miss nothing changes nothing. -/
lemma outcome_audit_complete {fillIn : Bool} (record : String → Record) (h : ∀ code ∈ w.store.locales.codes,
    w.store.get code = .ok (record code) ∧ (record code).missing keys = []) :
    Job.outcome (audit fillIn keys) w =
      (w, .ok ⟨w.store.locales.codes.map fun code => findingsFor (record code) keys code⟩) := by
  have hall : ∀ {codes : List String}, (∀ code ∈ codes,
      w.store.get code = .ok (record code) ∧ (record code).missing keys = []) →
      Job.outcome (Job.forEach codes (auditLogged fillIn keys)) w =
        (w, .ok (codes.map fun code => findingsFor (record code) keys code)) := by
    intro codes hcodes
    induction codes with
    | nil => rfl
    | cons code codes ih =>
      obtain ⟨⟨hget, hmissing⟩, hrest⟩ := List.forall_mem_cons.mp hcodes
      have hone : Job.outcome (auditLogged fillIn keys code) w =
          (w, .ok (findingsFor (record code) keys code)) := by
        rw [outcome_auditLogged, ← auditOneAgainst_none,
          outcome_auditOneAgainst_kept _ hget fun _ => hmissing, findingsFor, hmissing]
        rfl
      exact Job.outcome_forEach_cons hone (ih hrest)
  unfold audit
  simp only [Job.bind_eq, Job.outcome_bind_get]
  rw [Job.outcome_bind_ok (hall h)]
  rfl

/-! ## After an audit -/

/-- What an audit that fills in leaves in the files: those of the locales that miss nothing are
unchanged, and those of the others hold the completed records. -/
structure IsBackfilled (keys : List String) (loaded filled : Workspace) : Prop where
  unchanged : ∀ code ∈ loaded.store.locales.codes, ∀ record, loaded.store.get code = .ok record →
    (∀ key ∈ keys, key ∈ record.translations.keys) →
      filled.tree.find (loaded.store.files.location code) =
        loaded.tree.find (loaded.store.files.location code)
  written : ∀ code ∈ loaded.store.locales.codes, ∀ record, loaded.store.get code = .ok record →
    (∃ key ∈ keys, key ∉ record.translations.keys) →
      loaded.store.OnFile filled.tree code (content (record.completed keys))

/-- Whether a load after an audit gives every locale its old record, with the missing keys behind
its translations. -/
structure IsReloaded (keys : List String) (loaded reloaded : Workspace) : Prop where
  fallbacks : reloaded.store.fallbacks = loaded.store.fallbacks
  records : ∀ code ∈ loaded.store.locales.codes, ∀ record, loaded.store.get code = .ok record →
    ∃ added : List String, added.Pairwise (· < ·) ∧
      (∀ key, key ∈ added ↔ key ∈ keys ∧ key ∉ record.translations.keys) ∧
      reloaded.store.get code = .ok { record with
        translations := record.translations ++ added.map fun key => (key, .text "") }

/-- Whether an audit of a workspace finds nothing missing and writes nothing, with the unused keys of
an earlier audit. -/
def AuditsAgain (keys : List String) (earlier : AuditReport) (w : Workspace) : Prop :=
  (audit true keys w).state.tree = w.tree ∧ (audit true keys w).result =
    .ok ⟨earlier.findings.map fun f => { f with missing := [], filledIn := false }⟩

/-- A workspace for a fresh load, of the same locales in the files as they are. If missing files are
added now and were not before, no directory may be in their way. -/
structure IsFresh (w filled fresh : Workspace) : Prop where
  tree : fresh.tree = filled.tree
  locales : fresh.store.locales = w.store.locales
  files : fresh.store.files = w.store.files
  isOpen : fresh.ledger.closed = false
  clear : fresh.store.addMissing = true → w.store.addMissing = true ∨
    ∀ code ∈ w.store.locales.codes, ∀ p m,
      fresh.tree.find (fresh.store.files.location code) ≠ .ok (p, .directory m)

variable {filled : Workspace}

lemma Consistent.missing_eq_nil_iff (h : Consistent w folder record) (keys : List String)
    (hcode : code ∈ w.store.locales.codes) {r : Record} (hget : w.store.get code = .ok r) :
    r = record code ∧ ((record code).missing keys = [] ↔ ∀ key ∈ keys, key ∈ r.translations.keys) := by
  obtain rfl : record code = r := Except.ok.inj ((h.get hcode).symm.trans hget)
  refine ⟨rfl, ?_⟩
  rw [List.eq_nil_iff_forall_not_mem]
  simp only [mem_missing, not_and, not_not]

lemma Consistent.isBackfilled {audited : AuditReport} (h : Consistent w folder record)
    (haudit : (audit true keys w).result = .ok audited) :
    IsBackfilled keys w (audit true keys w).state := by
  have hfolder := (h.changesOnly_audit haudit).directories.isFolder_iff.mpr h.isFolder
  refine ⟨fun code hcode r hget hall => ?_, fun code hcode r hget hsome => ?_⟩
  · have hvalid := w.store.locales.valid code hcode
    obtain ⟨rfl, hmissing⟩ := h.missing_eq_nil_iff keys hcode hget
    rw [find_location hvalid hfolder, find_location hvalid h.isFolder,
      h.at?_audit haudit hcode (hmissing.mpr hall)]
  · obtain rfl := Except.ok.inj ((h.get hcode).symm.trans hget)
    exact (h.completed haudit hcode).2 (missing_ne_nil_iff.mpr hsome)

/-- The records of a workspace are completed: a second audit finds nothing missing. -/
lemma auditsAgain {again : Workspace} (hlocales : again.store.locales = w.store.locales)
    (hget : ∀ code ∈ w.store.locales.codes,
      again.store.get code = .ok ((record code).completed keys)) :
    AuditsAgain keys ⟨w.store.locales.codes.map fun code => findingsFor (record code) keys code⟩
      again := by
  have haudit : Job.outcome (audit true keys) again = _ :=
    outcome_audit_complete (fun code => (record code).completed keys) (by
      rw [hlocales]
      exact fun code hcode => ⟨hget code hcode, missing_completed⟩)
  obtain ⟨hstate, hresult⟩ := Prod.mk.inj haudit
  refine ⟨congrArg Workspace.tree hstate, ?_⟩
  rw [hresult, hlocales, List.map_map]
  refine congrArg (fun findings => Except.ok (AuditReport.mk findings))
    (List.map_congr_left fun code hcode => ?_)
  simp only [findingsFor, Function.comp_apply, missing_completed, unused_completed]
  rfl

/-- After a load that adds missing files all files can be written. -/
lemma canWrite_of_load {report : LoadReport} (hadd : w.store.addMissing = true)
    (hload : (load w).result = .ok report) (hcode : code ∈ w.store.locales.codes) :
    w.store.files.CanWrite (load w).state.tree code := by
  obtain ⟨hsame, folder, record, hloaded⟩ := consistent_load hload
  refine (canWrite_iff (w.store.locales.valid code hcode)).mpr ⟨folder, ?_, ?_⟩
  · rw [← hsame.files]
    exact hloaded.isFolder
  · exact hloaded.clear (hsame.addMissing.trans hadd) code (hsame.locales ▸ hcode)

/-- After a load that adds missing files, an audit that fills in returns. -/
theorem audit_returns {report : LoadReport} (hadd : w.store.addMissing = true)
    (hload : (load w).result = .ok report) (keys : List String) :
    ∃ audited, (audit true keys (load w).state).result = .ok audited := by
  obtain ⟨hsame, folder, record, hloaded⟩ := consistent_load hload
  refine (exists_audit_iff fun code hcode => ⟨_, hloaded.hasRecord hcode⟩).mpr ?_
  intro code hcode r _ _ _
  rw [hsame.files]
  exact canWrite_of_load hadd hload (hsame.locales ▸ hcode)

/-- Missing keys that an audit fills in after a load are found by a fresh load: files of locales
that miss nothing are unchanged, the others give the old records with the missing keys behind the
translations, and the fallbacks are the same. A second audit, of the same workspace or of the one
that was loaded afresh, finds nothing missing and the same keys unused, and writes nothing. -/
theorem audit_backfills {report : LoadReport} {audited : AuditReport}
    (hload : (load w).result = .ok report)
    (haudit : (audit true keys (load w).state).result = .ok audited) :
    IsBackfilled keys (load w).state (audit true keys (load w).state).state ∧
    AuditsAgain keys audited (audit true keys (load w).state).state ∧
    ∀ fresh, IsFresh w (audit true keys (load w).state).state fresh →
      ∃ again, (load fresh).result = .ok again ∧ IsReloaded keys (load w).state (load fresh).state ∧
        AuditsAgain keys audited (load fresh).state := by
  obtain ⟨hsame, folder, record, hloaded⟩ := consistent_load hload
  have hchanges := hloaded.changesOnly_audit haudit
  have hsetup := hchanges.filledIn.setup
  -- every record is completed, and the files of all locales give the completed records
  have hfilled := hloaded.consistent_audit haudit
  have hget : ∀ code ∈ (load w).state.store.locales.codes,
      (audit true keys (load w).state).state.store.get code = .ok ((record code).completed keys) :=
    fun code hcode => (hloaded.completed haudit hcode).1
  have hbackfilled := hloaded.isBackfilled haudit
  obtain ⟨findings⟩ := audited
  obtain rfl : findings = _ := hloaded.findings_eq haudit
  generalize (audit true keys (load w).state).state = filled at *
  refine ⟨hbackfilled, auditsAgain hsetup.locales hget, fun fresh hfresh => ?_⟩
  have hclear : fresh.store.addMissing = true → ∀ code ∈ filled.store.locales.codes, ∀ m,
      filled.tree.at? (placeIn folder code) ≠ some (.directory m) := by
    intro hadd code hcode m hdirectory
    rcases hfresh.clear hadd with hbefore | hnone
    · exact hfilled.clear ((hsame.trans hsetup).addMissing.trans hbefore) code hcode m hdirectory
    · refine hnone code ((hsame.trans hsetup).locales ▸ hcode) (placeIn folder code) m ?_
      rw [hfresh.tree, hfresh.files, ← (hsame.trans hsetup).files,
        find_location (filled.store.locales.valid code hcode) hfilled.isFolder, hdirectory]
  obtain ⟨again, hagain, hrecords, hgraph⟩ := hfilled.load_fresh hfresh.tree
    (hfresh.locales.trans (hsame.trans hsetup).locales.symm)
    (hfresh.files.trans (hsame.trans hsetup).files.symm) hfresh.isOpen hclear
  have hreget : ∀ code ∈ (load w).state.store.locales.codes,
      (load fresh).state.store.get code = .ok ((record code).completed keys) := by
    intro code hcode
    rw [← hget code hcode, Store.get, Store.get, hrecords]
  refine ⟨again, hagain, ⟨hgraph.trans hchanges.filledIn.fallbacks, fun code hcode r hr => ?_⟩, ?_⟩
  · obtain ⟨rfl, -⟩ := hloaded.missing_eq_nil_iff keys hcode hr
    refine ⟨(record code).missing keys, pairwise_missing, fun key => mem_missing, ?_⟩
    rw [hreget code hcode, ← translations_completed]
    rfl
  · obtain ⟨hreloaded, -⟩ := consistent_load hagain
    exact auditsAgain
      (hreloaded.locales.trans (hfresh.locales.trans hsame.locales.symm)) hreget

/-- English is configured, and it has no file yet. -/
def english : Workspace where
  tree := {}
  store := { locales := Locales.english, files := ⟨⟨"", ["i18n"]⟩⟩, addMissing := true }
  ledger := {}

/-- English with the files as an audit leaves them in which `Hello` is referred to. -/
def englishAgain : Workspace :=
  { english with tree := (audit true ["Hello"] (load english).state).state.tree }

theorem audit_backfills_english : ∃ audited,
    (audit true ["Hello"] (load english).state).result = .ok audited ∧
    AuditsAgain ["Hello"] audited (audit true ["Hello"] (load english).state).state ∧
    ∃ again, (load englishAgain).result = .ok again ∧ (load englishAgain).state.store.get "en" =
      .ok { emptyRecord "en" with translations := [("Hello", .text "")] } := by
  have hload : (load english).result = .ok ⟨[⟨"en", .newFile, "i18n/en.json", 0⟩]⟩ := rfl
  have hget : (load english).state.store.get "en" = .ok (emptyRecord "en") := rfl
  obtain ⟨audited, haudit⟩ := audit_returns rfl hload ["Hello"]
  obtain ⟨-, hagain, hfresh⟩ := audit_backfills hload haudit
  obtain ⟨again, hreload, hrecords, -⟩ :=
    hfresh englishAgain ⟨rfl, rfl, rfl, rfl, fun _ => Or.inl rfl⟩
  obtain ⟨added, hsorted, hadded, hrecord⟩ :=
    hrecords.records "en" List.mem_cons_self _ hget
  have hone : added = ["Hello"] := by
    rw [← List.perm_singleton, List.perm_ext_iff_of_nodup (TextSet.nodup_of_pairwise_lt hsorted)
      (List.nodup_singleton _)]
    intro key
    rw [hadded key]
    simp [emptyRecord, Entries.keys]
  rw [hone] at hrecord
  exact ⟨audited, haudit, hagain, again, hreload, hrecord⟩

end Workspace

end Locale

end LocaleBundle
