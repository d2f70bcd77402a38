import LocaleBundle.Proofs.Locale.Findings

/-!
# Audits that fail

The audit of a locale puts the missing keys into the record first, and writes the file then. If the
file cannot be written it stays as it was, but the keys stay in the record. So the audit cannot be
repeated: later ones find that no key is missing, and write nothing. Only saving the locale writes the
keys, and loading forgets them.
-/

namespace LocaleBundle.Locale.Workspace

open Files Record Store

/-- What is left of a workspace after an audit of a locale that was to fill in some keys and could not
write the file: the keys are in the record, and nothing else has changed. -/
structure IsLeftBy (keys : List String) (code : String) (record : Record) (v failed : Workspace) :
    Prop where
  tree : failed.tree = v.tree
  ledger : failed.ledger = v.ledger
  setup : SameSetup v.store failed.store
  fallbacks : failed.store.fallbacks = v.store.fallbacks
  get : ∀ other, failed.store.get other =
    if other = code then .ok (record.extended (record.missing keys)) else v.store.get other
  repeated : ∀ tree refusals fillIn,
    Job.outcome (auditOneAgainst refusals fillIn keys code) { failed with tree := tree } =
      ({ failed with tree := tree }, .ok ⟨code, [], record.unused keys, false⟩)
  saved : ∀ tree, v.store.files.CanWrite tree code → ∃ after,
    Job.outcome (save code) { failed with tree := tree } = ({ failed with tree := after }, .ok ()) ∧
    v.store.files.Writes code (content (record.extended (record.missing keys))).toUTF8 tree after
  reloaded : ∀ tree, load { failed with tree := tree } = load { v with tree := tree }

variable {w v failed : Workspace} {keys : List String} {code : String} {record : Record}
  {fillIn : Bool} {refusals : Refusals} {e : Error} {report : LoadReport}

/-- Saving a locale that has a record writes its file if that can be written. -/
lemma outcome_save_of_canWrite (h : v.store.HasRecord code record)
    (hcan : v.store.files.CanWrite v.tree code) : ∃ after,
      Job.outcome (save code) v = ({ v with tree := after }, .ok ()) ∧
      v.store.files.Writes code (content record).toUTF8 v.tree after := by
  have hencode := encode_eq h.settled.writable.isJson_toValue
  obtain ⟨path, hpath⟩ := exists_write_of_canWrite h.valid h.settled.locale hencode hcan
  obtain ⟨-, text, htext, hwrites⟩ := writes_of_write h.settled.locale hpath
  obtain rfl := Except.ok.inj (hencode.symm.trans htext)
  exact ⟨_, outcome_saveAgainst h.get (Job.outcome_of_result hpath), hwrites⟩

lemma isLeftBy_putRecord (h : v.store.HasRecord code record) (keys : List String) :
    IsLeftBy keys code record v
      { v with store := v.store.putRecord code (record.completed keys) } where
  tree := rfl
  ledger := rfl
  setup := ⟨rfl, rfl, rfl⟩
  fallbacks := rfl
  get other := by
    rw [get_putRecord, completed_eq_extended]
    simp only [eq_comm]
  repeated tree refusals fillIn := by
    have hget : (v.store.putRecord code (record.completed keys)).get code =
        .ok (record.completed keys) := (h.completed keys).get
    -- the record has all keys, so nothing is to be filled in
    rw [outcome_auditOneAgainst_kept refusals hget fun _ => missing_completed, missing_completed,
      unused_completed]
  saved tree hcan := by
    rw [← completed_eq_extended]
    exact outcome_save_of_canWrite
      (v := { v with tree := tree, store := v.store.putRecord code (record.completed keys) })
      (h.completed keys) hcan
  reloaded tree := rfl

/-- The same audit repeated at once. -/
lemma IsLeftBy.outcome_auditOne (h : IsLeftBy keys code record v failed) (fillIn : Bool) :
    Job.outcome (auditOne fillIn keys code) failed =
      (failed, .ok ⟨code, [], record.unused keys, false⟩) :=
  h.repeated failed.tree (fun _ => none) fillIn

namespace AuditsTo

variable {result : Except Error Findings}

lemma exists_error_iff (h : AuditsTo refusals fillIn keys v code record (failed, result)) :
    (∃ e, result = .error e) ↔ fillIn = true ∧ (∃ key ∈ keys, key ∉ record.translations.keys) ∧
      ¬ ((∀ step, refusals step = none) ∧ v.store.files.CanWrite v.tree code) := by
  rw [← missing_ne_nil_iff]
  have hreturns := h.exists_ok_iff
  cases h with
  | kept | filled =>
    have hcan := hreturns.mp ⟨_, rfl⟩
    exact iff_of_false (by simp) fun ⟨hfill, hmissing, hcannot⟩ => hcannot (hcan hfill hmissing)
  | refused hfill hmissing hcannot => exact iff_of_true ⟨_, rfl⟩ ⟨hfill, hmissing, hcannot⟩

lemma isLeftBy (h : AuditsTo refusals fillIn keys v code record (failed, .error e))
    (hrecord : v.store.HasRecord code record) : IsLeftBy keys code record v failed := by
  cases h with
  | refused => exact isLeftBy_putRecord hrecord keys

end AuditsTo

/-- When the audit of a locale fails after a load, and what is left then. It fails if and only if keys
are to be filled in, some are missing, and a step of writing is refused or the file cannot be written.
Then the files are as they were, but the record has the keys that its file lacks: from then on the same
audit finds no key missing, and writes nothing, even if the file can be written again. No text of the
record has a lone surrogate, which could not be written to any file. -/
theorem auditOneAgainst_of_load (hload : (load w).result = .ok report)
    (haudited : AuditedFrom (load w).state v) (hcode : code ∈ w.store.locales.codes)
    (refusals : Refusals) (fillIn : Bool) (keys : List String) :
    let step := auditOneAgainst refusals fillIn keys code v
    ∃ record, v.store.get code = .ok record ∧
      ((∃ e, step.result = .error e) ↔
        fillIn = true ∧ (∃ key ∈ keys, key ∉ record.translations.keys) ∧
          ¬ ((∀ s, refusals s = none) ∧ v.store.files.CanWrite v.tree code)) ∧
      ∀ e, step.result = .error e → IsLeftBy keys code record v step.state := by
  intro step
  obtain ⟨-, hsetup⟩ := isReady_of_load hload haudited
  obtain ⟨record, hrecord⟩ := exists_hasRecord_of_load hload haudited (hsetup.locales ▸ hcode)
  have hends : AuditsTo refusals fillIn keys v code record (step.state, step.result) :=
    auditsTo_auditOneAgainst refusals hrecord
  refine ⟨record, hrecord.get, hends.exists_error_iff, fun e he => ?_⟩
  rw [he] at hends
  exact hends.isLeftBy hrecord

/-- No file can be renamed. -/
def renamingRefused : Refusals := fun step => if step = .rename then some .notFound else none

/-- A refused renaming leaves a farewell in the Dutch record. -/
theorem auditOneAgainst_of_load_greeted :
    let failed := auditOneAgainst renamingRefused true ["Bye"] "nl" (load greeted).state
    ∃ report e, (load greeted).result = .ok report ∧ failed.result = .error e ∧
      failed.state.store.get "nl" = .ok (dutch.extended ["Bye"]) ∧
      Job.outcome (auditOne true ["Bye"] "nl") failed.state =
        (failed.state, .ok ⟨"nl", [], [], false⟩) := by
  obtain ⟨report, hload, hstore⟩ := load_greeted
  obtain ⟨record, hget, hfails, hleft⟩ := auditOneAgainst_of_load hload .refl
    (by decide : "nl" ∈ greeted.store.locales.codes) renamingRefused true ["Bye"]
  have hdutch : (load greeted).state.store.get "nl" = .ok dutch := by
    rw [hstore]
    rfl
  obtain rfl : dutch = record := Except.ok.inj (hdutch.symm.trans hget)
  have hmissing : dutch.missing ["Bye"] = ["Bye"] := by cbv
  have hunused : dutch.unused ["Bye"] = [] := by cbv
  obtain ⟨e, he⟩ := hfails.mpr ⟨rfl, ⟨"Bye", by decide, by decide⟩,
    fun hcan => absurd (hcan.1 .rename) (by decide)⟩
  have hafter := hleft e he
  have hbye := hafter.get "nl"
  have hagain := hafter.outcome_auditOne true
  rw [if_pos rfl, hmissing] at hbye
  rw [hunused] at hagain
  exact ⟨report, e, hload, he, hbye, hagain⟩

/-- English, with a directory at the place of its file. -/
def blocked : Workspace where
  tree := ⟨[(["i18n"], .directory 0o755), (["i18n", "en.json"], .directory 0o755)]⟩
  store := { locales := Locales.english, files := ⟨⟨"", ["i18n"]⟩⟩, addMissing := false }
  ledger := {}

lemma missing_emptyRecord_hello : (emptyRecord "en").missing ["Hello"] = ["Hello"] := by
  cbv

lemma outcome_auditOne_blocked : Job.outcome (auditOne true ["Hello"] "en") (load blocked).state =
    ({ (load blocked).state with
        store := (load blocked).state.store.putRecord "en" ((emptyRecord "en").extended ["Hello"]) },
      .error (.file .isDirectory)) := by
  have hmissing : (emptyRecord "en").missing ["Hello"] ≠ [] := by simp [missing_emptyRecord_hello]
  have hfills := outcome_auditOneAgainst_missing (v := (load blocked).state) (fun _ => none)
    (rfl : (load blocked).state.store.get "en" = .ok (emptyRecord "en")) hmissing
  rw [completed_eq_extended, missing_emptyRecord_hello] at hfills
  exact hfills.trans rfl

/-- English has no translations in memory and no file, and an audit fails that was to fill in a key.
Then the key is in memory. When the directory is gone, another audit finds that nothing is missing, and
writes no file. -/
theorem auditOne_blocked_twice :
    let failed := auditOne true ["Hello"] "en" (load blocked).state
    let cleared := { failed.state with tree := ⟨[(["i18n"], .directory 0o755)]⟩ }
    (∃ report, (load blocked).result = .ok report) ∧
    (load blocked).state.store.get "en" = .ok (emptyRecord "en") ∧
    failed.result = .error (.file .isDirectory) ∧
    failed.state.store.get "en" = .ok ((emptyRecord "en").extended ["Hello"]) ∧
    cleared.store.files.CanWrite cleared.tree "en" ∧
    Job.outcome (auditOne true ["Hello"] "en") cleared = (cleared, .ok ⟨"en", [], [], false⟩) := by
  intro failed cleared
  obtain ⟨hstate, hresult⟩ := Prod.mk.inj outcome_auditOne_blocked
  have hget : failed.state.store.get "en" = .ok ((emptyRecord "en").extended ["Hello"]) := by
    show (auditOne true ["Hello"] "en" (load blocked).state).state.store.get "en" = _
    rw [hstate]
    rfl
  have hmissing : ((emptyRecord "en").extended ["Hello"]).missing ["Hello"] = [] := by cbv
  have hunused : ((emptyRecord "en").extended ["Hello"]).unused ["Hello"] = [] := by cbv
  refine ⟨⟨_, rfl⟩, rfl, hresult, hget, ?_, ?_⟩
  · show failed.state.store.files.CanWrite _ "en"
    have hfiles : failed.state.store.files = ⟨⟨"", ["i18n"]⟩⟩ := by
      show (auditOne true ["Hello"] "en" (load blocked).state).state.store.files = _
      rw [hstate]
      rfl
    have hfree : cleared.tree.at? ["i18n", "en.json"] = none := rfl
    rw [hfiles]
    exact ⟨["i18n", "en.json"], rfl, fun m hdirectory => absurd (hfree.symm.trans hdirectory) (by simp)⟩
  · have hcleared : cleared.store.get "en" = .ok ((emptyRecord "en").extended ["Hello"]) := hget
    rw [← auditOneAgainst_none,
      outcome_auditOneAgainst_kept (fun _ => none) hcleared fun _ => hmissing, hmissing, hunused]

end LocaleBundle.Locale.Workspace
