import LocaleBundle.Proofs.Locale.Acceptance
import LocaleBundle.Proofs.Locale.Loaded

/-!
# Records that agree with their files

After a load the record of every locale is the one that its file gives when it is read again. As
long as that holds, a fresh load finds the same records and the same fallbacks.
-/

namespace LocaleBundle.Locale

open Files Record

namespace Locales

/-- One locale alone. -/
def single (code : String) (h : Code.isValid code = true) : Locales where
  codes := [code]
  default := code
  valid := List.forall_mem_singleton.mpr h
  nodup := List.nodup_singleton code
  default_mem := List.mem_singleton_self code

/-- English alone. -/
def english : Locales := single "en" rfl

/-- Dutch and English, with Dutch as the default. -/
def dutchAndEnglish : Locales where
  codes := ["nl", "en"]
  default := "nl"
  valid := by decide
  nodup := by decide
  default_mem := List.mem_cons_self

end Locales

namespace Store

/-- Whether a record can be the one of a locale after a load. -/
structure IsSettled (store : Store) (code : String) (record : Record) : Prop where
  writable : record.IsWritable
  locale : record.locale = .text code
  fallback : record.fallback = .null ∨
    ∃ other ∈ store.locales.codes, record.fallback = .text other
  named : named code record = record

variable {store : Store} {code : String} {record : Record}

lemma named_named (code : String) (record : Record) :
    named code (named code record) = named code record := by
  unfold named
  by_cases hname : record.name = ""
  · simp only [hname, if_true]
    split <;> rfl
  · simp only [hname, if_false]

/-- The name of a record does not matter for whether it can be written. -/
lemma isWritable_named (h : record.IsWritable) (code : String) : (named code record).IsWritable := by
  unfold named
  split
  · exact ⟨h.locale, h.fallback, h.fallbackJson, h.areTranslations, h.translationsJson,
      h.extraNames, h.extraJson⟩
  · exact h

lemma isSettled_emptyRecord (store : Store) (code : String) :
    store.IsSettled code (emptyRecord code) := by
  refine ⟨isWritable_emptyRecord code, rfl, Or.inl rfl, ?_⟩
  unfold named
  split <;> rfl

/-- A record that was accepted for a locale is settled. -/
lemma isSettled_of_accept {content : Value} (hjson : content.IsJson)
    (h : store.accept code content = .ok record) : store.IsSettled code record := by
  obtain ⟨original, horiginal, hlocale, hfallback, rfl⟩ := exists_of_accept h
  obtain ⟨fields, rfl, hfields⟩ := ofValue?_eq_ok_iff.mp horiginal
  refine ⟨isWritable_named (hfields.isWritable hjson) code, ?_, ?_, named_named code original⟩
  · rw [← hlocale]
    unfold named
    split <;> rfl
  · rwa [named_fallback]

/-- What is written for a settled record gives that record again. -/
lemma IsSettled.recordFrom_content (h : store.IsSettled code record) :
    store.recordFrom code (content record) = .ok record := by
  rw [Store.recordFrom_content h.writable h.locale h.fallback, h.named]

variable {tree : FileTree} {folder : Place}

/-- A locale whose file holds a settled record can be loaded. -/
lemma IsSettled.canLoad (h : store.IsSettled code record)
    (hfolder : tree.IsFolder store.files.directory folder) (hvalid : Code.isValid code = true)
    {mode : ℕ} (hfile : tree.at? (placeIn folder code) = some (.file (content record).toUTF8 mode)) :
    store.recordIn tree code = record ∧ CanLoad store tree folder code := by
  have hrecord : store.recordOf tree code = .ok record := by
    rw [recordOf_of_onFile ((onFile_iff hfolder hvalid).mpr ⟨mode, hfile⟩), h.recordFrom_content]
  have hin : store.recordIn tree code = record := by
    rw [recordIn, hrecord]
    rfl
  refine ⟨hin, hrecord.trans (congrArg Except.ok hin.symm), fun _ m hdirectory => ?_⟩
  exact absurd (hfile.symm.trans hdirectory) (by simp)

/-- The record that a tree gives a locale is settled. -/
lemma isSettled_of_recordOf (h : store.recordOf tree code = .ok record) :
    store.IsSettled code record := by
  unfold recordOf at h
  split at h
  · cases hread : store.files.read tree code with
    | error e =>
      rw [hread] at h
      exact absurd h (by simp)
    | ok content =>
      rw [hread] at h
      exact isSettled_of_accept (isJson_of_read hread) h
  · rw [← Except.ok.inj h]
    exact isSettled_emptyRecord store code

/-- A locale is given the same record after files were added. -/
lemma recordOf_addsFiles {codes : List String} {after : FileTree}
    (hfolder : tree.IsFolder store.files.directory folder) (hvalid : Code.isValid code = true)
    (hcode : code ∈ codes) (hadds : AddsFiles store folder codes tree after) :
    store.recordOf after code = store.recordOf tree code := by
  have hafter := hfolder.of_keepsDirectories hadds.keepsDirectories
  by_cases hnew : store.addMissing = true ∧ tree.at? (placeIn folder code) = none
  · -- the file that was added holds the empty record
    obtain ⟨hadd, hnone⟩ := hnew
    have hfile := hadds.added hadd code hcode hnone
    have honFile := (onFile_iff hafter hvalid).mpr ⟨_, hfile⟩
    have habsent : ¬ store.files.isPresent tree code = true := by
      rw [isPresent_iff hvalid hfolder, hnone]
      simp
    rw [recordOf_of_onFile honFile,
      (isSettled_emptyRecord store code).recordFrom_content, recordOf, if_neg habsent]
  · refine (recordOf_congr hfolder hvalid hafter (hadds.kept _ fun other _ hplace => ?_)).1
    by_contra hnot
    rw [not_or, not_not, Bool.not_eq_false] at hnot
    exact hnew ⟨hnot.2, hnot.1⟩

/-- Whether two stores are for the same locales, in the same files. -/
structure SameSetup (store other : Store) : Prop where
  locales : other.locales = store.locales
  files : other.files = store.files
  addMissing : other.addMissing = store.addMissing

lemma SameSetup.refl (store : Store) : SameSetup store store := ⟨rfl, rfl, rfl⟩

lemma SameSetup.trans {first second third : Store} (h : SameSetup first second)
    (h' : SameSetup second third) : SameSetup first third :=
  ⟨h'.locales.trans h.locales, h'.files.trans h.files, h'.addMissing.trans h.addMissing⟩

/-- Of the store, only the configured locales matter for what is settled. -/
lemma IsSettled.of_same {other : Store} (h : store.IsSettled code record)
    (hlocales : other.locales = store.locales) : other.IsSettled code record :=
  ⟨h.writable, h.locale, hlocales ▸ h.fallback, h.named⟩

/-- A locale is given its record by the files and the configured locales alone. -/
lemma recordOf_of_same {other : Store} (hlocales : other.locales = store.locales)
    (hfiles : other.files = store.files) : other.recordOf tree code = store.recordOf tree code := by
  unfold recordOf accept
  rw [hlocales, hfiles]

end Store

namespace Workspace

open Store

/-- Whether the records in the store are the ones that the files give. -/
structure Consistent (w : Workspace) (folder : Place) (record : String → Record) : Prop where
  isFolder : w.tree.IsFolder w.store.files.directory folder
  records : w.store.records = w.store.locales.codes.map fun code => (code, record code)
  fallbacks : w.store.fallbacks =
    w.store.locales.codes.map fun code => (code, (record code).fallback.asText?)
  acyclic : w.store.fallbacks.cycles = []
  recordOf : ∀ code ∈ w.store.locales.codes, w.store.recordOf w.tree code = .ok (record code)
  clear : w.store.addMissing = true → ∀ code ∈ w.store.locales.codes, ∀ m,
    w.tree.at? (placeIn folder code) ≠ some (.directory m)

variable {w : Workspace} {folder : Place} {record : String → Record} {code : String}

lemma Consistent.get (h : Consistent w folder record) (hcode : code ∈ w.store.locales.codes) :
    w.store.get code = .ok (record code) := by
  rw [Store.get, h.records, Entries.get?_map record hcode]

lemma Consistent.isSettled (h : Consistent w folder record)
    (hcode : code ∈ w.store.locales.codes) : w.store.IsSettled code (record code) :=
  isSettled_of_recordOf (h.recordOf code hcode)

/-! ## After a load -/

/-- A load that returns has met no cycle, and noting the plural keys changes the ledger only. -/
lemma conclude_ok {entries : List LoadEntry} {report : LoadReport}
    (h : (conclude entries w).result = .ok report) : w.store.fallbacks.cycles = [] ∧
      (conclude entries w).state.tree = w.tree ∧ (conclude entries w).state.store = w.store := by
  cases hcycles : w.store.fallbacks.cycles with
  | cons cycle others =>
    have hfails := (Prod.mk.inj (outcome_conclude_cons entries hcycles)).2
    exact absurd (h.symm.trans hfails) (by simp)
  | nil =>
    refine ⟨rfl, ?_⟩
    have hrest : Job.outcome (conclude entries) w = _ :=
      Job.outcome_bind_ok (outcome_checkCycles_nil hcycles)
    have hkeeps : Job.Keeps (fun v => v.tree = w.tree ∧ v.store = w.store) (fun _ => True)
        (Job.bind notePluralKeys fun _ =>
          Job.bind (Job.record .debug ("Locales loaded: " ++ (LoadReport.mk entries).line)) fun _ =>
            Job.ok (LoadReport.mk entries)) :=
      (keeps_notePluralKeys fun _ _ hv => hv).bind fun _ _ =>
        (Job.keeps_record _ _).bind fun _ _ => Job.keeps_ok trivial
    have hstate := (Prod.mk.inj hrest).1
    rw [hstate]
    exact (hkeeps w ⟨rfl, rfl⟩).1

/-- A load that returns was able to load every locale, and met no cycle. -/
lemma exists_of_load {report : LoadReport} (h : (load w).result = .ok report) :
    ∃ made folder after, made.IsFolder w.store.files.directory folder ∧
      (∀ code ∈ w.store.locales.codes, CanLoad w.store made folder code) ∧
      AddsFiles w.store folder w.store.locales.codes made after ∧
      (w.store.loadedFrom made).fallbacks.cycles = [] ∧
      Job.outcome load w = Job.outcome (conclude (w.store.locales.codes.map (w.store.entryOf made)))
        { w with tree := after, store := w.store.loadedFrom made } := by
  cases hmakes : w.tree.makeDirectories w.store.files.directory with
  | error e =>
    have hfails := (Prod.mk.inj (outcome_load_of_makeDirectories_error hmakes)).2
    exact absurd (h.symm.trans hfails) (by simp)
  | ok made =>
    obtain ⟨-, folder, hfolder⟩ := FileTree.isFolder_of_makeDirectories hmakes
    have hcan := canLoad_of_load hmakes hfolder h
    obtain ⟨after, hadds, hload⟩ := outcome_load_of_canLoad hmakes hfolder hcan
    have hacyclic := (conclude_ok ((Prod.mk.inj hload).2.symm.trans h)).1
    exact ⟨made, folder, after, hfolder, hcan, hadds, hacyclic, hload⟩

/-- A load that returns has noted the plural keys of all records in the ledger that it was given. -/
theorem ledger_load {report : LoadReport} (hopen : w.ledger.closed = false)
    (h : (load w).result = .ok report) :
    (load w).state.ledger = w.ledger.withPlurals (load w).state.store.tableKeys := by
  obtain ⟨made, folder, after, -, -, -, hacyclic, hload⟩ := exists_of_load h
  rw [outcome_conclude_nil
    (w := { w with tree := after, store := w.store.loadedFrom made }) _ hopen hacyclic] at hload
  rw [(Prod.mk.inj hload).1]

/-- After a load that returns, the records agree with the files. -/
theorem consistent_load {report : LoadReport} (h : (load w).result = .ok report) :
    SameSetup w.store (load w).state.store ∧
    ∃ folder record, Consistent (load w).state folder record := by
  obtain ⟨made, folder, after, hfolder, hcan, hadds, hacyclic, hload⟩ := exists_of_load h
  obtain ⟨hstate, hresult⟩ := Prod.mk.inj hload
  obtain ⟨-, htree, hstore⟩ := conclude_ok (hresult.symm.trans h)
  have hloaded : (load w).state.store = w.store.loadedFrom made :=
    (congrArg Workspace.store hstate).trans hstore
  have hafter : (load w).state.tree = after := (congrArg Workspace.tree hstate).trans htree
  refine ⟨hloaded ▸ ⟨rfl, rfl, rfl⟩, folder, w.store.recordIn made, ?_⟩
  refine ⟨?_, ?_, ?_, ?_, ?_, ?_⟩
  · rw [hloaded, hafter]
    exact hfolder.of_keepsDirectories hadds.keepsDirectories
  · rw [hloaded]
    rfl
  · rw [hloaded]
    rfl
  · rw [hloaded]
    exact hacyclic
  · rw [hloaded, hafter]
    intro code hcode
    exact (recordOf_addsFiles hfolder (w.store.locales.valid code hcode) hcode hadds).trans
      (hcan code hcode).recordOf
  · rw [hloaded, hafter]
    intro hadd code hcode m hdirectory
    -- what is added is a file, and what was there is no directory
    cases hnode : made.at? (placeIn folder code) with
    | none =>
      rw [hadds.added hadd code hcode hnode] at hdirectory
      exact absurd hdirectory (by simp)
    | some node =>
      rw [hadds.at?_of_ne_none (by simp [hnode])] at hdirectory
      exact (hcan code hcode).target hadd m hdirectory

/-! ## A fresh load -/

/-- A fresh load of files that agree with the records finds the same records and fallbacks. -/
theorem Consistent.load_fresh (h : Consistent w folder record) {fresh : Workspace}
    (htree : fresh.tree = w.tree) (hlocales : fresh.store.locales = w.store.locales)
    (hfiles : fresh.store.files = w.store.files) (hopen : fresh.ledger.closed = false)
    (hclear : fresh.store.addMissing = true → ∀ code ∈ w.store.locales.codes, ∀ m,
      w.tree.at? (placeIn folder code) ≠ some (.directory m)) :
    ∃ report, (load fresh).result = .ok report ∧
      (load fresh).state.store.records = w.store.records ∧
      (load fresh).state.store.fallbacks = w.store.fallbacks := by
  have hfolder : fresh.tree.IsFolder fresh.store.files.directory folder := by
    rw [htree, hfiles]
    exact h.isFolder
  have hrecord : ∀ code ∈ w.store.locales.codes, fresh.store.recordOf fresh.tree code =
      .ok (record code) := by
    intro code hcode
    rw [htree, recordOf_of_same hlocales hfiles]
    exact h.recordOf code hcode
  have hin : ∀ code ∈ w.store.locales.codes,
      fresh.store.recordIn fresh.tree code = record code := by
    intro code hcode
    rw [recordIn, hrecord code hcode]
    rfl
  have hcan : ∀ code ∈ fresh.store.locales.codes,
      fresh.store.CanLoad fresh.tree folder code := by
    rw [hlocales]
    intro code hcode
    refine ⟨?_, fun hadd => htree ▸ hclear hadd code hcode⟩
    rw [hrecord code hcode, hin code hcode]
  have hrecords : (fresh.store.loadedFrom fresh.tree).records = w.store.records := by
    rw [h.records, loadedFrom, hlocales]
    exact List.map_congr_left fun code hcode => by rw [hin code hcode]
  have hfallbacks : (fresh.store.loadedFrom fresh.tree).fallbacks = w.store.fallbacks := by
    rw [h.fallbacks, loadedFrom, hlocales]
    exact List.map_congr_left fun code hcode => by rw [hin code hcode]
  obtain ⟨after, -, hload⟩ := outcome_load_of_canLoad hfolder.makeDirectories hfolder hcan
  rw [outcome_conclude_nil
    (w := { fresh with tree := after, store := fresh.store.loadedFrom fresh.tree }) _ hopen
    (hfallbacks ▸ h.acyclic)] at hload
  obtain ⟨hstate, hresult⟩ := Prod.mk.inj hload
  rw [hstate, hresult]
  exact ⟨_, rfl, hrecords, hfallbacks⟩

end Workspace

end LocaleBundle.Locale
