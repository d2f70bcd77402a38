import LocaleBundle.Locale.Store
import LocaleBundle.Proofs.Json.IsJson
import LocaleBundle.Proofs.Logged

/-!
# What loading leaves in the store

Every translation of a loaded record was read from a JSON file, so it is a JSON value. That holds
of the store after each step of loading, also when a later step fails.
-/

namespace LocaleBundle.Locale

/-- Whether all translations of a record are JSON values. -/
def Record.HoldsJson (record : Record) : Prop := ∀ e ∈ record.translations, e.2.IsJson

/-- Whether all records of a store hold JSON values. -/
def Store.HoldsJson (store : Store) : Prop := ∀ e ∈ store.records, e.2.HoldsJson

/-! ## One record -/

lemma ok_of_mapError_eq_ok {ε ε' α : Type} {x : Except ε α} {f : ε → ε'} {a : α}
    (h : x.mapError f = .ok a) : x = .ok a := by
  cases x with
  | error e => exact absurd h (by simp [Except.mapError])
  | ok b => exact congrArg Except.ok (Except.ok.inj h)

lemma isJson_of_read {files : Files} {tree : FileTree} {locale : String} {content : Value}
    (h : files.read tree locale = .ok content) : content.IsJson := by
  unfold Files.read at h
  split at h
  · exact absurd h (by simp)
  · unfold Files.decode at h
    split at h
    · exact absurd h (by simp)
    · exact Json.isJson_of_readDocument (ok_of_mapError_eq_ok h)

/-- The translations of a record are a field of the content, or there are none. -/
lemma holdsJson_of_ofValue? {content : Value} {record : Record} (hcontent : content.IsJson)
    (h : Record.ofValue? content = .ok record) : record.HoldsJson := by
  cases hcontent with
  | @map fields hkeys hvalues =>
    have hfield : ((Entries.get? "translations" fields).getD (.map [])).IsJson := by
      cases hget : Entries.get? "translations" fields with
      | none => exact .map List.nodup_nil (by simp)
      | some v => exact hvalues _ (Entries.mem_of_get? hget)
    simp only [Record.ofValue?] at h
    -- the record is made if no check refuses the content
    split at h
    · rename_i translations htranslations
      rw [htranslations] at hfield
      split at h
      · exact absurd h (by simp)
      · split at h
        · exact absurd h (by simp)
        · rw [← Except.ok.inj h]
          cases hfield with
          | map _ hjson => exact hjson
    · exact absurd h (by simp)
  | _ => exact absurd h (by simp [Record.ofValue?])

/-- Accepting a record fills in its name at most. -/
lemma translations_of_accept {store : Store} {locale : String} {content : Value} {record : Record}
    (h : store.accept locale content = .ok record) :
    ∃ original, Record.ofValue? content = .ok original ∧
      record.translations = original.translations := by
  simp only [Store.accept] at h
  split at h
  · exact absurd h (by simp)
  · rename_i original horiginal
    refine ⟨original, ok_of_mapError_eq_ok horiginal, ?_⟩
    have hnamed : (if original.name = "" then { original with name := Store.nameFor locale }
        else original).translations = original.translations := by
      split <;> rfl
    split at h
    · exact absurd h (by simp)
    · split at h
      · rw [← Except.ok.inj h, hnamed]
      · split at h
        · rw [← Except.ok.inj h, hnamed]
        · exact absurd h (by simp)
      · exact absurd h (by simp)

/-- A record is read from its file, or it is an empty one. -/
lemma keeps_loadLocale (store : Store) (locale : String) :
    Job.Keeps (fun _ => True) (fun loaded => loaded.1.HoldsJson) (store.loadLocale locale) := by
  have hempty : (Store.emptyRecord locale).HoldsJson := by
    intro e he
    exact absurd he List.not_mem_nil
  unfold Store.loadLocale
  refine Job.keeps_get.bind fun tree _ => ?_
  split
  · refine (Job.keeps_ofExcept (Q := Value.IsJson) fun content => isJson_of_read).bind
      fun content hcontent => ?_
    refine (Job.keeps_ofExcept (Q := Record.HoldsJson) fun record hrecord => ?_).bind
      fun record hrecord => Job.keeps_ok hrecord
    obtain ⟨original, horiginal, hsame⟩ := translations_of_accept hrecord
    unfold Record.HoldsJson
    rw [hsame]
    exact holdsJson_of_ofValue? hcontent horiginal
  · split
    · refine (Job.keeps_true (store.files.write _)).bind fun _ _ => ?_
      exact (Job.keeps_record _ _).bind fun _ _ => Job.keeps_ok hempty
    · exact Job.keeps_ok hempty

/-! ## The store -/

lemma holdsJson_insert {records : Entries Record} {locale : String} {record : Record}
    (hrecords : ∀ e ∈ records, e.2.HoldsJson) (hrecord : record.HoldsJson) :
    ∀ e ∈ Entries.insert locale record records, e.2.HoldsJson := by
  intro e he
  rcases Entries.mem_of_mem_insert he with rfl | he
  · exact hrecord
  · exact hrecords e he

namespace Workspace

variable {α : Type}

/-- Whether a property of workspaces stays when the files change and when a record of JSON values is
taken into the store. -/
structure StaysInLoading (P : Workspace → Prop) : Prop where
  tree : ∀ (w : Workspace) (tree : FileTree), P w → P { w with tree := tree }
  take : ∀ (w : Workspace) (locale : String) (record : Record), record.HoldsJson → P w →
    P { w with store := w.store.take locale record }

variable {P : Workspace → Prop}

lemma keeps_onFiles (hP : StaysInLoading P) {Q : α → Prop} {job : Job FileTree α}
    (h : Job.Keeps (fun _ => True) Q job) : Job.Keeps P Q (onFiles job) :=
  Job.keeps_within hP.tree h

lemma keeps_loadOne (hP : StaysInLoading P) (locale : String) :
    Job.Keeps P (fun _ => True) (loadOne locale) := by
  unfold loadOne
  refine (Job.keeps_get (P := P)).bind fun w _ => ?_
  refine (keeps_onFiles hP (keeps_loadLocale w.store locale)).bind fun loaded hloaded => ?_
  exact Job.Keeps.bind (Q := fun _ => True)
    (Job.keeps_modify fun w hw => hP.take w locale loaded.1 hloaded hw) fun _ _ => Job.keeps_ok trivial

lemma keeps_checkCycles : Job.Keeps P (fun _ => True) checkCycles := by
  unfold checkCycles
  refine Job.keeps_get.bind fun w _ => ?_
  simp only
  split
  · exact Job.keeps_ok trivial
  · exact Job.keeps_fail _

/-- Noting keys changes the ledger only. -/
lemma keeps_notePluralKeys
    (hP : ∀ (w : Workspace) (ledger : KeyLedger), P w → P { w with ledger := ledger }) :
    Job.Keeps P (fun _ => True) notePluralKeys := by
  unfold notePluralKeys
  refine Job.keeps_get.bind fun w _ => ?_
  refine (Job.keeps_forEach (R := fun _ => True) fun noted _ => ?_).bind
    fun _ _ => Job.keeps_ok trivial
  unfold notePluralKey
  exact (Job.keeps_record _ _).bind fun _ _ => Job.keeps_within hP (Job.keeps_true _)

/-- What is true when the store is emptied, and stays in loading, is true after a load. -/
lemma state_load {w : Workspace} (hP : StaysInLoading P)
    (hledger : ∀ (w : Workspace) (ledger : KeyLedger), P w → P { w with ledger := ledger })
    (hw : P { w with store := { w.store with records := [], fallbacks := [] } }) :
    P (load w).state := by
  unfold load
  refine Job.Keeps.after_modify (R := fun _ => True) ?_ hw
  refine Job.keeps_get.bind fun w _ => ?_
  refine (keeps_onFiles hP (Job.keeps_true _)).bind fun _ _ => ?_
  refine (Job.keeps_forEach fun locale _ => keeps_loadOne hP locale).bind fun entries _ => ?_
  refine keeps_checkCycles.bind fun _ _ => ?_
  refine (keeps_notePluralKeys hledger).bind fun _ _ => ?_
  exact (Job.keeps_record _ _).bind fun _ _ => Job.keeps_ok trivial

/-- Whether the store of a workspace holds JSON values. -/
def HoldsJson (w : Workspace) : Prop := w.store.HoldsJson

lemma staysInLoading_holdsJson : StaysInLoading HoldsJson where
  tree _ _ hw := hw
  take _ _ _ hrecord hw := holdsJson_insert hw hrecord

/-- Whatever was in the store before, after loading it holds JSON values only. -/
theorem holdsJson_load (w : Workspace) : (load w).state.HoldsJson := by
  -- the first step drops all records
  refine state_load staysInLoading_holdsJson (fun _ _ hw => hw) ?_
  intro e he
  exact absurd he List.not_mem_nil

end Workspace

end LocaleBundle.Locale
