import LocaleBundle.Proofs.Locale.Audit
import LocaleBundle.Proofs.Locale.Lookup

/-!
# Audits after a load

After a load every configured locale has a record, so an audit finds something to say about each. It
only fails to return if it has to write a file that cannot be written, and after a load that adds
missing files all of them can be.
-/

namespace LocaleBundle.Locale.Workspace

open Files Record Store

variable {w v : Workspace} {code : String} {report : LoadReport}

/-- The records after a load and audits are those of the configured locales. -/
lemma hasRecord_iff_of_load (hload : (load w).result = .ok report) (h : AuditedFrom (load w).state v)
    {record : Record} : v.store.HasRecord code record ↔ v.store.get code = .ok record := by
  obtain ⟨hready, -⟩ := isReady_of_load hload h
  refine ⟨fun hrecord => hrecord.get, fun hget => ⟨?_, hget, (hready.loaded.settled code record hget).1⟩⟩
  rw [← hready.loaded.records]
  exact mem_keys_of_get hget

lemma exists_hasRecord_of_load (hload : (load w).result = .ok report)
    (h : AuditedFrom (load w).state v) (hcode : code ∈ v.store.locales.codes) :
    ∃ record, v.store.HasRecord code record := by
  obtain ⟨hready, -⟩ := isReady_of_load hload h
  simp only [hasRecord_iff_of_load hload h]
  exact hready.loaded.exists_get hcode

/-- The audit of a locale touches no other, whether it returns or fails. -/
lemma changesOnly_auditOne (hload : (load w).result = .ok report) (h : AuditedFrom (load w).state v)
    (fillIn : Bool) (keys : List String) (code : String) :
    ChangesOnly keys [code] v (auditOne fillIn keys code v).state := by
  cases hget : v.store.get code with
  | ok record =>
    have hrecord := (hasRecord_iff_of_load hload h).mpr hget
    exact (auditsTo_auditOneAgainst (fun _ => none) hrecord).changesOnly hrecord
  | error e =>
    have houtcome : Job.outcome (auditOne fillIn keys code) v = (v, .error e) :=
      outcome_auditOne_error hget
    rw [(Prod.mk.inj houtcome).1]
    exact (ChangesOnly.refl keys v).mono (List.forall_mem_nil _)

/-- An audit after a load, and after whatever audits came before, says of every configured locale
which of the given keys are missing and which keys are unused. Without filling in it returns, and
nothing changes. With filling in it returns if the files can be written that have to be, as they can
be after a load that adds missing files; then exactly the locales that miss keys have them behind
their other translations, in memory and on file, and nothing else changes. Auditing one locale alone
touches no other, whether it returns or fails. All of this is about records and keys without lone
surrogates, which no text holds and no file can be given. -/
theorem audit_findings (hload : (load w).result = .ok report) (h : AuditedFrom (load w).state v)
    (keys : List String) :
    (∃ found, Job.outcome (audit false keys) v = (v, .ok found)) ∧
    ((∃ found, (audit true keys v).result = .ok found) ↔
      ∀ code ∈ w.store.locales.codes, v.CanAudit true keys code) ∧
    (w.store.addMissing = true → FileTree.SameDirectories (load w).state.tree v.tree →
      ∃ found, (audit true keys v).result = .ok found) ∧
    (∀ fillIn found, (audit fillIn keys v).result = .ok found →
      List.Forall₂ (fun code findings => ∃ record,
          IsAudited fillIn keys v (audit fillIn keys v).state code findings record)
        w.store.locales.codes found.findings ∧
      ChangesOnly keys found.filledIn v (audit fillIn keys v).state) ∧
    ∀ fillIn code, ChangesOnly keys [code] v (auditOne fillIn keys code v).state := by
  obtain ⟨-, hsetup⟩ := isReady_of_load hload h
  have hrecords : ∀ code ∈ v.store.locales.codes, ∃ record, v.store.HasRecord code record :=
    fun code hcode => exists_hasRecord_of_load hload h hcode
  rw [← hsetup.locales]
  refine ⟨?_, exists_audit_iff hrecords, fun hadd hsame => ?_, fun fillIn found hfound => ?_,
    fun fillIn code => changesOnly_auditOne hload h fillIn keys code⟩
  · -- nothing has to be written, so the audit returns
    obtain ⟨found, hfound⟩ : ∃ found, (audit false keys v).result = .ok found :=
      (exists_audit_iff hrecords).mpr fun code _ record _ hfill => absurd hfill Bool.false_ne_true
    exact ⟨found, Prod.ext (state_audit_false keys v) hfound⟩
  · refine (exists_audit_iff hrecords).mpr fun code hcode record _ _ _ => ?_
    have hcan := canWrite_of_load hadd hload (hsetup.locales ▸ hcode)
    rw [hsetup.files]
    exact (canWrite_congr (v.store.locales.valid code hcode) hsame).mpr hcan
  · exact isAudited_of_audit hrecords hfound

/-- Dutch misses the farewell, and so does English, where the greeting is unused. -/
theorem audit_findings_greeted : ∃ report found, (load greeted).result = .ok report ∧
    (audit true ["Bye"] (load greeted).state).result = .ok found ∧
    found.findings = [⟨"nl", ["Bye"], [], true⟩, ⟨"en", ["Bye"], ["Hello"], true⟩] ∧
    (audit true ["Bye"] (load greeted).state).state.store.get "en" =
      .ok (greeting.extended ["Bye"]) := by
  obtain ⟨report, hload, hstore⟩ := load_greeted
  obtain ⟨-, -, hreturns, hfinds, -⟩ := audit_findings hload .refl ["Bye"]
  obtain ⟨found, hfound⟩ := hreturns rfl (.refl _)
  obtain ⟨haudited, -⟩ := hfinds true found hfound
  have hcodes : greeted.store.locales.codes = ["nl", "en"] := rfl
  rw [hcodes] at haudited
  obtain ⟨nl, rest, ⟨r, hnl⟩, hrest, hall⟩ := List.forall₂_cons_left_iff.mp haudited
  obtain ⟨en, rest, ⟨r', hen⟩, hnil, rfl⟩ := List.forall₂_cons_left_iff.mp hrest
  obtain rfl := List.forall₂_nil_left_iff.mp hnil
  -- the records are those of the files
  have hget : ∀ {code record}, (load greeted).state.store.get code = .ok record →
      Entries.get? code [("nl", dutch), ("en", greeting)] = some record := by
    intro code record hcode
    rw [hstore] at hcode
    exact get_eq_ok_iff.mp hcode
  obtain rfl : dutch = r := Option.some.inj (hget hnl.get)
  obtain rfl : greeting = r' := Option.some.inj (hget hen.get)
  have hdutch : nl = ⟨"nl", ["Bye"], [], true⟩ :=
    (hnl.findings_eq isWritable_dutch.nodup_keys_translations).trans (by cbv)
  have hgreeting : en = ⟨"en", ["Bye"], ["Hello"], true⟩ :=
    (hen.findings_eq isWritable_greeting.nodup_keys_translations).trans (by cbv)
  refine ⟨report, found, hload, hfound, ?_, ?_⟩
  · rw [hall, hdutch, hgreeting]
  · rw [hen.left, hgreeting]
    rfl

end LocaleBundle.Locale.Workspace
