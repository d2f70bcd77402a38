import LocaleBundle.Proofs.Locale.FilledIn
import LocaleBundle.Proofs.Locale.Writing

/-!
# What an audit finds and changes

The audit of a locale goes one of three ways. If nothing is to be filled in, all stays as it is. Else
the record is completed in memory and its file is written with it; if that cannot be done, the files
stay as they are. So an audit of all locales finds for each what its record was before, and changes
the records and the files of those that it fills in, and nothing else.
-/

namespace LocaleBundle.Locale

open Files Record

namespace Store

/-- Whether a locale is configured and has a record that can be loaded. -/
structure HasRecord (store : Store) (code : String) (record : Record) : Prop where
  configured : code ∈ store.locales.codes
  get : store.get code = .ok record
  settled : store.IsSettled code record

/-- Writes the file of a record from memory while some steps are refused. -/
def saveRecordAgainst (refusals : Refusals) (store : Store) (locale : String) :
    Job FileTree Unit := do
  let record ← Job.ofExcept (store.get locale)
  let path ← store.files.writeAgainst refusals record
  Job.record .info ("Wrote locale file " ++ path)

variable {store other : Store} {code : String} {record : Record}

lemma HasRecord.of_same (h : store.HasRecord code record) (hlocales : other.locales = store.locales)
    (hget : other.get code = store.get code) : other.HasRecord code record :=
  ⟨hlocales ▸ h.configured, hget.trans h.get, h.settled.of_same hlocales⟩

lemma HasRecord.valid (h : store.HasRecord code record) : Code.isValid code = true :=
  store.locales.valid code h.configured

lemma HasRecord.completed (h : store.HasRecord code record) (keys : List String) :
    (store.putRecord code (record.completed keys)).HasRecord code (record.completed keys) :=
  ⟨h.configured, by rw [get_putRecord, if_pos rfl], (h.settled.completed keys).of_same rfl⟩

end Store

namespace Workspace

open Store

variable {v middle after : Workspace} {fillIn : Bool} {keys codes changed more : List String}
  {code : String} {record : Record} {findings : Findings} {refusals : Refusals}

/-! ## What may change -/

/-- Whether only the records and the files of some locales have changed. The records were completed
with some keys; there are the same directories, and files of other locales or elsewhere are as they
were. -/
structure ChangesOnly (keys changed : List String) (v after : Workspace) : Prop where
  filledIn : v.store.FilledIn (· ∈ keys) after.store
  records : ∀ code ∉ changed, after.store.get code = v.store.get code
  ledger : after.ledger = v.ledger
  directories : FileTree.SameDirectories v.tree after.tree
  places : ∀ p, (∀ code ∈ changed, v.tree.resolve (v.store.files.location code) ≠ .ok p) →
    after.tree.at? p = v.tree.at? p

namespace ChangesOnly

lemma refl (keys : List String) (v : Workspace) : ChangesOnly keys [] v v :=
  ⟨.refl _ _, fun _ _ => rfl, rfl, .refl _, fun _ _ => rfl⟩

lemma mono (h : ChangesOnly keys changed v after) (hmore : ∀ code ∈ changed, code ∈ more) :
    ChangesOnly keys more v after := by
  refine ⟨h.filledIn, fun code hcode => ?_, h.ledger, h.directories, fun p hp => ?_⟩
  · exact h.records code fun hmem => hcode (hmore code hmem)
  · exact h.places p fun code hcode => hp code (hmore code hcode)

lemma trans (h : ChangesOnly keys changed v middle) (h' : ChangesOnly keys more middle after) :
    ChangesOnly keys (changed ++ more) v after := by
  refine ⟨h.filledIn.trans h'.filledIn, fun code hcode => ?_, h'.ledger.trans h.ledger,
    h.directories.trans h'.directories, fun p hp => ?_⟩
  · rw [List.mem_append, not_or] at hcode
    rw [h'.records code hcode.2, h.records code hcode.1]
  · -- the files have the places that they had before
    rw [h'.places, h.places]
    · exact fun code hcode => hp code (List.mem_append_left more hcode)
    · intro code hcode hplace
      rw [h.filledIn.setup.files] at hplace
      exact hp code (List.mem_append_right changed hcode) (h.directories.resolve_iff.mp hplace)

/-- The file of a locale stays if others change. -/
lemma onFile {text : String} (h : ChangesOnly keys changed v after)
    (hvalid : ∀ code ∈ changed, Code.isValid code = true) (hcode : Code.isValid code = true)
    (hnot : code ∉ changed) (honFile : v.store.OnFile v.tree code text) :
    v.store.OnFile after.tree code text := by
  obtain ⟨place, mode, hplace, hfile⟩ := FileTree.read_eq_ok_iff.mp honFile
  refine FileTree.read_eq_ok_iff.mpr ⟨place, mode, ?_, ?_⟩
  · exact h.directories.resolve_iff.mpr hplace
  · rw [h.places, hfile]
    rintro other hother hsame
    obtain rfl := eq_of_resolve_location hcode (hvalid other hother) hplace hsame
    exact hnot hother

end ChangesOnly

/-! ## Auditing one locale -/

/-- Whether nothing keeps an audit from a locale: if it has to fill in missing keys, the file can be
written. -/
def CanAudit (v : Workspace) (fillIn : Bool) (keys : List String) (code : String) : Prop :=
  ∀ record, v.store.get code = .ok record → fillIn = true →
    (∃ key ∈ keys, key ∉ record.translations.keys) → v.store.files.CanWrite v.tree code

/-- Writes a record's file from memory while some steps are refused. -/
def saveAgainst (refusals : Refusals) (locale : String) : Job Workspace Unit := do
  let store := (← Job.get).store
  onFiles (store.saveRecordAgainst refusals locale)

/-- The audit of a locale while some steps of writing are refused. -/
def auditOneAgainst (refusals : Refusals) (fillIn : Bool) (keys : List String) (locale : String) :
    Job Workspace Findings := do
  let record ← Job.ofExcept ((← Job.get).store.get locale)
  let missing := record.missing keys
  let unused := record.unused keys
  if fillIn && !missing.isEmpty then
    changeStore fun store => store.putRecord locale (record.fillIn missing)
    saveAgainst refusals locale
    return ⟨locale, missing, unused, true⟩
  else return ⟨locale, missing, unused, false⟩

lemma auditOneAgainst_none : auditOneAgainst (fun _ => none) = auditOne := rfl

/-- How the audit of a locale with some record can end. -/
inductive AuditsTo (refusals : Refusals) (fillIn : Bool) (keys : List String) (v : Workspace)
    (code : String) (record : Record) : Workspace × Except Error Findings → Prop
  | kept (h : fillIn = true → record.missing keys = []) :
    AuditsTo refusals fillIn keys v code record
      (v, .ok ⟨code, record.missing keys, record.unused keys, false⟩)
  | filled {tree : FileTree} (hfill : fillIn = true) (hmissing : record.missing keys ≠ [])
    (hallowed : ∀ step, refusals step = none)
    (hwrites : v.store.files.Writes code (content (record.completed keys)).toUTF8 v.tree tree) :
    AuditsTo refusals fillIn keys v code record
      ({ v with tree := tree, store := v.store.putRecord code (record.completed keys) },
        .ok ⟨code, record.missing keys, record.unused keys, true⟩)
  | refused {e : Error} (hfill : fillIn = true) (hmissing : record.missing keys ≠ [])
    (hcannot : ¬ ((∀ step, refusals step = none) ∧ v.store.files.CanWrite v.tree code)) :
    AuditsTo refusals fillIn keys v code record
      ({ v with store := v.store.putRecord code (record.completed keys) }, .error e)

/-- Saving a locale writes its record, and changes the files only. -/
lemma outcome_saveAgainst {r : Record} {tree : FileTree} {written : Except Error String}
    (hget : v.store.get code = .ok r)
    (hwrite : Job.outcome (v.store.files.writeAgainst refusals r) v.tree = (tree, written)) :
    Job.outcome (saveAgainst refusals code) v =
      ({ v with tree := tree }, written.map fun _ => ()) := by
  have hsave : Job.outcome (v.store.saveRecordAgainst refusals code) v.tree =
      (tree, written.map fun _ => ()) := by
    unfold saveRecordAgainst
    simp only [Job.bind_eq, hget, Job.outcome_bind_ofExcept_ok]
    cases written with
    | error e => exact Job.outcome_bind_error hwrite
    | ok path => exact Job.outcome_bind_ok hwrite
  unfold saveAgainst
  simp only [Job.bind_eq, Job.outcome_bind_get]
  exact Job.outcome_within hsave

lemma outcome_auditOne_error {e : Error} (hget : v.store.get code = .error e) :
    Job.outcome (auditOne fillIn keys code) v = (v, .error e) := by
  unfold auditOne
  simp only [Job.bind_eq, Job.outcome_bind_get, hget, Job.outcome_bind_ofExcept_error]

/-- A locale stays as it is if nothing is to be filled in. -/
lemma outcome_auditOneAgainst_kept (refusals : Refusals) (hget : v.store.get code = .ok record)
    (hkept : fillIn = true → record.missing keys = []) :
    Job.outcome (auditOneAgainst refusals fillIn keys code) v =
      (v, .ok ⟨code, record.missing keys, record.unused keys, false⟩) := by
  have hnone : (fillIn && !(record.missing keys).isEmpty) = false := by
    cases fillIn with
    | false => rfl
    | true => simp [hkept rfl]
  unfold auditOneAgainst
  simp only [Job.bind_eq, Job.pure_eq, Job.outcome_bind_get, hget, Job.outcome_bind_ofExcept_ok,
    hnone, Bool.false_eq_true, if_false, Job.outcome_ok]

/-- The record of a locale that misses keys is completed, and then its file is written. -/
lemma outcome_auditOneAgainst_missing (refusals : Refusals) (hget : v.store.get code = .ok record)
    (hmissing : record.missing keys ≠ []) :
    Job.outcome (auditOneAgainst refusals true keys code) v =
      Job.outcome (Job.bind (saveAgainst refusals code) fun _ =>
          Job.ok ⟨code, record.missing keys, record.unused keys, true⟩)
        { v with store := v.store.putRecord code (record.completed keys) } := by
  have hnonempty : (record.missing keys).isEmpty = false := by simpa using hmissing
  unfold auditOneAgainst
  simp only [Job.bind_eq, Job.pure_eq, Job.outcome_bind_get, hget, Job.outcome_bind_ofExcept_ok,
    hnonempty, Bool.not_false, Bool.and_true, if_true, changeStore, Job.outcome_bind_modify]
  rfl

theorem auditsTo_auditOneAgainst (refusals : Refusals) (h : v.store.HasRecord code record) :
    AuditsTo refusals fillIn keys v code record
      (Job.outcome (auditOneAgainst refusals fillIn keys code) v) := by
  by_cases hfills : fillIn = true ∧ record.missing keys ≠ []
  · obtain ⟨rfl, hmissing⟩ := hfills
    have hput := h.completed keys
    have hencode := encode_eq hput.settled.writable.isJson_toValue
    -- the store that is saved from has the completed record already
    have hsave : Job.outcome (saveAgainst refusals code)
          { v with store := v.store.putRecord code (record.completed keys) } =
        ({ v with
            tree := (v.store.files.writeAgainst refusals (record.completed keys) v.tree).state
            store := v.store.putRecord code (record.completed keys) },
          (v.store.files.writeAgainst refusals (record.completed keys) v.tree).result.map
            fun _ => ()) :=
      outcome_saveAgainst hput.get rfl
    rw [outcome_auditOneAgainst_missing refusals h.get hmissing]
    cases hwrite : (v.store.files.writeAgainst refusals (record.completed keys) v.tree).result with
    | ok path =>
      obtain ⟨hallowed, text, htext, hwrites⟩ := writes_of_write hput.settled.locale hwrite
      obtain rfl := Except.ok.inj (hencode.symm.trans htext)
      rw [hwrite] at hsave
      rw [Job.outcome_bind_ok hsave]
      exact .filled rfl hmissing hallowed hwrites
    | error e =>
      rw [hwrite, writeAgainst_of_error hwrite] at hsave
      rw [Job.outcome_bind_error hsave]
      -- a completed record has a text, so only the file or a refusal can be in the way
      refine .refused rfl hmissing ?_
      rintro ⟨hallowed, hcan⟩
      obtain rfl : refusals = fun _ => none := funext hallowed
      obtain ⟨path, hpath⟩ := exists_write_of_canWrite h.valid hput.settled.locale hencode hcan
      exact absurd (hwrite.symm.trans hpath) (by simp)
  · have hkept : fillIn = true → record.missing keys = [] :=
      fun hfill => not_not.mp fun hmissing => hfills ⟨hfill, hmissing⟩
    rw [outcome_auditOneAgainst_kept refusals h.get hkept]
    exact .kept hkept

/-- What an audit says of a locale, and what it leaves of it: the missing and the unused keys are
those of the record before, in strictly increasing order, and if they are filled in, the missing ones
have empty translations behind the others, in memory and on file. -/
structure IsAudited (fillIn : Bool) (keys : List String) (v after : Workspace) (code : String)
    (findings : Findings) (record : Record) : Prop where
  locale : findings.locale = code
  get : v.store.get code = .ok record
  missing : findings.missing.Pairwise (· < ·)
  mem_missing : ∀ key, key ∈ findings.missing ↔ key ∈ keys ∧ key ∉ record.translations.keys
  unused : findings.unused.Pairwise (· < ·)
  mem_unused : ∀ key, key ∈ findings.unused ↔ key ∈ record.translations.keys ∧ key ∉ keys
  filledIn : findings.filledIn = true ↔ fillIn = true ∧ findings.missing ≠ []
  left : after.store.get code =
    .ok (if findings.filledIn = true then record.extended findings.missing else record)
  written : findings.filledIn = true →
    v.store.OnFile after.tree code (content (record.extended findings.missing))

lemma IsAudited.missing_eq (h : IsAudited fillIn keys v after code findings record) :
    findings.missing = record.missing keys :=
  h.missing.eq_of_mem_iff pairwise_missing fun key =>
    (h.mem_missing key).trans Record.mem_missing.symm

/-- The findings for a locale are given by its record. -/
lemma IsAudited.findings_eq (h : IsAudited fillIn keys v after code findings record)
    (hnodup : record.translations.keys.Nodup) : findings =
      ⟨code, record.missing keys, record.unused keys, fillIn && !(record.missing keys).isEmpty⟩ := by
  have hunused : findings.unused = record.unused keys :=
    h.unused.eq_of_mem_iff (pairwise_unused hnodup) fun key =>
      (h.mem_unused key).trans Record.mem_unused.symm
  have hfilledIn : findings.filledIn = (fillIn && !(record.missing keys).isEmpty) := by
    rw [Bool.eq_iff_iff, h.filledIn, h.missing_eq]
    simp
  cases findings with
  | mk locale missing unused filledIn =>
    rw [Findings.mk.injEq]
    exact ⟨h.locale, h.missing_eq, hunused, hfilledIn⟩

/-- Filling in leaves the completed record, and if keys were missing, it is on file. -/
lemma IsAudited.completed (h : IsAudited true keys v after code findings record) :
    after.store.get code = .ok (record.completed keys) ∧
    (record.missing keys ≠ [] → v.store.OnFile after.tree code (content (record.completed keys))) := by
  have hleft := h.left
  rw [completed_eq_extended, ← h.missing_eq]
  by_cases hfilled : findings.filledIn = true
  · rw [if_pos hfilled] at hleft
    exact ⟨hleft, fun _ => h.written hfilled⟩
  · have hnone : findings.missing = [] :=
      not_not.mp fun hmissing => hfilled (h.filledIn.mpr ⟨rfl, hmissing⟩)
    rw [if_neg hfilled] at hleft
    rw [hnone, extended_nil]
    exact ⟨hleft, fun hmissing => absurd rfl hmissing⟩

namespace AuditsTo

variable {result : Except Error Findings}

/-- Whatever way the audit of a locale goes, no other is touched. -/
lemma changesOnly (h : AuditsTo refusals fillIn keys v code record (after, result))
    (hrecord : v.store.HasRecord code record) : ChangesOnly keys [code] v after := by
  have hothers : ∀ other ∉ [code],
      (v.store.putRecord code (record.completed keys)).get other = v.store.get other := by
    intro other hother
    rw [get_putRecord, if_neg]
    rintro rfl
    exact hother (List.mem_singleton_self code)
  cases h with
  | kept => exact (ChangesOnly.refl keys v).mono (List.forall_mem_nil _)
  | filled hfill hmissing hallowed hwrites =>
    refine ⟨filledIn_putRecord hrecord.get keys, hothers, rfl,
      hwrites.sameDirectories hrecord.valid, fun p hp => ?_⟩
    exact hwrites.kept p (hp code (List.mem_singleton_self code))
  | refused hfill hmissing hcannot =>
    exact ⟨filledIn_putRecord hrecord.get keys, hothers, rfl, .refl v.tree, fun _ _ => rfl⟩

/-- A locale that is not filled in is not touched either. -/
lemma changesOnly_of_ok (h : AuditsTo refusals fillIn keys v code record (after, .ok findings))
    (hrecord : v.store.HasRecord code record) :
    ChangesOnly keys (AuditReport.filledIn ⟨[findings]⟩) v after := by
  have hchanges := h.changesOnly hrecord
  cases h with
  | kept => exact .refl keys v
  | filled hfill hmissing hallowed hwrites => exact hchanges

lemma isAudited (h : AuditsTo refusals fillIn keys v code record (after, .ok findings))
    (hrecord : v.store.HasRecord code record) :
    IsAudited fillIn keys v after code findings record := by
  have hunused : (record.unused keys).Pairwise (· < ·) :=
    pairwise_unused hrecord.settled.writable.nodup_keys_translations
  cases h with
  | kept hkept =>
    refine ⟨rfl, hrecord.get, pairwise_missing, fun _ => mem_missing, hunused,
      fun _ => mem_unused, ?_, hrecord.get, fun hfilled => absurd hfilled Bool.false_ne_true⟩
    refine iff_of_false Bool.false_ne_true ?_
    rintro ⟨hfill, hmissing⟩
    exact hmissing (hkept hfill)
  | filled hfill hmissing hallowed hwrites =>
    refine ⟨rfl, hrecord.get, pairwise_missing, fun _ => mem_missing, hunused,
      fun _ => mem_unused, iff_of_true rfl ⟨hfill, hmissing⟩, ?_, fun _ => ?_⟩
    · rw [get_putRecord, if_pos rfl, if_pos rfl, completed_eq_extended]
    · rw [← completed_eq_extended]
      exact hwrites.written

/-- The audit of a locale returns unless its file has to be written and cannot be. -/
lemma exists_ok_iff (h : AuditsTo refusals fillIn keys v code record (after, result)) :
    (∃ findings, result = .ok findings) ↔ (fillIn = true → record.missing keys ≠ [] →
      (∀ step, refusals step = none) ∧ v.store.files.CanWrite v.tree code) := by
  cases h with
  | kept hkept => exact iff_of_true ⟨_, rfl⟩ fun hfill hmissing => absurd (hkept hfill) hmissing
  | filled hfill hmissing hallowed hwrites =>
    exact iff_of_true ⟨_, rfl⟩ fun _ _ => ⟨hallowed, hwrites.canWrite⟩
  | refused hfill hmissing hcannot =>
    exact iff_of_false (by simp) fun h => hcannot (h hfill hmissing)

end AuditsTo

/-! ## Auditing all locales -/

lemma outcome_auditLogged (fillIn : Bool) (keys : List String) (code : String) :
    Job.outcome (auditLogged fillIn keys code) v = Job.outcome (auditOne fillIn keys code) v := by
  unfold auditLogged
  simp only [Job.bind_eq]
  cases hresult : (auditOne fillIn keys code v).result with
  | error e =>
    have hone := Job.outcome_of_result hresult
    rw [Job.outcome_bind_error hone, hone]
  | ok findings =>
    have hone := Job.outcome_of_result hresult
    rw [Job.outcome_bind_ok hone, hone]
    cases findings.areNone <;> simp

lemma auditsTo_auditLogged {r : Workspace × Except Error Findings} (h : v.store.HasRecord code record)
    (hr : Job.outcome (auditLogged fillIn keys code) v = r) :
    AuditsTo (fun _ => none) fillIn keys v code record r := by
  rw [← hr, outcome_auditLogged]
  exact auditsTo_auditOneAgainst _ h

/-- Auditing a locale returns unless its file has to be written and cannot be. -/
lemma exists_auditLogged_iff (h : v.store.HasRecord code record) :
    (∃ findings, (auditLogged fillIn keys code v).result = .ok findings) ↔
      v.CanAudit fillIn keys code := by
  have hstep : AuditsTo (fun _ => none) fillIn keys v code record _ := auditsTo_auditLogged h rfl
  rw [hstep.exists_ok_iff]
  unfold CanAudit
  simp only [h.get, Except.ok.injEq, forall_eq', missing_ne_nil_iff, implies_true, true_and]

/-- The audit of a locale finds what it would have found before others were changed. -/
lemma IsAudited.of_changes_before (h : IsAudited fillIn keys middle after code findings record)
    (hbefore : ChangesOnly keys changed v middle) (hnot : code ∉ changed) :
    IsAudited fillIn keys v after code findings record := by
  refine { h with get := (hbefore.records code hnot).symm.trans h.get, written := fun hfilled => ?_ }
  have honFile := h.written hfilled
  rwa [OnFile, hbefore.filledIn.setup.files] at honFile

/-- What an audit leaves of a locale stays while others are changed. -/
lemma IsAudited.of_changes_after (h : IsAudited fillIn keys v middle code findings record)
    (hafter : ChangesOnly keys changed middle after) (hnot : code ∉ changed)
    (hvalid : ∀ code ∈ changed, Code.isValid code = true) (hcode : Code.isValid code = true)
    (hfiles : middle.store.files = v.store.files) :
    IsAudited fillIn keys v after code findings record := by
  refine { h with left := (hafter.records code hnot).trans h.left, written := fun hfilled => ?_ }
  have honFile := h.written hfilled
  rw [OnFile, ← hfiles] at honFile ⊢
  exact hafter.onFile hvalid hcode hnot honFile

/-- Whether an audit is kept from a locale does not depend on the others. -/
lemma ChangesOnly.canAudit_iff (h : ChangesOnly keys changed v after) (hnot : code ∉ changed)
    (hcode : Code.isValid code = true) : after.CanAudit fillIn keys code ↔ v.CanAudit fillIn keys code := by
  unfold CanAudit
  rw [h.records code hnot, h.filledIn.setup.files]
  simp only [canWrite_congr hcode h.directories]

lemma ChangesOnly.hasRecord (h : ChangesOnly keys changed v after) (hnot : code ∉ changed)
    (hrecord : v.store.HasRecord code record) : after.store.HasRecord code record :=
  hrecord.of_same h.filledIn.setup.locales (h.records code hnot)

/-- Only locales that were audited are filled in. -/
lemma mem_of_mem_filledIn {all : List Findings}
    (h : List.Forall₂ (fun code findings => ∃ record, IsAudited fillIn keys v after code findings record)
      codes all) (hcode : code ∈ AuditReport.filledIn ⟨all⟩) : code ∈ codes := by
  have hlocales : all.map (·.locale) = codes := by
    clear hcode
    induction h with
    | nil => rfl
    | cons hfirst _ ih =>
      obtain ⟨record, hfirst⟩ := hfirst
      rw [List.map_cons, hfirst.locale, ih]
  obtain ⟨findings, hfindings, rfl⟩ := List.mem_map.mp hcode
  rw [← hlocales]
  exact List.mem_map_of_mem (List.mem_of_mem_filter hfindings)

/-- The locales are audited one after the other, each with its record from before. -/
theorem isAudited_of_forEach {all : List Findings} (hnodup : codes.Nodup)
    (hrecords : ∀ code ∈ codes, ∃ record, v.store.HasRecord code record)
    (h : Job.outcome (Job.forEach codes (auditLogged fillIn keys)) v = (after, .ok all)) :
    List.Forall₂ (fun code findings => ∃ record, IsAudited fillIn keys v after code findings record)
      codes all ∧ ChangesOnly keys (AuditReport.filledIn ⟨all⟩) v after := by
  induction codes generalizing v all with
  | nil =>
    obtain ⟨rfl, hall⟩ := Prod.mk.inj h
    obtain rfl := Except.ok.inj hall
    exact ⟨.nil, .refl keys v⟩
  | cons code codes ih =>
    obtain ⟨hnew, hrest⟩ := List.nodup_cons.mp hnodup
    obtain ⟨⟨record, hrecord⟩, hothers⟩ := List.forall_mem_cons.mp hrecords
    obtain ⟨findings, all, middle, rfl, hfirst, hmore⟩ := Job.exists_of_outcome_forEach_cons h
    have hstep := auditsTo_auditLogged hrecord hfirst
    have hchanges := hstep.changesOnly hrecord
    have hnotFirst : ∀ c ∈ codes, c ∉ [code] :=
      fun c hc => List.mem_singleton.not.mpr (ne_of_mem_of_not_mem hc hnew)
    have hstill : ∀ c ∈ codes, ∃ r, middle.store.HasRecord c r := fun c hc =>
      (hothers c hc).imp fun r hr => hchanges.hasRecord (hnotFirst c hc) hr
    -- the induction is on the locales from any workspace, so it goes on from the one after the first
    obtain ⟨haudited, hlater⟩ := ih hrest hstill hmore
    -- what is changed later are other locales, all of them configured
    have hlaterCodes : ∀ c ∈ AuditReport.filledIn ⟨all⟩, c ∈ codes :=
      fun c hc => mem_of_mem_filledIn haudited hc
    have hlaterValid : ∀ c ∈ AuditReport.filledIn ⟨all⟩, Code.isValid c = true := by
      intro c hc
      obtain ⟨r, hr⟩ := hothers c (hlaterCodes c hc)
      exact hr.valid
    refine ⟨.cons ⟨record, ?_⟩ ?_, ?_⟩
    · exact (hstep.isAudited hrecord).of_changes_after hlater (fun hc => hnew (hlaterCodes code hc))
        hlaterValid hrecord.valid hchanges.filledIn.setup.files
    · refine ((List.forall₂_and_left _ _).mpr ⟨hnotFirst, haudited⟩).imp ?_
      rintro c f ⟨hnot, r, hr⟩
      exact ⟨r, hr.of_changes_before hchanges hnot⟩
    · have hboth : AuditReport.filledIn ⟨findings :: all⟩ =
          AuditReport.filledIn ⟨[findings]⟩ ++ AuditReport.filledIn ⟨all⟩ := by
        unfold AuditReport.filledIn
        rw [← List.map_append, ← List.filter_append, List.singleton_append]
      rw [hboth]
      exact (hstep.changesOnly_of_ok hrecord).trans hlater

/-- An audit of some locales returns unless a file has to be written and cannot be. -/
theorem exists_forEach_iff (hnodup : codes.Nodup)
    (hrecords : ∀ code ∈ codes, ∃ record, v.store.HasRecord code record) :
    (∃ all, (Job.forEach codes (auditLogged fillIn keys) v).result = .ok all) ↔
      ∀ code ∈ codes, v.CanAudit fillIn keys code := by
  induction codes generalizing v with
  | nil => exact iff_of_true ⟨_, rfl⟩ (List.forall_mem_nil _)
  | cons code codes ih =>
    obtain ⟨hnew, hrest⟩ := List.nodup_cons.mp hnodup
    obtain ⟨⟨record, hrecord⟩, hothers⟩ := List.forall_mem_cons.mp hrecords
    have hstep : AuditsTo (fun _ => none) fillIn keys v code record _ :=
      auditsTo_auditLogged hrecord rfl
    have hchanges := hstep.changesOnly hrecord
    have hnotFirst : ∀ c ∈ codes, c ∉ [code] :=
      fun c hc => List.mem_singleton.not.mpr (ne_of_mem_of_not_mem hc hnew)
    have hlater := ih hrest fun c hc =>
      (hothers c hc).imp fun r hr => hchanges.hasRecord (hnotFirst c hc) hr
    -- whether the later ones can be audited does not depend on the first
    have hsame : (∀ c ∈ codes, (auditLogged fillIn keys code v).state.CanAudit fillIn keys c) ↔
        ∀ c ∈ codes, v.CanAudit fillIn keys c := by
      refine forall₂_congr fun c hc => ?_
      obtain ⟨r, hr⟩ := hothers c hc
      exact hchanges.canAudit_iff (hnotFirst c hc) hr.valid
    rw [List.forall_mem_cons, ← exists_auditLogged_iff hrecord, ← hsame, ← hlater]
    constructor
    · rintro ⟨all, hall⟩
      obtain ⟨findings, others, middle, -, hfirst, hmore⟩ :=
        Job.exists_of_outcome_forEach_cons (Job.outcome_of_result hall)
      obtain ⟨rfl, hresult⟩ := Prod.mk.inj hfirst
      exact ⟨⟨findings, hresult⟩, others, (Prod.mk.inj hmore).2⟩
    · rintro ⟨⟨findings, hfirst⟩, others, hmore⟩
      have hall := Job.outcome_forEach_cons (congrArg (Prod.mk _) hfirst) (congrArg (Prod.mk _) hmore)
      exact ⟨_, (Prod.mk.inj hall).2⟩

/-- An audit is a run over the configured locales. -/
lemma outcome_audit_eq_iff {found : AuditReport} :
    Job.outcome (audit fillIn keys) v = (after, .ok found) ↔
    Job.outcome (Job.forEach v.store.locales.codes (auditLogged fillIn keys)) v =
      (after, .ok found.findings) := by
  unfold audit
  simp only [Job.bind_eq, Job.pure_eq, Job.outcome_bind_get]
  constructor
  · intro h
    obtain ⟨all, middle, hrun, hend⟩ := Job.exists_of_outcome_bind h
    obtain ⟨rfl, hfound⟩ := Prod.mk.inj hend
    obtain rfl := Except.ok.inj hfound
    exact hrun
  · intro h
    exact Job.outcome_bind_ok h

/-- An audit that does not fill in changes nothing. -/
lemma state_audit_false (keys : List String) (v : Workspace) : (audit false keys v).state = v :=
  (keeps_audit (P := (· = v)) (fun hfill => absurd hfill Bool.false_ne_true)
    (fun hfill => absurd hfill Bool.false_ne_true) v rfl).1

section

variable (hrecords : ∀ code ∈ v.store.locales.codes, ∃ record, v.store.HasRecord code record)

include hrecords

theorem exists_audit_iff : (∃ found, (audit fillIn keys v).result = .ok found) ↔
    ∀ code ∈ v.store.locales.codes, v.CanAudit fillIn keys code := by
  rw [← exists_forEach_iff v.store.locales.nodup hrecords]
  constructor
  · rintro ⟨found, hfound⟩
    have hrun := outcome_audit_eq_iff.mp (Job.outcome_of_result hfound)
    exact ⟨found.findings, (Prod.mk.inj hrun).2⟩
  · rintro ⟨all, hall⟩
    have haudit : Job.outcome (audit fillIn keys) v = (_, .ok ⟨all⟩) :=
      outcome_audit_eq_iff.mpr (Job.outcome_of_result hall)
    exact ⟨⟨all⟩, (Prod.mk.inj haudit).2⟩

theorem isAudited_of_audit {found : AuditReport} (h : (audit fillIn keys v).result = .ok found) :
    List.Forall₂ (fun code findings => ∃ record,
        IsAudited fillIn keys v (audit fillIn keys v).state code findings record)
      v.store.locales.codes found.findings ∧
    ChangesOnly keys found.filledIn v (audit fillIn keys v).state :=
  isAudited_of_forEach v.store.locales.nodup hrecords
    (outcome_audit_eq_iff.mp (Job.outcome_of_result h))

end

end Workspace

end LocaleBundle.Locale
