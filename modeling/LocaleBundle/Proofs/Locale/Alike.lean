import LocaleBundle.Proofs.Locale.Missing
import LocaleBundle.Proofs.Logged

/-!
# The locales beside different ledgers

A load and an audit read the files and the store. Of the ledger they read whether a plural key can be
noted, and an audit is given the keys that were referred to, in any order. So they go alike in
workspaces with the same files and the same store whose ledgers are related.
-/

namespace LocaleBundle

/-- Whether plural keys are noted alike in ledgers related by `L`. -/
def KeyLedger.NotesAlike (L : KeyLedger → KeyLedger → Prop) : Prop :=
  ∀ key, Job.Agree L (update fun ledger => ledger.notePlural key)
    (update fun ledger => ledger.notePlural key)

namespace Locale.Workspace

variable {α : Type} {L : KeyLedger → KeyLedger → Prop}

/-- Whether two workspaces have the same files and the same store, and ledgers related by `L`. -/
structure AlikeUpTo (L : KeyLedger → KeyLedger → Prop) (w v : Workspace) : Prop where
  tree : w.tree = v.tree
  store : w.store = v.store
  ledger : L w.ledger v.ledger

lemma agree_onFiles (job : Job FileTree α) :
    Job.Agree (AlikeUpTo L) (onFiles job) (onFiles job) := by
  intro w v h
  show AlikeUpTo L { w with tree := (job w.tree).state } { v with tree := (job v.tree).state } ∧
    (job w.tree).result = (job v.tree).result
  rw [h.tree]
  exact ⟨⟨rfl, h.store, h.ledger⟩, rfl⟩

lemma agree_onLedger {job other : Job KeyLedger α} (hjob : Job.Agree L job other) :
    Job.Agree (AlikeUpTo L) (onLedger job) (onLedger other) := by
  intro w v h
  obtain ⟨hledger, hresult⟩ := hjob w.ledger v.ledger h.ledger
  exact ⟨⟨h.tree, h.store, hledger⟩, hresult⟩

lemma agree_changeStore (change : Store → Store) :
    Job.Agree (AlikeUpTo L) (changeStore change) (changeStore change) := by
  apply Job.agree_modify
  intro w v h
  exact ⟨h.tree, congrArg change h.store, h.ledger⟩

/-! ## Loads -/

lemma agree_loadOne (locale : String) : Job.Agree (AlikeUpTo L) (loadOne locale) (loadOne locale) := by
  unfold loadOne
  apply Job.Agree.bind_get
  intro w v h
  rw [h.store]
  apply (agree_onFiles _).bind
  rintro ⟨record, origin⟩
  apply (agree_changeStore _).bind
  intro _
  exact Job.agree_ok _

lemma agree_checkCycles : Job.Agree (AlikeUpTo L) checkCycles checkCycles := by
  unfold checkCycles
  apply Job.Agree.bind_get
  intro w v h
  rw [h.store]
  simp only
  split
  · exact Job.agree_ok ()
  · exact Job.agree_fail _

lemma agree_notePluralKeys (hL : KeyLedger.NotesAlike L) :
    Job.Agree (AlikeUpTo L) notePluralKeys notePluralKeys := by
  unfold notePluralKeys
  apply Job.Agree.bind_get
  intro w v h
  rw [h.store]
  refine (Job.agree_forEach fun noted _ => ?_).bind fun _ => Job.agree_ok ()
  unfold notePluralKey
  apply (Job.agree_record _ _).bind
  intro _
  exact agree_onLedger (hL noted.2)

/-- What a load gives, and what it leaves in the files and the store, is the same whatever is noted
in the ledger. -/
lemma agree_load (hL : KeyLedger.NotesAlike L) : Job.Agree (AlikeUpTo L) load load := by
  unfold load
  apply (agree_changeStore _).bind
  intro _
  apply Job.Agree.bind_get
  intro w v h
  rw [h.store]
  apply (agree_onFiles _).bind
  intro _
  apply (Job.agree_forEach fun locale _ => agree_loadOne locale).bind
  intro entries
  apply agree_checkCycles.bind
  intro _
  apply (agree_notePluralKeys hL).bind
  intro _
  apply (Job.agree_record _ _).bind
  intro _
  exact Job.agree_ok _

/-! ## Audits -/

lemma agree_save (locale : String) : Job.Agree (AlikeUpTo L) (save locale) (save locale) := by
  unfold save
  apply Job.Agree.bind_get
  intro w v h
  rw [h.store]
  exact agree_onFiles _

variable {keys other : List String} (hkeys : ∀ key, key ∈ keys ↔ key ∈ other)

include hkeys

lemma agree_auditOne (fillIn : Bool) (locale : String) :
    Job.Agree (AlikeUpTo L) (auditOne fillIn keys locale) (auditOne fillIn other locale) := by
  unfold auditOne
  apply Job.Agree.bind_get
  intro w v h
  rw [h.store]
  apply (Job.agree_ofExcept _).bind
  intro record
  rw [Record.missing_congr hkeys, Record.unused_congr hkeys]
  simp only
  split
  · apply (agree_changeStore _).bind
    intro _
    apply (agree_save locale).bind
    intro _
    exact Job.agree_ok _
  · exact Job.agree_ok _

/-- An audit goes alike for the same keys in any order. -/
lemma agree_audit (fillIn : Bool) :
    Job.Agree (AlikeUpTo L) (audit fillIn keys) (audit fillIn other) := by
  unfold audit
  apply Job.Agree.bind_get
  intro w v h
  rw [h.store]
  refine (Job.agree_forEach fun locale _ => ?_).bind fun findings => Job.agree_ok _
  unfold auditLogged
  apply (agree_auditOne hkeys fillIn locale).bind
  intro found
  simp only
  split
  · exact (Job.agree_record _ _).bind fun _ => Job.agree_ok found
  · exact Job.agree_ok found

end Locale.Workspace

end LocaleBundle
