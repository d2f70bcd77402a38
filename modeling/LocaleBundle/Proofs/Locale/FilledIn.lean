import LocaleBundle.Proofs.Locale.Consistent
import LocaleBundle.Proofs.Locale.Missing
import LocaleBundle.Proofs.Locale.Search

/-!
# What audits leave of a store

Whether it ends well or not, an audit does nothing to a store but complete records: behind the
translations of a record, keys that it did not have get empty ones. So after any number of audits a
store has the records that were loaded, filled in with keys that were referred to.
-/

namespace LocaleBundle.Locale

namespace Record

variable {record : Record} {keys : List String}

/-- A record with empty translations behind its own. -/
def extended (record : Record) (added : List String) : Record :=
  { record with
    translations := record.translations ++ added.map fun key => (key, .text "") }

lemma extended_nil (record : Record) : record.extended [] = record := by
  unfold extended
  rw [List.map_nil, List.append_nil]

lemma extended_extended (record : Record) (added more : List String) :
    (record.extended added).extended more = record.extended (added ++ more) := by
  unfold extended
  simp only [List.map_append, List.append_assoc]

lemma mem_keys_extended {added : List String} {key : String} :
    key ∈ (record.extended added).translations.keys ↔
      key ∈ record.translations.keys ∨ key ∈ added := by
  unfold extended
  simp [Entries.keys]

lemma completed_eq_extended : record.completed keys = record.extended (record.missing keys) := by
  unfold extended
  rw [← translations_completed]
  rfl

/-- Empty translations are none. -/
lemma translation?_extended (record : Record) (added : List String) (key : String) :
    (record.extended added).translation? key = record.translation? key := by
  unfold translation? extended
  rw [Entries.get?_append]
  cases hold : Entries.get? key record.translations with
  | some v => rfl
  | none =>
    cases hnew : Entries.get? key (added.map fun other => (other, Value.text "")) with
    | none => rfl
    | some v =>
      obtain ⟨other, -, hentry⟩ := List.mem_map.mp (Entries.mem_of_get? hnew)
      obtain ⟨-, rfl⟩ := Prod.mk.inj hentry
      rfl

lemma pluralKeys_extended (record : Record) (added : List String) :
    (record.extended added).pluralKeys = record.pluralKeys := by
  unfold pluralKeys extended
  rw [List.filterMap_append, List.filterMap_map]
  simp

end Record

namespace Store

/-- Whether a store is another one, filled in: the records of the same locales are what they were,
but for empty translations behind their own, of keys with a property that they did not translate. -/
structure FilledIn (noted : String → Prop) (store after : Store) : Prop where
  setup : SameSetup store after
  fallbacks : after.fallbacks = store.fallbacks
  locales : after.records.keys = store.records.keys
  records : ∀ locale record, store.get locale = .ok record →
    ∃ added : List String, (∀ key ∈ added, noted key ∧ key ∉ record.translations.keys) ∧
      after.get locale = .ok (record.extended added)

variable {noted other : String → Prop} {store after : Store} {locale : String} {record : Record}
  {keys : List String}

/-- A record that can be loaded can be loaded when it is completed. -/
lemma IsSettled.completed (h : store.IsSettled locale record) (keys : List String) :
    store.IsSettled locale (record.completed keys) := by
  refine ⟨h.writable.completed keys, h.locale, h.fallback, ?_⟩
  have hname : (Store.named locale record).name = record.name := congrArg Record.name h.named
  have hsame : (record.completed keys).name = record.name := rfl
  unfold Store.named at hname ⊢
  rw [hsame]
  by_cases hempty : record.name = ""
  · rw [if_pos hempty] at hname ⊢
    have hshown : nameFor locale = record.name := hname
    rw [hshown]
    rfl
  · exact if_neg hempty

lemma FilledIn.refl (noted : String → Prop) (store : Store) : FilledIn noted store store := by
  refine ⟨.refl store, rfl, rfl, fun locale record hget => ⟨[], by simp, ?_⟩⟩
  rw [hget, record.extended_nil]

lemma FilledIn.imp (h : FilledIn noted store after) (himp : ∀ key, noted key → other key) :
    FilledIn other store after := by
  refine ⟨h.setup, h.fallbacks, h.locales, fun locale record hget => ?_⟩
  obtain ⟨added, hadded, hafter⟩ := h.records locale record hget
  exact ⟨added, fun key hkey => ⟨himp key (hadded key hkey).1, (hadded key hkey).2⟩, hafter⟩

lemma FilledIn.trans {last : Store} (h : FilledIn noted store after) (h' : FilledIn noted after last) :
    FilledIn noted store last := by
  refine ⟨h.setup.trans h'.setup, h'.fallbacks.trans h.fallbacks, h'.locales.trans h.locales,
    fun locale record hget => ?_⟩
  obtain ⟨added, hadded, hafter⟩ := h.records locale record hget
  obtain ⟨more, hmore, hlast⟩ := h'.records locale _ hafter
  refine ⟨added ++ more, List.forall_mem_append.mpr ⟨hadded, fun key hkey => ?_⟩, ?_⟩
  · obtain ⟨hnoted, hnew⟩ := hmore key hkey
    exact ⟨hnoted, fun hold => hnew (Record.mem_keys_extended.mpr (Or.inl hold))⟩
  · rw [hlast, Record.extended_extended]

/-- A store is filled in by completing one of its records. -/
lemma filledIn_putRecord (hget : store.get locale = .ok record) (keys : List String) :
    FilledIn (· ∈ keys) store (store.putRecord locale (record.completed keys)) := by
  refine ⟨⟨rfl, rfl, rfl⟩, rfl, ?_, fun other original horiginal => ?_⟩
  · show (Entries.insert locale (record.completed keys) store.records).keys = store.records.keys
    rw [Entries.keys_insert, if_pos (mem_keys_of_get hget)]
  · rw [get_putRecord]
    by_cases hother : locale = other
    · subst hother
      obtain rfl := Except.ok.inj (horiginal.symm.trans hget)
      refine ⟨original.missing keys, fun key hkey => Record.mem_missing.mp hkey, ?_⟩
      rw [if_pos rfl, Record.completed_eq_extended]
    · refine ⟨[], List.forall_mem_nil _, ?_⟩
      rw [if_neg hother, horiginal, Record.extended_nil]

/-- A record that is completed once more was filled in with the keys of both times. -/
lemma FilledIn.putRecord (h : FilledIn noted store after) (hkeys : ∀ key ∈ keys, noted key)
    (hrecord : after.get locale = .ok record) :
    FilledIn noted store (after.putRecord locale (record.completed keys)) :=
  h.trans ((filledIn_putRecord hrecord keys).imp hkeys)

/-- What empty translations do not change in a record, filling in does not change in a store. -/
lemma FilledIn.map_get {α : Type} {f : Record → α} (h : FilledIn noted store after)
    (hf : ∀ record added, f (Record.extended record added) = f record) (code : String) :
    (after.get code).map f = (store.get code).map f := by
  by_cases hcode : code ∈ store.records.keys
  · obtain ⟨record, hget⟩ := exists_get_iff.mpr hcode
    obtain ⟨added, -, hafter⟩ := h.records code record hget
    rw [hget, hafter, Except.map, Except.map, hf]
  · rw [get_of_notMem hcode, get_of_notMem (h.locales ▸ hcode)]

/-- Lookups do not see what is filled in. -/
theorem FilledIn.lookup (h : FilledIn noted store after) (locale key : String) :
    after.lookup locale key = store.lookup locale key := by
  unfold Store.lookup chain
  rw [h.fallbacks]
  refine lookupIn_congr fun code _ => ?_
  exact h.map_get (fun record added => record.translation?_extended added key) code

end Store

namespace Workspace

open Job

variable {P : Workspace → Prop} {fillIn : Bool} {keys : List String}

section

variable
  (hput : fillIn = true → ∀ w locale record, P w → w.store.get locale = .ok record →
    P { w with store := w.store.putRecord locale (record.completed keys) })
  (htree : fillIn = true → ∀ w tree, P w → P { w with tree := tree })

include hput htree

/-- What is kept when a record is completed, and does not depend on the files, is kept when a locale
is audited. -/
lemma keeps_auditOne (locale : String) :
    Keeps P (fun _ => True) (auditOne fillIn keys locale) := by
  intro w hw
  refine ⟨?_, fun _ _ => trivial⟩
  show P (outcome (auditOne fillIn keys locale) w).1
  unfold auditOne
  simp only [bind_eq, outcome_bind_get]
  cases hget : w.store.get locale with
  | error e =>
    rw [outcome_bind_ofExcept_error]
    exact hw
  | ok record =>
    rw [outcome_bind_ofExcept_ok]
    split
    next hfills =>
      have hfill : fillIn = true := (Bool.and_eq_true_iff.mp hfills).1
      have hsave : Keeps P (fun _ => True) (save locale) := by
        unfold save
        exact keeps_get.bind fun w _ =>
          keeps_within (fun v tree hv => htree hfill v tree hv) (keeps_true _)
      have hafter := hput hfill w locale record hw hget
      unfold changeStore
      rw [outcome_bind_modify]
      exact ((hsave.bind (R := fun _ => True) fun _ _ => keeps_ok trivial) _ hafter).1
    next => exact hw

/-- It is kept by the whole audit. -/
lemma keeps_audit : Keeps P (fun _ => True) (audit fillIn keys) := by
  unfold audit
  refine keeps_get.bind fun w _ => ?_
  refine (keeps_forEach (R := fun _ => True) fun locale _ => ?_).bind fun _ _ => keeps_ok trivial
  unfold auditLogged
  refine (keeps_auditOne hput htree locale).bind fun findings _ => ?_
  simp only
  split
  · exact (keeps_record _ _).bind fun _ _ => keeps_ok trivial
  · exact keeps_ok trivial

end

variable {noted : String → Prop} {store : Store} {w : Workspace}

/-- An audit does nothing to a store but fill it in with keys that are referred to. -/
lemma filledIn_audit (h : store.FilledIn noted w.store)
    (hkeys : fillIn = true → ∀ key ∈ keys, noted key) :
    store.FilledIn noted (audit fillIn keys w).state.store :=
  (keeps_audit (P := fun w => store.FilledIn noted w.store)
    (fun hfills _ _ _ hw hget => hw.putRecord (hkeys hfills) hget) (fun _ _ _ hw => hw) w h).1

end Workspace

end LocaleBundle.Locale
