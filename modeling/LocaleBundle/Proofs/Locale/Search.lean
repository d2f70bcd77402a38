import LocaleBundle.Locale.Store
import LocaleBundle.Proofs.Entries
import LocaleBundle.Proofs.Locale.Record
import Mathlib.Tactic.Lemma

/-!
# Searching along a chain

A search goes through the records of a chain in their order. It stops at the first locale whose
record translates the key, and fails at the first one that has no record; if it passes all of them,
nothing is found. So it depends on one translation in each record.
-/

namespace LocaleBundle.Locale

/-- The translation of a key in a record, unless it is an empty one. -/
def Record.translation? (record : Record) (key : String) : Option Value :=
  (Entries.get? key record.translations).filter Value.isTruthy

namespace Store

/-- The translation of a key in the record of a locale, unless it is an empty one. -/
def translationIn (store : Store) (key code : String) : Except Error (Option Value) :=
  (store.get code).map fun record => record.translation? key

variable {store other : Store} {requested key code : String} {front chain : List String}
  {record : Record}

/-! ## Records -/

lemma get_eq_ok_iff : store.get code = .ok record ↔
    Entries.get? code store.records = some record := by
  unfold Store.get
  cases Entries.get? code store.records with
  | none => simp
  | some found => simp

lemma get_of_notMem (h : code ∉ store.records.keys) : store.get code = .error (.notLoaded code) := by
  rw [Store.get, Entries.get?_eq_none_iff.mpr h]

lemma exists_get_iff : (∃ record, store.get code = .ok record) ↔ code ∈ store.records.keys := by
  constructor
  · rintro ⟨record, hget⟩
    by_contra hnot
    exact absurd (hget.symm.trans (get_of_notMem hnot)) (by simp)
  · intro hmem
    rw [← Entries.contains_iff_mem_keys] at hmem
    obtain ⟨record, hrecord⟩ := Option.isSome_iff_exists.mp hmem
    exact ⟨record, get_eq_ok_iff.mpr hrecord⟩

lemma mem_keys_of_get (h : store.get code = .ok record) : code ∈ store.records.keys :=
  exists_get_iff.mp ⟨record, h⟩

lemma get_putRecord (store : Store) (code other : String) (record : Record) :
    (store.putRecord code record).get other =
      if code = other then .ok record else store.get other := by
  simp only [Store.get, putRecord, Entries.get?_insert]
  by_cases hother : code = other
  · simp only [if_pos hother]
  · simp only [if_neg hother]

lemma translationIn_eq_some_iff {v : Value} : store.translationIn key code = .ok (some v) ↔
    ∃ record, store.get code = .ok record ∧ Entries.get? key record.translations = some v ∧
      v.isTruthy = true := by
  unfold translationIn Record.translation?
  cases store.get code with
  | error e => simp [Except.map]
  | ok record => simp [Except.map, Option.filter_eq_some_iff]

lemma translationIn_eq_error_iff {e : Error} :
    store.translationIn key code = .error e ↔ store.get code = .error e := by
  unfold translationIn
  cases store.get code <;> simp [Except.map]

/-! ## Searches -/

lemma lookupIn_cons (store : Store) (requested key code : String) (chain : List String) :
    store.lookupIn requested key (code :: chain) =
      match store.translationIn key code with
      | .error e => .error e
      | .ok (some v) => .ok (some ⟨v, code, requested⟩)
      | .ok none => store.lookupIn requested key chain := by
  rw [lookupIn, translationIn]
  cases store.get code with
  | error e => rfl
  | ok record =>
    simp only [Except.map, Record.translation?]
    cases Entries.get? key record.translations with
    | none => rfl
    | some v =>
      by_cases htruthy : v.isTruthy = true
      · simp only [Option.getD_some, Option.filter, htruthy, if_true]
      · simp only [Option.getD_some, Option.filter, htruthy, Bool.false_eq_true, if_false]

/-- A search passes the locales that do not translate the key. -/
lemma lookupIn_append (h : ∀ c ∈ front, store.translationIn key c = .ok none) (rest : List String) :
    store.lookupIn requested key (front ++ rest) = store.lookupIn requested key rest := by
  induction front with
  | nil => rfl
  | cons c front ih =>
    obtain ⟨hc, hfront⟩ := List.forall_mem_cons.mp h
    rw [List.cons_append, lookupIn_cons, hc]
    exact ih hfront

lemma exists_first_of_lookupIn (h : store.lookupIn requested key chain ≠ .ok none) :
    ∃ front c back, chain = front ++ c :: back ∧
      (∀ a ∈ front, store.translationIn key a = .ok none) ∧
      store.translationIn key c ≠ .ok none := by
  induction chain with
  | nil => exact absurd rfl h
  | cons c chain ih =>
    by_cases hc : store.translationIn key c = .ok none
    · rw [lookupIn_cons, hc] at h
      obtain ⟨front, d, back, rfl, hfront, hd⟩ := ih h
      exact ⟨c :: front, d, back, rfl, List.forall_mem_cons.mpr ⟨hc, hfront⟩, hd⟩
    · exact ⟨[], c, chain, rfl, List.forall_mem_nil _, hc⟩

/-- Nothing is found exactly if no locale of the chain translates the key. -/
lemma lookupIn_eq_none_iff : store.lookupIn requested key chain = .ok none ↔
    ∀ c ∈ chain, store.translationIn key c = .ok none := by
  constructor
  · intro h
    induction chain with
    | nil => exact List.forall_mem_nil _
    | cons c chain ih =>
      rw [lookupIn_cons] at h
      rcases hc : store.translationIn key c with e | (_ | v)
      · rw [hc] at h
        exact absurd h (by simp)
      · rw [hc] at h
        exact List.forall_mem_cons.mpr ⟨hc, ih h⟩
      · rw [hc] at h
        exact absurd h (by simp)
  · intro h
    rw [← List.append_nil chain]
    exact lookupIn_append h []

/-- What is found is the translation in the first locale that has one. -/
lemma lookupIn_eq_some_iff {found : Resolved} :
    store.lookupIn requested key chain = .ok (some found) ↔ found.requested = requested ∧
      ∃ front back, chain = front ++ found.locale :: back ∧
        (∀ c ∈ front, store.translationIn key c = .ok none) ∧
        store.translationIn key found.locale = .ok (some found.value) := by
  constructor
  · intro h
    obtain ⟨front, c, back, rfl, hfront, hc⟩ := exists_first_of_lookupIn (by rw [h]; simp)
    rw [lookupIn_append hfront, lookupIn_cons] at h
    rcases hc' : store.translationIn key c with e | (_ | v)
    · rw [hc'] at h
      exact absurd h (by simp)
    · exact absurd hc' hc
    · rw [hc'] at h
      obtain rfl := Option.some.inj (Except.ok.inj h)
      exact ⟨rfl, front, back, rfl, hfront, hc'⟩
  · rintro ⟨rfl, front, back, rfl, hfront, hfound⟩
    rw [lookupIn_append hfront, lookupIn_cons, hfound]

/-- A search fails exactly if it comes to a locale without a record. -/
lemma lookupIn_eq_error_iff {e : Error} : store.lookupIn requested key chain = .error e ↔
    ∃ front c back, chain = front ++ c :: back ∧
      (∀ a ∈ front, store.translationIn key a = .ok none) ∧ store.get c = .error e := by
  constructor
  · intro h
    obtain ⟨front, c, back, rfl, hfront, hc⟩ := exists_first_of_lookupIn (by rw [h]; simp)
    rw [lookupIn_append hfront, lookupIn_cons] at h
    rcases hc' : store.translationIn key c with e' | (_ | v)
    · rw [hc'] at h
      obtain rfl := Except.error.inj h
      exact ⟨front, c, back, rfl, hfront, translationIn_eq_error_iff.mp hc'⟩
    · exact absurd hc' hc
    · rw [hc'] at h
      exact absurd h (by simp)
  · rintro ⟨front, c, back, rfl, hfront, hc⟩
    rw [lookupIn_append hfront, lookupIn_cons, translationIn_eq_error_iff.mpr hc]

/-- A search among locales with records does not fail. -/
lemma exists_lookupIn (h : ∀ c ∈ chain, ∃ record, store.get c = .ok record) :
    ∃ resolved, store.lookupIn requested key chain = .ok resolved := by
  cases hsearch : store.lookupIn requested key chain with
  | ok resolved => exact ⟨resolved, rfl⟩
  | error e =>
    obtain ⟨front, c, back, rfl, -, hc⟩ := lookupIn_eq_error_iff.mp hsearch
    obtain ⟨record, hrecord⟩ := h c (by simp)
    exact absurd (hrecord.symm.trans hc) (by simp)

/-- Searches for a key are the same in stores in which the locales translate it alike. -/
lemma lookupIn_congr
    (h : ∀ c ∈ chain, store.translationIn key c = other.translationIn key c) :
    store.lookupIn requested key chain = other.lookupIn requested key chain := by
  induction chain with
  | nil => rfl
  | cons c chain ih =>
    obtain ⟨hc, hchain⟩ := List.forall_mem_cons.mp h
    rw [lookupIn_cons, lookupIn_cons, hc, ih hchain]

end Store

end LocaleBundle.Locale
