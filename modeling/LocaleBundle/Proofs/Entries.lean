import LocaleBundle.Entries
import Mathlib.Data.List.Nodup

/-!
# Collected entries

Pairs whose keys all differ are collected as they are, and every collected value is one of the
values that were written. Of entries whose keys differ, each one is read under its key.
-/

namespace LocaleBundle.Entries

variable {α : Type}

lemma insert_of_notMem {key : String} {entries : Entries α} (h : key ∉ keys entries) (value : α) :
    insert key value entries = entries ++ [(key, value)] := by
  induction entries with
  | nil => rfl
  | cons head rest ih =>
    obtain ⟨k, v⟩ := head
    simp only [keys, List.map_cons, List.mem_cons, not_or] at h
    rw [insert, if_neg (Ne.symm h.1), ih h.2]
    rfl

/-- Pairs under new and different keys are added behind the entries. -/
lemma insertAll_of_notMem {entries : Entries α} {pairs : List (String × α)}
    (hpairs : (keys pairs).Nodup) (hnew : ∀ key ∈ keys pairs, key ∉ keys entries) :
    insertAll entries pairs = entries ++ pairs := by
  induction pairs generalizing entries with
  | nil => exact (List.append_nil entries).symm
  | cons pair pairs ih =>
    obtain ⟨k, v⟩ := pair
    obtain ⟨hk, hnodup⟩ := List.nodup_cons.mp hpairs
    obtain ⟨hfirst, hrest⟩ := List.forall_mem_cons.mp hnew
    have hstep : insertAll entries ((k, v) :: pairs) = insertAll (entries ++ [(k, v)]) pairs := by
      rw [← insert_of_notMem hfirst]
      rfl
    have hafter : ∀ key ∈ keys pairs, key ∉ keys (entries ++ [(k, v)]) := by
      intro key hkey hmem
      rw [keys, List.map_append, List.mem_append] at hmem
      rcases hmem with hold | hsame
      · exact hrest key hkey hold
      · rw [List.mem_singleton.mp hsame] at hkey
        exact hk hkey
    rw [hstep, ih hnodup hafter, List.append_assoc, List.singleton_append]

lemma insertAll_of_nodup (entries : Entries α) {pairs : List (String × α)}
    (h : (keys (entries ++ pairs)).Nodup) : insertAll entries pairs = entries ++ pairs := by
  rw [keys, List.map_append, List.nodup_append] at h
  exact insertAll_of_notMem h.2.1 fun key hkey hmem => h.2.2 key hmem key hkey rfl

/-- Pairs with different keys are entries already. -/
lemma ofPairs_of_nodup {pairs : List (String × α)} (h : (keys pairs).Nodup) :
    ofPairs pairs = pairs :=
  insertAll_of_nodup [] h

lemma mem_of_mem_insert {key : String} {value : α} {entries : Entries α} {e : String × α}
    (h : e ∈ insert key value entries) : e = (key, value) ∨ e ∈ entries := by
  induction entries with
  | nil => exact Or.inl (List.mem_singleton.mp h)
  | cons head rest ih =>
    obtain ⟨k, v⟩ := head
    rw [insert] at h
    by_cases hk : k = key
    · rw [if_pos hk] at h
      rcases List.mem_cons.mp h with rfl | hrest
      · exact Or.inl (by rw [hk])
      · exact Or.inr (List.mem_cons_of_mem _ hrest)
    · rw [if_neg hk] at h
      rcases List.mem_cons.mp h with rfl | hrest
      · exact Or.inr List.mem_cons_self
      · rcases ih hrest with hnew | hold
        · exact Or.inl hnew
        · exact Or.inr (List.mem_cons_of_mem _ hold)

lemma mem_of_mem_insertAll {entries : Entries α} {pairs : List (String × α)} {e : String × α}
    (h : e ∈ insertAll entries pairs) : e ∈ entries ∨ e ∈ pairs := by
  induction pairs generalizing entries with
  | nil => exact Or.inl h
  | cons pair pairs ih =>
    rcases ih h with hentries | hpairs
    · rcases mem_of_mem_insert hentries with rfl | hold
      · exact Or.inr List.mem_cons_self
      · exact Or.inl hold
    · exact Or.inr (List.mem_cons_of_mem _ hpairs)

lemma mem_of_mem_ofPairs {pairs : List (String × α)} {e : String × α} (h : e ∈ ofPairs pairs) :
    e ∈ pairs := by
  rcases mem_of_mem_insertAll h with hnil | hpairs
  · exact absurd hnil List.not_mem_nil
  · exact hpairs

lemma mem_of_get? {key : String} {value : α} {entries : Entries α}
    (h : get? key entries = some value) : (key, value) ∈ entries := by
  induction entries with
  | nil => exact absurd h (by simp)
  | cons head rest ih =>
    obtain ⟨k, v⟩ := head
    rw [get?_cons] at h
    by_cases hk : k = key
    · rw [if_pos hk] at h
      rw [hk, ← Option.some.inj h]
      exact List.mem_cons_self
    · rw [if_neg hk] at h
      exact List.mem_cons_of_mem _ (ih h)

/-! ## Reading entries -/

lemma mem_keys_of_get? {key : String} {value : α} {entries : Entries α}
    (h : get? key entries = some value) : key ∈ keys entries :=
  List.mem_map_of_mem (mem_of_get? h)

lemma get?_eq_none_iff {key : String} {entries : Entries α} :
    get? key entries = none ↔ key ∉ keys entries := by
  rw [← contains_iff_mem_keys, contains, Bool.not_eq_true, Option.isSome_eq_false_iff,
    Option.isNone_iff_eq_none]

/-- Entries are read before those behind them. -/
lemma get?_append (key : String) (entries more : Entries α) :
    get? key (entries ++ more) = (get? key entries).or (get? key more) := by
  induction entries with
  | nil => rfl
  | cons head rest ih =>
    obtain ⟨k, v⟩ := head
    rw [List.cons_append, get?_cons, get?_cons]
    by_cases hk : k = key
    · rw [if_pos hk, if_pos hk, Option.some_or]
    · rw [if_neg hk, if_neg hk, ih]

lemma get?_of_mem {entries : Entries α} (hkeys : (keys entries).Nodup) {key : String} {value : α}
    (h : (key, value) ∈ entries) : get? key entries = some value := by
  induction entries with
  | nil => exact absurd h List.not_mem_nil
  | cons head rest ih =>
    obtain ⟨k, v⟩ := head
    simp only [keys, List.map_cons, List.nodup_cons] at hkeys
    rcases List.mem_cons.mp h with hhead | hrest
    · obtain ⟨rfl, rfl⟩ := Prod.mk.inj hhead
      rw [get?_cons, if_pos rfl]
    · have hne : k ≠ key := by
        rintro rfl
        exact hkeys.1 (List.mem_map_of_mem hrest)
      rw [get?_cons, if_neg hne]
      exact ih hkeys.2 hrest

/-- Keys that are not listed keep their values. -/
lemma get?_without {names : List String} {key : String} (h : key ∉ names) (entries : Entries α) :
    get? key (without names entries) = get? key entries := by
  induction entries with
  | nil => rfl
  | cons head rest ih =>
    obtain ⟨k, v⟩ := head
    unfold without at ih ⊢
    rw [get?_cons]
    by_cases hk : k ∈ names
    · have hne : k ≠ key := ne_of_mem_of_not_mem hk h
      rw [List.filter_cons_of_neg (by simpa using hk), if_neg hne, ih]
    · rw [List.filter_cons_of_pos (by simpa using hk), get?_cons, ih]

lemma get?_map (f : String → α) {names : List String} {key : String} (h : key ∈ names) :
    get? key (names.map fun name => (name, f name)) = some (f key) := by
  induction names with
  | nil => exact absurd h List.not_mem_nil
  | cons name names ih =>
    rw [List.map_cons, get?_cons]
    by_cases hname : name = key
    · rw [if_pos hname, hname]
    · rw [if_neg hname]
      exact ih ((List.mem_cons.mp h).resolve_left (Ne.symm hname))

/-- Entries are given by their keys and what is found for them. -/
lemma eq_map_of_get? {entries : Entries α} (hkeys : (keys entries).Nodup) {f : String → α}
    (h : ∀ key ∈ keys entries, get? key entries = some (f key)) :
    entries = (keys entries).map fun key => (key, f key) := by
  have hsame : ∀ e ∈ entries, (e.1, f e.1) = e := by
    rintro ⟨key, value⟩ he
    have hfound := h key (List.mem_map_of_mem he)
    rw [get?_of_mem hkeys he] at hfound
    rw [Option.some.inj hfound]
  rw [keys, List.map_map]
  exact ((List.map_congr_left hsame).trans (List.map_id' entries)).symm

lemma keys_map (f : String → α) (names : List String) :
    keys (names.map fun name => (name, f name)) = names := by
  simp [keys, Function.comp_def]

end LocaleBundle.Entries
