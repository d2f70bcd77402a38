/-!
# Entries in insertion order

Records, plural tables and translations keep their keys in the order of first
insertion. They are lists of pairs; a value written again under a key stays at
the key's place.
-/

namespace LocaleBundle

/-- Pairs of a key and a value, in insertion order. -/
abbrev Entries (α : Type) := List (String × α)

namespace Entries

variable {α β : Type}

/-- The value under a key. -/
def get? (key : String) : Entries α → Option α
  | [] => none
  | (k, v) :: rest => if k = key then some v else get? key rest

/-- Whether a key is present. -/
def contains (key : String) (entries : Entries α) : Bool := (get? key entries).isSome

/-- Writes a value under a key: in its place if the key is present, else at the
end. -/
def insert (key : String) (value : α) : Entries α → Entries α
  | [] => [(key, value)]
  | (k, v) :: rest => if k = key then (k, value) :: rest else (k, v) :: insert key value rest

/-- The keys, in order. -/
def keys (entries : Entries α) : List String := entries.map Prod.fst

/-- Writes the pairs of a list one after the other. -/
def insertAll (entries : Entries α) (pairs : List (String × α)) : Entries α :=
  pairs.foldl (fun acc (k, v) => insert k v acc) entries

/-- Collects pairs: the last value of a key at its first place. -/
def ofPairs (pairs : List (String × α)) : Entries α := insertAll [] pairs

/-- The entries whose key is not listed. -/
def without (names : List String) (entries : Entries α) : Entries α :=
  entries.filter fun (k, _) => !names.contains k

@[simp] theorem get?_nil (key : String) : get? key ([] : Entries α) = none := rfl

theorem get?_cons (key k : String) (v : α) (rest : Entries α) :
    get? key ((k, v) :: rest) = if k = key then some v else get? key rest := rfl

/-- Reading after writing. -/
theorem get?_insert (key other : String) (value : α) (entries : Entries α) :
    get? other (insert key value entries) =
      if key = other then some value else get? other entries := by
  induction entries with
  | nil => simp [insert, get?]
  | cons head rest ih =>
    obtain ⟨k, v⟩ := head
    by_cases hk : k = key
    · subst hk
      by_cases ho : k = other <;> simp [insert, get?, ho]
    · by_cases ho : k = other
      · subst ho
        simp [insert, get?, hk, Ne.symm hk]
      · simp [insert, get?, hk, ho, ih]

/-- A key is read exactly when it is among the keys. -/
theorem contains_iff_mem_keys {key : String} {entries : Entries α} :
    contains key entries = true ↔ key ∈ keys entries := by
  induction entries with
  | nil => simp [contains, keys, get?]
  | cons head rest ih =>
    obtain ⟨k, v⟩ := head
    by_cases hk : k = key
    · simp [contains, keys, get?, hk]
    · simpa [contains, keys, get?, hk, Ne.symm hk] using ih

/-- Writing keeps the keys and adds a new one at the end. -/
theorem keys_insert (key : String) (value : α) (entries : Entries α) :
    keys (insert key value entries) =
      if key ∈ keys entries then keys entries else keys entries ++ [key] := by
  induction entries with
  | nil => simp [insert, keys]
  | cons head rest ih =>
    obtain ⟨k, v⟩ := head
    by_cases hk : k = key
    · simp [insert, keys, hk]
    · have hne : key ≠ k := Ne.symm hk
      simp only [keys] at ih
      by_cases hm : key ∈ rest.map Prod.fst
      · simp [insert, keys, hk, ih, hm]
      · simp [insert, keys, hk, hne, ih, hm]

theorem nodup_keys_insert {entries : Entries α} (h : (keys entries).Nodup) (key : String)
    (value : α) : (keys (insert key value entries)).Nodup := by
  rw [keys_insert]
  by_cases hk : key ∈ keys entries
  · simpa [hk] using h
  · simp only [hk, if_false]
    rw [List.nodup_append]
    exact ⟨h, by simp, fun a ha b hb heq => hk (by simp_all)⟩

theorem nodup_keys_insertAll {entries : Entries α} (h : (keys entries).Nodup)
    (pairs : List (String × α)) : (keys (insertAll entries pairs)).Nodup := by
  induction pairs generalizing entries with
  | nil => exact h
  | cons pair pairs ih => exact ih (nodup_keys_insert h pair.1 pair.2)

/-- Collected pairs have each key once. -/
theorem nodup_keys_ofPairs (pairs : List (String × α)) : (keys (ofPairs pairs)).Nodup := by
  have none : (keys ([] : Entries α)).Nodup := List.nodup_nil
  exact nodup_keys_insertAll none pairs

end Entries

end LocaleBundle
