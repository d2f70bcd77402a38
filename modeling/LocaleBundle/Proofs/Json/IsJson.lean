import LocaleBundle.Json.Reader
import LocaleBundle.Json.Writer
import LocaleBundle.Proofs.Entries
import Mathlib.Data.Int.Notation

/-!
# JSON values

The values that have a JSON text are those that reading a text returns: every reading is such a
value, and each of them can be written.
-/

namespace LocaleBundle

/-- The values that JSON texts stand for: no decimals, no bytes, and no key twice in a map. -/
inductive Value.IsJson : Value → Prop
  | null : IsJson .null
  | bool (b : Bool) : IsJson (.bool b)
  | int (n : ℤ) : IsJson (.int n)
  | float (x : Binary64) : IsJson (.float x)
  | text (s : String) : IsJson (.text s)
  | list {items : List Value} (hitems : ∀ v ∈ items, IsJson v) : IsJson (.list items)
  | map {entries : Entries Value} (hkeys : entries.keys.Nodup)
    (hvalues : ∀ e ∈ entries, IsJson e.2) : IsJson (.map entries)

namespace Json

/-! ## What can be written -/

lemma unwritable?_of_isJson {v : Value} (hv : v.IsJson) : unwritable? v = none := by
  induction hv with
  | null => rfl
  | bool b => rfl
  | int n => rfl
  | float x => rfl
  | text s => rfl
  | @list items hitems ih =>
    rw [unwritable?]
    clear hitems
    induction items with
    | nil => rfl
    | cons v items ihs =>
      rw [unwritableItems?, ih v List.mem_cons_self, Option.none_or]
      exact ihs fun w hw => ih w (List.mem_cons_of_mem v hw)
  | @map entries hkeys hvalues ih =>
    rw [unwritable?]
    clear hkeys hvalues
    induction entries with
    | nil => rfl
    | cons e entries ihs =>
      rw [unwritableEntries?, ih e List.mem_cons_self, Option.none_or]
      exact ihs fun f hf => ih f (List.mem_cons_of_mem e hf)

/-! ## What reading returns -/

lemma isJson_of_readUnsigned? {negative : Bool} {s rest : List Char} {v : Value}
    (h : readUnsigned? negative s = some (v, rest)) : v.IsJson := by
  rw [readUnsigned?, Option.bind_eq_bind, Option.bind_eq_some_iff] at h
  obtain ⟨⟨whole, afterWhole⟩, -, h⟩ := h
  simp only at h
  split at h
  · obtain ⟨rfl, -⟩ := Prod.mk.inj (Option.some.inj h)
    exact .int _
  · obtain ⟨rfl, -⟩ := Prod.mk.inj (Option.some.inj h)
    exact .float _

lemma isJson_of_readLiteral? {s rest : List Char} {v : Value}
    (h : readLiteral? s = some (v, rest)) : v.IsJson := by
  have hall : ∀ w ∈ literals, w.2.IsJson := by
    intro w hw
    simp only [literals, List.mem_cons, List.not_mem_nil, or_false] at hw
    rcases hw with rfl | rfl | rfl | rfl | rfl | rfl
    · exact .null
    · exact .bool true
    · exact .bool false
    · exact .float _
    · exact .float _
    · exact .float _
  obtain ⟨⟨word, w⟩, hmem, hword⟩ := List.exists_of_findSome?_eq_some h
  obtain ⟨tail, -, htail⟩ := Option.map_eq_some_iff.mp hword
  obtain ⟨rfl, -⟩ := Prod.mk.inj htail
  exact hall _ hmem

lemma isJson_of_readScalar {s rest : List Char} {v : Value}
    (h : readScalar s = .ok (v, rest)) : v.IsJson := by
  simp only [readScalar] at h
  split at h
  · rename_i hword
    obtain rfl := Except.ok.inj h
    exact isJson_of_readLiteral? hword
  · rename_i hnumber
    obtain rfl := Except.ok.inj h
    -- with a minus sign or without
    split at hnumber
    · exact isJson_of_readUnsigned? hnumber
    · exact isJson_of_readUnsigned? hnumber
  · exact absurd h (by simp)

lemma exists_of_map_eq_ok {ε α β : Type} {r : Except ε (α × List Char)} {f : α → β} {b : β}
    {rest : List Char} (h : (r.map fun (a, rest) => (f a, rest)) = .ok (b, rest)) :
    ∃ a, r = .ok (a, rest) ∧ f a = b := by
  cases r with
  | error e => exact absurd h (by simp [Except.map])
  | ok reading =>
    obtain ⟨hb, hrest⟩ := Prod.mk.inj (Except.ok.inj h)
    exact ⟨reading.1, by rw [← hrest], hb⟩

/-- Whether all readings with so much fuel are JSON values. -/
def ReadsJson (fuel : ℕ) : Prop :=
  (∀ s rest v, readValue fuel s = .ok (v, rest) → v.IsJson) ∧
  (∀ s rest items, readItems fuel s = .ok (items, rest) → ∀ v ∈ items, v.IsJson) ∧
  (∀ s rest members, readMembers fuel s = .ok (members, rest) → ∀ e ∈ members, e.2.IsJson)

lemma isJson_of_readValue_succ {fuel : ℕ} (hfuel : ReadsJson fuel) {s rest : List Char} {v : Value}
    (h : readValue (fuel + 1) s = .ok (v, rest)) : v.IsJson := by
  simp only [readValue] at h
  split at h
  · obtain ⟨t, -, rfl⟩ := exists_of_map_eq_ok h
    exact .text t
  · split at h
    · obtain ⟨rfl, -⟩ := Prod.mk.inj (Except.ok.inj h)
      exact .list (by simp)
    · obtain ⟨items, hitems, rfl⟩ := exists_of_map_eq_ok h
      exact .list (hfuel.2.1 _ _ _ hitems)
  · split at h
    · obtain ⟨rfl, -⟩ := Prod.mk.inj (Except.ok.inj h)
      exact .map List.nodup_nil (by simp)
    · obtain ⟨members, hmembers, rfl⟩ :=
        exists_of_map_eq_ok (f := fun members => Value.map (Entries.ofPairs members)) h
      refine .map (Entries.nodup_keys_ofPairs members) fun e he => ?_
      exact hfuel.2.2 _ _ _ hmembers e (Entries.mem_of_mem_ofPairs he)
  · exact isJson_of_readScalar h

lemma isJson_of_readItems_succ {fuel : ℕ} (hfuel : ReadsJson fuel) {s rest : List Char}
    {items : List Value} (h : readItems (fuel + 1) s = .ok (items, rest)) :
    ∀ v ∈ items, v.IsJson := by
  simp only [readItems] at h
  split at h
  · exact absurd h (by simp)
  · rename_i w more hw
    have hwJson := hfuel.1 _ _ _ hw
    split at h
    · obtain ⟨rfl, -⟩ := Prod.mk.inj (Except.ok.inj h)
      simpa using hwJson
    · obtain ⟨tail, htail, rfl⟩ := exists_of_map_eq_ok h
      intro v hv
      rcases List.mem_cons.mp hv with rfl | hv
      · exact hwJson
      · exact hfuel.2.1 _ _ _ htail v hv
    · exact absurd h (by simp)

lemma isJson_of_readMembers_succ {fuel : ℕ} (hfuel : ReadsJson fuel) {s rest : List Char}
    {members : List (String × Value)} (h : readMembers (fuel + 1) s = .ok (members, rest)) :
    ∀ e ∈ members, e.2.IsJson := by
  simp only [readMembers] at h
  split at h
  · split at h
    · exact absurd h (by simp)
    · split at h
      · split at h
        · exact absurd h (by simp)
        · rename_i w more hw
          have hwJson := hfuel.1 _ _ _ hw
          split at h
          · obtain ⟨rfl, -⟩ := Prod.mk.inj (Except.ok.inj h)
            simpa using hwJson
          · obtain ⟨tail, htail, rfl⟩ := exists_of_map_eq_ok h
            intro e he
            rcases List.mem_cons.mp he with rfl | he
            · exact hwJson
            · exact hfuel.2.2 _ _ _ htail e he
          · exact absurd h (by simp)
      · exact absurd h (by simp)
  · exact absurd h (by simp)

/-- Every value is read with less fuel than what it stands in. -/
lemma readsJson (fuel : ℕ) : ReadsJson fuel := by
  induction fuel with
  | zero =>
    refine ⟨fun s rest v h => ?_, fun s rest items h => ?_, fun s rest members h => ?_⟩
    · exact absurd h (by simp [readValue])
    · exact absurd h (by simp [readItems])
    · exact absurd h (by simp [readMembers])
  | succ fuel ih =>
    exact ⟨fun s rest v h => isJson_of_readValue_succ ih h,
      fun s rest items h => isJson_of_readItems_succ ih h,
      fun s rest members h => isJson_of_readMembers_succ ih h⟩

/-- A document that was read is a JSON value: its maps have each key once. -/
theorem isJson_of_readDocument {text : List Char} {v : Value} (h : readDocument text = .ok v) :
    v.IsJson := by
  simp only [readDocument] at h
  split at h
  · exact absurd h (by simp)
  · split at h
    · exact absurd h (by simp)
    · rename_i w rest hw
      split at h
      · obtain rfl := Except.ok.inj h
        exact (readsJson _).1 _ _ _ hw
      · exact absurd h (by simp)

end Json

end LocaleBundle
