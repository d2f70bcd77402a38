import LocaleBundle.Locale.Audit
import LocaleBundle.Proofs.Locale.Record
import Mathlib.Data.List.Sort

/-!
# Missing keys and their empty translations

The keys that a record misses are listed in strictly increasing order. Filled in, they follow the
translations that were there, nothing is missing any more, and the unused keys are the same.
-/

namespace LocaleBundle

namespace TextSet

lemma mem_sort {items : List String} {item : String} : item ∈ sort items ↔ item ∈ items :=
  List.mem_mergeSort

lemma mem_difference {set other : List String} {item : String} :
    item ∈ difference set other ↔ item ∈ set ∧ item ∉ other := by
  simp [difference]

/-- Different texts are sorted into strictly increasing order. -/
theorem pairwise_sort {items : List String} (h : items.Nodup) :
    (sort items).Pairwise (· < ·) := by
  have hsorted : (sort items).Pairwise fun a b => decide (a ≤ b) = true := by
    apply List.pairwise_mergeSort
    · intro a b c hab hbc
      rw [decide_eq_true_eq] at hab hbc ⊢
      exact String.le_trans hab hbc
    · intro a b
      rw [Bool.or_eq_true, decide_eq_true_eq, decide_eq_true_eq]
      exact String.le_total a b
  have hnodup : (sort items).Nodup := (List.mergeSort_perm items _).nodup_iff.mpr h
  refine (hsorted.and hnodup).imp ?_
  rintro a b ⟨hle, hne⟩
  rw [decide_eq_true_eq] at hle
  rw [← String.not_le]
  exact fun hge => hne (String.le_antisymm hle hge)

lemma nodup_of_pairwise_lt {items : List String} (h : items.Pairwise (· < ·)) : items.Nodup := by
  refine h.imp ?_
  rintro a b hlt rfl
  exact String.lt_irrefl a hlt

end TextSet

namespace Locale.Record

variable {record : Record} {keys : List String} {key : String}

/-- A key is missing if it is referred to and not translated. -/
lemma mem_missing : key ∈ record.missing keys ↔ key ∈ keys ∧ key ∉ record.translations.keys := by
  rw [missing, TextSet.mem_sort, TextSet.mem_difference, TextSet.mem_ofList]

lemma missing_ne_nil_iff : record.missing keys ≠ [] ↔
    ∃ key ∈ keys, key ∉ record.translations.keys := by
  simp only [ne_eq, List.eq_nil_iff_forall_not_mem, mem_missing, not_forall, not_not]

/-- The missing keys are in strictly increasing order. -/
lemma pairwise_missing : (record.missing keys).Pairwise (· < ·) :=
  TextSet.pairwise_sort ((TextSet.nodup_ofList keys).filter _)

/-- A key is unused if it is translated and not referred to. -/
lemma mem_unused : key ∈ record.unused keys ↔ key ∈ record.translations.keys ∧ key ∉ keys := by
  rw [unused, TextSet.mem_sort, TextSet.mem_difference]

lemma pairwise_unused (h : record.translations.keys.Nodup) :
    (record.unused keys).Pairwise (· < ·) :=
  TextSet.pairwise_sort (h.filter _)

/-- Which keys are missing does not depend on the order in which they were referred to. -/
lemma missing_congr {other : List String} (h : ∀ key, key ∈ keys ↔ key ∈ other) :
    record.missing keys = record.missing other := by
  refine pairwise_missing.eq_of_mem_iff pairwise_missing fun key => ?_
  rw [mem_missing, mem_missing, h]

lemma unused_congr {other : List String} (h : ∀ key, key ∈ keys ↔ key ∈ other) :
    record.unused keys = record.unused other := by
  unfold unused TextSet.difference
  refine congrArg TextSet.sort (List.filter_congr fun key _ => ?_)
  rw [List.contains_eq_mem, List.contains_eq_mem, decide_eq_decide.mpr (h key)]

/-- A record with an empty translation for every missing key. -/
def completed (record : Record) (keys : List String) : Record :=
  record.fillIn (record.missing keys)

lemma completed_of_missing_nil (h : record.missing keys = []) : record.completed keys = record := by
  rw [completed, h]
  rfl

/-- The old translations stay in front. -/
lemma translations_completed : (record.completed keys).translations =
    record.translations ++ (record.missing keys).map fun key => (key, .text "") := by
  have hkeys : Entries.keys ((record.missing keys).map fun key => (key, Value.text "")) =
      record.missing keys := Entries.keys_map _ _
  refine Entries.insertAll_of_notMem ?_ ?_
  · rw [hkeys]
    exact TextSet.nodup_of_pairwise_lt pairwise_missing
  · rw [hkeys]
    exact fun key hkey => (mem_missing.mp hkey).2

lemma keys_completed : (record.completed keys).translations.keys =
    record.translations.keys ++ record.missing keys := by
  rw [translations_completed, Entries.keys, List.map_append]
  simp [Entries.keys, Function.comp_def]

/-- Nothing is missing in a completed record. -/
lemma missing_completed : (record.completed keys).missing keys = [] := by
  rw [List.eq_nil_iff_forall_not_mem]
  intro key hkey
  rw [mem_missing, keys_completed, List.mem_append, not_or] at hkey
  obtain ⟨hreferred, huntranslated, hnot⟩ := hkey
  exact hnot (mem_missing.mpr ⟨hreferred, huntranslated⟩)

lemma unused_completed : (record.completed keys).unused keys = record.unused keys := by
  have hused : TextSet.difference (record.missing keys) keys = [] := by
    rw [List.eq_nil_iff_forall_not_mem]
    intro key hkey
    obtain ⟨hmissing, hnot⟩ := TextSet.mem_difference.mp hkey
    exact hnot (mem_missing.mp hmissing).1
  rw [unused, unused, keys_completed, TextSet.difference, List.filter_append]
  rw [TextSet.difference] at hused
  rw [hused, List.append_nil]
  rfl

/-- A record that can be written can be written when it is completed. -/
lemma IsWritable.completed (h : record.IsWritable) (keys : List String) :
    (record.completed keys).IsWritable := by
  have htranslations : (record.completed keys).translations = _ := translations_completed
  refine ⟨h.locale, h.fallback, h.fallbackJson, ?_, ?_, h.extraNames, h.extraJson⟩
  · rw [htranslations, List.forall_mem_append, List.forall_mem_map]
    exact ⟨h.areTranslations, fun key _ => .text ""⟩
  · refine .map ?_ ?_
    · rw [keys_completed, List.nodup_append]
      refine ⟨h.nodup_keys_translations, TextSet.nodup_of_pairwise_lt pairwise_missing, ?_⟩
      rintro a ha b hb rfl
      exact (mem_missing.mp hb).2 ha
    · rw [htranslations, List.forall_mem_append, List.forall_mem_map]
      refine ⟨?_, fun key _ => .text ""⟩
      cases h.translationsJson with
      | map _ hvalues => exact hvalues

end Locale.Record

end LocaleBundle
