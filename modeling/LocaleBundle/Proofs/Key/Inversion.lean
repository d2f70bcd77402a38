import LocaleBundle.Key
import LocaleBundle.Proofs.Text.Numeral
import LocaleBundle.Proofs.Text.Search
import Mathlib.Data.Set.Function

/-!
# Taking a key apart

`split` undoes `join`: the reader's position is always at the end of what a whole segment or
slot has written, and its slot counter is the number of the next slot. So a key determines
its segments, and the texts that are keys are those which are put together again from their
parts.
-/

namespace LocaleBundle.Key

open Text

/-! ## What the reader does on each part of a key -/

/-- The characters of a pair or a slot already read are dropped. -/
lemma split_skip (read s : List Char) (slot : ℕ) :
    split read.length slot (read ++ s) = split 0 slot s := by
  induction read with
  | nil => rfl
  | cons c read ih => exact ih

lemma split_plain {c : Char} (hc : c ≠ '$') (slot : ℕ) (s : List Char) :
    split 0 slot (c :: s) = (c :: (split 0 slot s).1, (split 0 slot s).2) := by
  rw [split, if_neg hc]

lemma split_dollars (slot : ℕ) (s : List Char) :
    split 0 slot ('$' :: '$' :: s) = ('$' :: (split 0 slot s).1, (split 0 slot s).2) := by
  have hdollar : startsWith ['$'] ('$' :: s) = true := startsWith_append ['$'] s
  have hskip : split 1 slot ('$' :: s) = split 0 slot s := split_skip ['$'] s slot
  rw [split, if_pos rfl, if_pos hdollar, hskip]

/-- A slot ends the segment before it, whatever text follows its number. -/
lemma split_slot (slot : ℕ) (s : List Char) :
    split 0 slot ('$' :: Numeral.ofNat slot ++ s) =
      ([], (split 0 (slot + 1) s).1 :: (split 0 (slot + 1) s).2) := by
  obtain ⟨c, rest, hc, hdigit⟩ := Numeral.exists_cons_ofNat slot
  have hdollar : startsWith ['$'] (Numeral.ofNat slot ++ s) = false := by
    rw [hc]
    refine startsWith_cons_of_ne ?_ _ _
    rintro rfl
    exact absurd hdigit (by decide)
  rw [List.cons_append, split, if_pos rfl, if_neg (by simp [hdollar]),
    if_pos (startsWith_append _ _), split_skip]

lemma split_escape (segment : List Char) (slot : ℕ) (s : List Char) :
    split 0 slot (escape segment ++ s) =
      (segment ++ (split 0 slot s).1, (split 0 slot s).2) := by
  induction segment with
  | nil => rfl
  | cons c segment ih =>
    rw [escape, List.flatMap_cons, List.append_assoc]
    rw [escape] at ih
    by_cases hc : c = '$'
    · rw [if_pos hc, List.cons_append, List.cons_append, List.nil_append, split_dollars, ih, hc]
      rfl
    · rw [if_neg hc, List.cons_append, List.nil_append, split_plain hc, ih]
      rfl

/-! ## Whole keys -/

lemma split_slotted (others : List (List Char)) :
    ∀ slot, split 0 slot (slotted slot others) = ([], others) := by
  induction others with
  | nil => exact fun _ => rfl
  | cons segment rest ih =>
    intro slot
    rw [slotted, List.append_assoc, split_slot, split_escape, ih, List.append_nil]

lemma split_join (first : List Char) (others : List (List Char)) :
    split 0 1 (join (first :: others)) = (first, others) := by
  rw [join, split_escape, split_slotted, List.append_nil]

lemma segments_ofSegments {s : List String} (h : s ≠ []) : segments (ofSegments s) = s := by
  obtain ⟨first, others, rfl⟩ := List.exists_cons_of_ne_nil h
  simp [segments, ofSegments, split_join, Function.comp_def]

/-- The key of no segments is that of one empty segment. -/
lemma ofSegments_nil : ofSegments [] = ofSegments [""] := rfl

/-- A key is put together again from its parts. -/
lemma ofSegments_segments_ofSegments (s : List String) :
    ofSegments (segments (ofSegments s)) = ofSegments s := by
  cases s with
  | nil => rw [ofSegments_nil, segments_ofSegments (by simp)]
  | cons first others => rw [segments_ofSegments (by simp)]

/-- Key extraction can be undone: the segments of a key are those it was made of, their
number gives the number of slots, no two segment lists share a key, and the texts that are
keys are those which are put together again from their parts. -/
theorem ofSegments_invertible :
    (∀ s : List String, s ≠ [] →
      segments (ofSegments s) = s ∧ slotCount (ofSegments s) = s.length - 1) ∧
    Set.InjOn ofSegments {s | s ≠ []} ∧
    ∀ key : String, ofSegments (segments key) = key ↔ key ∈ Set.range ofSegments := by
  refine ⟨fun s hs => ?_, fun s hs t ht heq => ?_, fun key => ⟨fun h => ⟨_, h⟩, ?_⟩⟩
  · rw [slotCount, segments_ofSegments hs]
    exact ⟨rfl, rfl⟩
  · calc s = segments (ofSegments s) := (segments_ofSegments hs).symm
      _ = segments (ofSegments t) := by rw [heq]
      _ = t := segments_ofSegments ht
  · rintro ⟨s, rfl⟩
    exact ofSegments_segments_ofSegments s

/-- Segments with dollar signs, digits after a slot and an empty end. -/
theorem ofSegments_invertible_dollars :
    (["a$", "1$2", "$", ""] : List String) ≠ [] ∧
    segments (ofSegments ["a$", "1$2", "$", ""]) = ["a$", "1$2", "$", ""] ∧
    slotCount (ofSegments ["a$", "1$2", "$", ""]) = 3 :=
  ⟨by decide, ofSegments_invertible.1 ["a$", "1$2", "$", ""] (by decide)⟩

end LocaleBundle.Key
