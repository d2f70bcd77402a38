import LocaleBundle.Key
import LocaleBundle.Proofs.Template.Filling

/-!
# The pieces of a key

Read as a template, a key is cut at its own slots: escaped text is cut into single characters, and a
slot takes the digits with which the segment behind it starts along with its number.
-/

namespace LocaleBundle

open Text Template

/-- A character of a segment as a piece of its key. -/
def Template.Piece.ofChar (c : Char) : Piece := if c = '$' then .dollar else .plain c

namespace Key

/-! ## Escaped text -/

lemma escape_nil : escape [] = [] := rfl

lemma escape_append (s t : List Char) : escape (s ++ t) = escape s ++ escape t := by
  rw [escape, List.flatMap_append]
  rfl

/-- Digits are not escaped. -/
lemma escape_takeWhile_isDigit (segment : List Char) :
    escape (segment.takeWhile isDigit) = segment.takeWhile isDigit := by
  induction segment with
  | nil => rfl
  | cons c segment ih =>
    by_cases hc : isDigit c = true
    · have hdollar : c ≠ '$' := by
        rintro rfl
        rw [isDigit_dollar] at hc
        exact Bool.false_ne_true hc
      rw [List.takeWhile_cons_of_pos hc, escape, List.flatMap_cons, if_neg hdollar]
      exact congrArg (c :: ·) ih
    · rw [List.takeWhile_cons_of_neg hc, escape_nil]

lemma pieces_escape (segment s : List Char) :
    pieces (escape segment ++ s) = segment.map Piece.ofChar ++ pieces s := by
  induction segment with
  | nil => rfl
  | cons c segment ih =>
    rw [escape, List.flatMap_cons, List.append_assoc]
    rw [escape] at ih
    by_cases hc : c = '$'
    · rw [if_pos hc, List.cons_append, List.cons_append, List.nil_append, pieces_dollars, ih,
        List.map_cons, Piece.ofChar, if_pos hc]
      rfl
    · rw [if_neg hc, List.cons_append, List.nil_append, pieces_plain hc, ih, List.map_cons,
        Piece.ofChar, if_neg hc]
      rfl

/-! ## Slots -/

/-- What follows the digits at the start of a segment is no digit. -/
lemma not_isDigit_head_escape_append (slot : ℕ) (segment : List Char)
    (rest : List (List Char)) :
    ∀ c ∈ (escape (segment.dropWhile isDigit) ++ slotted slot rest).head?, isDigit c = false := by
  intro c hc
  cases htail : segment.dropWhile isDigit with
  | nil =>
    rw [htail, escape_nil, List.nil_append] at hc
    cases rest with
    | nil => simp [slotted] at hc
    | cons next rest =>
      simp only [slotted, List.cons_append, List.head?_cons, Option.mem_def,
        Option.some.injEq] at hc
      rw [← hc, isDigit_dollar]
  | cons d tail =>
    have hd : isDigit d = false := isDigit_head_dropWhile segment d (by rw [htail]; rfl)
    rw [htail, escape, List.flatMap_cons] at hc
    by_cases hdollar : d = '$'
    · simp only [if_pos hdollar, List.cons_append, List.head?_cons, Option.mem_def,
        Option.some.injEq] at hc
      rw [← hc, isDigit_dollar]
    · simp only [if_neg hdollar, List.cons_append, List.head?_cons, Option.mem_def,
        Option.some.injEq] at hc
      rw [← hc, hd]

/-- A slot and its segment are cut off before what follows them. -/
lemma pieces_slotted_cons (slot : ℕ) (segment : List Char) (rest : List (List Char)) :
    pieces (slotted slot (segment :: rest)) =
      .slot (Numeral.ofNat slot ++ segment.takeWhile isDigit) ::
        ((segment.dropWhile isDigit).map Piece.ofChar ++ pieces (slotted (slot + 1) rest)) := by
  have hsegment : escape segment =
      segment.takeWhile isDigit ++ escape (segment.dropWhile isDigit) := by
    conv_lhs => rw [← List.takeWhile_append_dropWhile (p := isDigit) (l := segment)]
    rw [escape_append, escape_takeWhile_isDigit]
  have hdigits : ∀ c ∈ Numeral.ofNat slot ++ segment.takeWhile isDigit, isDigit c = true := by
    intro c hc
    rcases List.mem_append.mp hc with hc | hc
    · exact isDigit_of_mem_ofNat hc
    · exact List.mem_takeWhile_imp hc
  have hne : Numeral.ofNat slot ++ segment.takeWhile isDigit ≠ [] :=
    List.append_ne_nil_of_left_ne_nil (Numeral.ofNat_ne_nil slot) _
  have hslotted : slotted slot (segment :: rest) =
      '$' :: ((Numeral.ofNat slot ++ segment.takeWhile isDigit) ++
        (escape (segment.dropWhile isDigit) ++ slotted (slot + 1) rest)) := by
    rw [slotted, hsegment]
    simp only [List.cons_append, List.append_assoc]
  rw [hslotted, pieces_slot hne hdigits (not_isDigit_head_escape_append _ _ _), pieces_escape]

/-- The number of a slot names its argument. -/
lemma names_ofNat {count slot : ℕ} (hslot : 1 ≤ slot) (hcount : slot ≤ count) :
    Names count (Numeral.ofNat slot) := by
  rw [Names, digitsValue_ofNat]
  exact ⟨hslot, hcount⟩

end Key

end LocaleBundle
