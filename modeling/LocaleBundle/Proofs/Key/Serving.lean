import LocaleBundle.Proofs.Key.Pieces

/-!
# How many arguments a key needs

A slot is served if some lead of its digits is the number of an argument. One slot with a number of
one digit is served by its own argument only, but a longer number starts with the number of one of the
first nine slots. So a key with at most nine slots needs an argument for each, and nine arguments
serve every key.
-/

namespace LocaleBundle

open Text

namespace Key

open Template

variable {count slot : ℕ}

/-- A slot whose number is not too large is served by its own argument. -/
lemma isSome_bind?_of_le (hslot : 1 ≤ slot) (hcount : slot ≤ count) (run : List Char) :
    (bind? count (Numeral.ofNat slot ++ run)).isSome = true :=
  isSome_bind?_iff.mpr ⟨_, List.prefix_append _ run, names_ofNat hslot hcount⟩

/-- A numeral starts with that of a number below ten. -/
lemma exists_ofNat_prefix (hslot : 1 ≤ slot) :
    ∃ lead, 1 ≤ lead ∧ lead ≤ 9 ∧ Numeral.ofNat lead <+: Numeral.ofNat slot := by
  induction slot using Nat.strongRecOn with
  | ind slot ih =>
    by_cases hdigit : slot ≤ 9
    · exact ⟨slot, hslot, hdigit, List.prefix_rfl⟩
    · -- all digits but the last are the numeral of a tenth
      obtain ⟨lead, hpos, hnine, hlead⟩ := ih (slot / 10) (by omega) (by omega)
      have hsplit := Nat.toDigits_append_toDigits (b := 10) (n := slot / 10) (d := slot % 10)
        (by norm_num) (by omega) (Nat.mod_lt slot (by norm_num))
      rw [Nat.div_add_mod] at hsplit
      exact ⟨lead, hpos, hnine, hlead.trans ⟨_, hsplit⟩⟩

/-- The first digit of a slot's number names one of the first nine arguments. -/
lemma isSome_bind?_of_nine (hslot : 1 ≤ slot) (hcount : 9 ≤ count) (run : List Char) :
    (bind? count (Numeral.ofNat slot ++ run)).isSome = true := by
  obtain ⟨lead, hpos, hnine, hlead⟩ := exists_ofNat_prefix hslot
  exact isSome_bind?_iff.mpr
    ⟨_, hlead.trans (List.prefix_append _ run), names_ofNat hpos (hnine.trans hcount)⟩

/-- With fewer than nine arguments, the slot with the next number is not served: its number has one
digit, and more digits make no smaller number. -/
lemma isSome_bind?_of_lt (hcount : count < 9) (run : List Char) :
    (bind? count (Numeral.ofNat (count + 1) ++ run)).isSome = false := by
  rw [← Bool.not_eq_true, isSome_bind?_iff]
  rintro ⟨lead, hlead, hpos, hle⟩
  have hone : Numeral.ofNat (count + 1) = [(count + 1).digitChar] :=
    Nat.toDigits_of_lt_base (by omega)
  have hvalue := digitsValue_ofNat (count + 1)
  rw [hone] at hlead hvalue
  cases lead with
  | nil => exact absurd hpos (by decide)
  | cons c lead =>
    obtain rfl : c = (count + 1).digitChar := (List.cons_prefix_cons.mp hlead).1
    have hmore := digitsValue_le_append [(count + 1).digitChar] lead
    rw [hvalue] at hmore
    exact absurd (hmore.trans hle) (by omega)

/-! ## Whole keys -/

lemma all_isServed_ofChar (count : ℕ) (segment : List Char) :
    (segment.map Piece.ofChar).all (Piece.isServed count) = true := by
  rw [List.all_map, List.all_eq_true]
  intro c _
  unfold Function.comp Piece.ofChar
  split
  · rfl
  · rfl

lemma all_isServed_escape (count : ℕ) (segment s : List Char) :
    (pieces (escape segment ++ s)).all (Piece.isServed count) =
      (pieces s).all (Piece.isServed count) := by
  rw [pieces_escape, List.all_append, all_isServed_ofChar, Bool.true_and]

/-- Text serves itself, so a slot and its segment ask for what the slot asks for. -/
lemma all_isServed_slotted_cons (count slot : ℕ) (segment : List Char) (rest : List (List Char)) :
    (pieces (slotted slot (segment :: rest))).all (Piece.isServed count) =
      ((bind? count (Numeral.ofNat slot ++ segment.takeWhile isDigit)).isSome &&
        (pieces (slotted (slot + 1) rest)).all (Piece.isServed count)) := by
  rw [pieces_slotted_cons, List.all_cons, List.all_append, all_isServed_ofChar, Bool.true_and]
  rfl

/-- With all slots up to `last` served by their own arguments or by the first nine, slots from `slot`
on are. -/
lemma all_isServed_slotted {last : ℕ} (hserves : min last 9 ≤ count) (rest : List (List Char)) :
    ∀ slot, 1 ≤ slot → slot + rest.length = last + 1 →
      (pieces (slotted slot rest)).all (Piece.isServed count) = true := by
  induction rest with
  | nil => exact fun _ _ _ => rfl
  | cons segment rest ih =>
    intro slot hslot hlast
    rw [List.length_cons] at hlast
    have hserved : (bind? count (Numeral.ofNat slot ++ segment.takeWhile isDigit)).isSome = true := by
      by_cases hnine : 9 ≤ count
      · exact isSome_bind?_of_nine hslot hnine _
      · exact isSome_bind?_of_le hslot (by omega) _
    rw [all_isServed_slotted_cons, hserved, Bool.true_and]
    exact ih (slot + 1) (by omega) (by omega)

/-- One of several slots that is not served is enough. -/
lemma all_isServed_slotted_of_lt (hcount : count < 9) (rest : List (List Char)) :
    ∀ slot, slot ≤ count + 1 → count + 1 < slot + rest.length →
      (pieces (slotted slot rest)).all (Piece.isServed count) = false := by
  induction rest with
  | nil =>
    intro slot hslot hmore
    rw [List.length_nil] at hmore
    omega
  | cons segment rest ih =>
    intro slot hslot hmore
    rw [List.length_cons] at hmore
    rw [all_isServed_slotted_cons]
    by_cases hnext : slot = count + 1
    · rw [hnext, isSome_bind?_of_lt hcount, Bool.false_and]
    · rw [ih (slot + 1) (by omega) (by omega), Bool.and_false]

lemma isServed_ofSegments_cons (first : String) (others : List String) (count : ℕ) :
    isServed (ofSegments (first :: others)) count =
      (pieces (slotted 1 (others.map String.toList))).all (Piece.isServed count) := by
  rw [isServed, ofSegments, String.toList_ofList, List.map_cons, join, all_isServed_escape,
    Int.toNat_natCast]

/-- The slots of a key are served by as many arguments as there are slots, and by nine. -/
theorem isServed_ofSegments_iff {segments : List String} (hne : segments ≠ []) (count : ℕ) :
    isServed (ofSegments segments) count = true ↔ min (segments.length - 1) 9 ≤ count := by
  obtain ⟨first, others, rfl⟩ := List.exists_cons_of_ne_nil hne
  rw [isServed_ofSegments_cons, List.length_cons, Nat.add_sub_cancel]
  constructor
  · intro hserved
    by_contra hfew
    have hunserved := all_isServed_slotted_of_lt (by omega : count < 9) (others.map String.toList) 1
      (by omega) (by rw [List.length_map]; omega)
    exact Bool.false_ne_true (hunserved.symm.trans hserved)
  · intro hserves
    exact all_isServed_slotted hserves _ 1 le_rfl (by rw [List.length_map]; omega)

end Key

end LocaleBundle
