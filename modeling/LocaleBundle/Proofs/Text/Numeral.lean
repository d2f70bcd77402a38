import LocaleBundle.Text.Numeral
import Mathlib.Data.Nat.Digits.Defs
import Mathlib.Tactic.Ring

/-!
# The characters of a numeral

A numeral is a non-empty list of ASCII digits. Zeros at its end are powers of ten.
-/

namespace LocaleBundle.Text.Numeral

lemma ofNat_ne_nil (n : ℕ) : ofNat n ≠ [] := Nat.toDigits_ne_nil

lemma isDigit_of_mem_ofNat {n : ℕ} {c : Char} (h : c ∈ ofNat n) : c.isDigit = true :=
  Nat.isDigit_of_mem_toDigits (by norm_num) (by norm_num) h

/-- A numeral starts with a digit. -/
lemma exists_cons_ofNat (n : ℕ) : ∃ c rest, ofNat n = c :: rest ∧ c.isDigit = true := by
  cases h : ofNat n with
  | nil => exact absurd h (ofNat_ne_nil n)
  | cons c rest => exact ⟨c, rest, rfl, isDigit_of_mem_ofNat (h ▸ List.mem_cons_self)⟩

/-- A numeral starts with a digit or a minus sign. -/
lemma text_ne {n : ℤ} {s : String} {c : Char} {rest : List Char} (hs : s.toList = c :: rest)
    (hdigit : c.isDigit = false) (hminus : c ≠ '-') : text n ≠ s := by
  rintro rfl
  obtain ⟨d, tail, hdigits, hd⟩ := exists_cons_ofNat n.natAbs
  rw [text, String.toList_ofList, ofInt, hdigits] at hs
  split at hs
  · exact hminus (List.cons.inj hs).1.symm
  · rw [(List.cons.inj hs).1, hdigit] at hd
    exact Bool.false_ne_true hd

/-! ## Zeros at the end -/

/-- Zeros behind digits are a power of ten. -/
lemma toNat_append_zeros (ds : List Char) (z : ℕ) :
    toNat (ds ++ List.replicate z '0') = toNat ds * 10 ^ z := by
  induction z with
  | zero => simp
  | succ z ih =>
    rw [List.replicate_succ', ← List.append_assoc, toNat_append_singleton, ih, pow_succ]
    simp only [Nat.sub_self, Nat.add_zero]
    ring

/-- A power of ten puts zeros behind the digits. -/
lemma ofNat_mul_pow_ten {n : ℕ} (hn : n ≠ 0) (k : ℕ) :
    ofNat (n * 10 ^ k) = ofNat n ++ List.replicate k '0' := by
  induction k with
  | zero => simp
  | succ k ih =>
    have hpos : 0 < n * 10 ^ k := Nat.mul_pos (Nat.pos_of_ne_zero hn) (Nat.pow_pos (by norm_num))
    have hsplit := Nat.toDigits_append_toDigits (b := 10) (n := n * 10 ^ k) (d := 0) (by norm_num)
      hpos (by norm_num)
    have hten : n * 10 ^ (k + 1) = 10 * (n * 10 ^ k) + 0 := by ring
    rw [hten, ofNat, ← hsplit, List.replicate_succ', ← List.append_assoc, ← ih]
    rfl

end LocaleBundle.Text.Numeral
