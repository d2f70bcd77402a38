import LocaleBundle.Proofs.Text.Numeral
import LocaleBundle.Text.DecimalDigit
import Mathlib.Data.List.Induction
import Mathlib.Tactic.Linarith
import Mathlib.Tactic.Ring

/-!
# The number that digits write

More digits never write a smaller number, and the digits of a numeral write the number it is
made from.
-/

namespace LocaleBundle.Text

lemma isDigit_dollar : isDigit '$' = false := by decide

/-- An ASCII digit has its distance from zero as its value. -/
lemma digitValue?_of_ascii {c : Char} (h : c.isDigit = true) :
    digitValue? c = some (c.toNat - '0'.toNat) := by
  have hlow : 48 ≤ c.toNat := by
    simp only [Char.isDigit, Bool.and_eq_true, decide_eq_true_eq, ge_iff_le,
      UInt32.le_iff_toNat_le] at h
    exact h.1
  have hhigh : c.toNat < 58 := by
    simp only [Char.isDigit, Bool.and_eq_true, decide_eq_true_eq, UInt32.le_iff_toNat_le] at h
    exact Nat.lt_succ_of_le h.2
  have hzero : digitZeros.find? (fun start => start ≤ c.toNat && c.toNat < start + 10)
      = some 0x0030 := List.find?_cons_of_pos (by simp [hlow, hhigh])
  rw [digitValue?, hzero]
  rfl

lemma isDigit_of_ascii {c : Char} (h : c.isDigit = true) : isDigit c = true := by
  rw [isDigit, digitValue?_of_ascii h]
  rfl

lemma isDigit_of_mem_ofNat {n : ℕ} {c : Char} (h : c ∈ Numeral.ofNat n) : isDigit c = true :=
  isDigit_of_ascii (Numeral.isDigit_of_mem_ofNat h)

/-- The digits after others count as if those others were moved up. -/
lemma digitsValue_append (cs ds : List Char) :
    digitsValue (cs ++ ds) = digitsValue cs * 10 ^ ds.length + digitsValue ds := by
  induction ds using List.reverseRecOn with
  | nil => simp [digitsValue]
  | append_singleton ds d ih =>
    rw [← List.append_assoc, digitsValue_append_singleton, ih, digitsValue_append_singleton,
      List.length_append, List.length_singleton, pow_succ]
    ring

lemma digitsValue_le_append (cs ds : List Char) : digitsValue cs ≤ digitsValue (cs ++ ds) := by
  have hpow : 1 ≤ 10 ^ ds.length := Nat.one_le_pow _ _ (by norm_num)
  rw [digitsValue_append]
  nlinarith

/-- ASCII digits write the same number in every reading. -/
lemma digitsValue_eq_toNat {cs : List Char} (h : ∀ c ∈ cs, c.isDigit = true) :
    digitsValue cs = Numeral.toNat cs := by
  induction cs using List.reverseRecOn with
  | nil => rfl
  | append_singleton cs c ih =>
    have hc : c.isDigit = true := h c (by simp)
    have hcs : ∀ c ∈ cs, c.isDigit = true := fun d hd => h d (List.mem_append_left _ hd)
    rw [digitsValue_append_singleton, Numeral.toNat_append_singleton, ih hcs,
      digitValue?_of_ascii hc]
    rfl

lemma digitsValue_ofNat (n : ℕ) : digitsValue (Numeral.ofNat n) = n := by
  rw [digitsValue_eq_toNat fun _ => Numeral.isDigit_of_mem_ofNat, Numeral.toNat_ofNat]

end LocaleBundle.Text
