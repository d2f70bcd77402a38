import LocaleBundle.Number.Decimal
import LocaleBundle.Proofs.Number.Binary64
import LocaleBundle.Proofs.Text.Numeral

/-!
# Decimals that are whole numbers

A whole number is written by many decimals: a power of ten may stand in the exponent, and zeros may
stand behind the point. All of them have the same integer part. Decimal arithmetic drops zeros of a
decimal with too many digits, but it does not change a whole number that is small enough.
-/

namespace LocaleBundle

namespace Decimal

/-- Whether a decimal is the natural number `n`. A power of ten that divides the coefficient stands on
the other side. -/
def IsNat (coefficient : ℕ) (exponent : ℤ) (n : ℕ) : Prop :=
  coefficient * 10 ^ exponent.toNat = n * 10 ^ (-exponent).toNat

variable {c n : ℕ} {e : ℤ}

lemma isNat_of_nonneg (he : 0 ≤ e) : IsNat c e n ↔ c * 10 ^ e.toNat = n := by
  rw [IsNat, Int.toNat_of_nonpos (by omega : -e ≤ 0), pow_zero, Nat.mul_one]

lemma isNat_of_neg (he : e < 0) : IsNat c e n ↔ c = n * 10 ^ e.natAbs := by
  rw [IsNat, Int.toNat_of_nonpos he.le, pow_zero, Nat.mul_one,
    (by omega : (-e).toNat = e.natAbs)]

/-- Only zero has the coefficient zero. -/
lemma IsNat.eq_zero_iff (h : IsNat c e n) : c = 0 ↔ n = 0 := by
  have hpow : ∀ k, 0 < 10 ^ k := fun k => Nat.pow_pos (by norm_num)
  rw [IsNat] at h
  constructor
  · rintro rfl
    rw [Nat.zero_mul] at h
    exact (Nat.mul_eq_zero.mp h.symm).resolve_right (hpow _).ne'
  · rintro rfl
    rw [Nat.zero_mul] at h
    exact (Nat.mul_eq_zero.mp h).resolve_right (hpow _).ne'

/-- The point stands behind the digits of the number. -/
lemma IsNat.length_digits (h : IsNat c e n) (hn : n ≠ 0) :
    ((digits c).length : ℤ) + e = (digits n).length := by
  by_cases he : 0 ≤ e
  · have hc : c ≠ 0 := mt h.eq_zero_iff.mp hn
    rw [← (isNat_of_nonneg he).mp h, digits, digits, Text.Numeral.ofNat_mul_pow_ten hc,
      List.length_append, List.length_replicate]
    omega
  · rw [(isNat_of_neg (by omega)).mp h, digits, digits, Text.Numeral.ofNat_mul_pow_ten hn,
      List.length_append, List.length_replicate]
    omega

lemma one_le_length_digits (c : ℕ) : 1 ≤ (digits c).length :=
  List.length_pos_iff.mpr (Text.Numeral.ofNat_ne_nil c)

/-- A decimal that is a natural number is whole, and the number is its integer part. -/
lemma IsNat.isWhole_and_floor (h : IsNat c e n) : isWhole c e = true ∧ floor c e = n := by
  by_cases hn : n = 0
  · obtain rfl := h.eq_zero_iff.mpr hn
    exact ⟨by simp [isWhole], by rw [floor, if_pos rfl, hn]⟩
  · have hc : c ≠ 0 := mt h.eq_zero_iff.mp hn
    by_cases he : 0 ≤ e
    · have hfloor : floor c e = n := by
        rw [floor, if_neg hc, if_pos he, ← (isNat_of_nonneg he).mp h]
        rfl
      exact ⟨by simp [isWhole, he], hfloor⟩
    · have hlen := h.length_digits hn
      have hpos := one_le_length_digits n
      have hmin : min e.natAbs (digits c).length = e.natAbs := by omega
      have hpow : 0 < 10 ^ e.natAbs := Nat.pow_pos (by norm_num)
      have hcut := (isNat_of_neg (by omega)).mp h
      rw [isWhole, floor, if_neg hc, if_neg he, hmin, Nat.pow_eq, hcut]
      exact ⟨by simp, Nat.mul_div_cancel n hpow⟩

/-! ## Within limits -/

/-- A small whole number fits the limits as the number that it is. -/
lemma IsNat.exists_fit? {limits : Limits} (h : IsNat c e n) (hn : n < 10 ^ limits.precision)
    (hlow : limits.lowestPlace ≤ 1 - limits.precision) (hhigh : 0 ≤ limits.highestPlace) :
    ∃ c' e', limits.fit? c e = some (c', e') ∧ IsNat c' e' n := by
  by_cases hzero : n = 0
  · refine ⟨0, min (max e limits.lowestPlace) limits.greatest, ?_, by simp [IsNat, hzero]⟩
    rw [Limits.fit?, if_pos (h.eq_zero_iff.mpr hzero)]
  · have hlen := h.length_digits hzero
    have hpos := one_le_length_digits n
    have hprecision : 0 < limits.precision := by
      by_contra hnone
      rw [Nat.eq_zero_of_not_pos hnone] at hn
      omega
    have hmost : (digits n).length ≤ limits.precision :=
      (Nat.length_toDigits_le_iff (by norm_num) hprecision).mpr hn
    -- the last place is set by the number of digits, and stands behind the point
    obtain ⟨place, hplace⟩ : ∃ place, place = max (e + Int.ofNat (digits c).length -
      Int.ofNat limits.precision) limits.lowestPlace := ⟨_, rfl⟩
    simp only [Int.ofNat_eq_natCast] at hplace
    have hlast : place = (digits n).length - limits.precision := by omega
    simp only [Limits.fit?, if_neg (mt h.eq_zero_iff.mp hzero), Int.ofNat_eq_natCast, ← hplace]
    rw [if_neg (by omega)]
    by_cases hfits : place ≤ e
    · exact ⟨c, e, if_pos hfits, h⟩
    · -- only zeros are dropped
      rw [if_neg hfits]
      have hcut := (isNat_of_neg (by omega)).mp h
      obtain ⟨count, hcount⟩ : ∃ count, count = (place - e).toNat := ⟨_, rfl⟩
      have hsplit : c = n * 10 ^ (-place).toNat * 10 ^ count := by
        rw [hcut, Nat.mul_assoc, ← pow_add, (by omega : (-place).toNat + count = e.natAbs)]
      have hrounded : Limits.dropDigits count c = n * 10 ^ (-place).toNat := by
        rw [Limits.dropDigits, if_neg (by omega), Nat.pow_eq]
        conv_lhs => rw [hsplit]
        exact Binary64.roundQuotient_mul_self (Nat.pow_pos (by norm_num)) _
      have hkept : (digits (n * 10 ^ (-place).toNat)).length ≤ limits.precision := by
        rw [digits, Text.Numeral.ofNat_mul_pow_ten hzero, List.length_append, List.length_replicate]
        rw [digits] at hlast
        omega
      refine ⟨n * 10 ^ (-place).toNat, place, ?_, ?_⟩
      · rw [← hcount, hrounded, if_pos hkept]
      · rw [IsNat, Int.toNat_of_nonpos (by omega : place ≤ 0), pow_zero, Nat.mul_one]

end Decimal

end LocaleBundle
