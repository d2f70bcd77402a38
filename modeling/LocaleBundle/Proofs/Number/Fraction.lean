import LocaleBundle.Number.Decimal
import LocaleBundle.Proofs.Number.Binary64

/-!
# Doubles with a fraction

A magnitude that is no whole number has its last place behind the point, so it is not great: its
significand, which has 53 bits, counts parts of one. The shortest decimal is not much greater, whether
it was found on a grid or is exact.
-/

namespace LocaleBundle.Binary64

lemma ratio_of_not_isWhole {k : ℕ} (h : isWhole k = false) :
    lastPlace k < 1074 ∧ ratio k = (significand k, 2 ^ (1074 - lastPlace k)) := by
  by_cases hplace : 1074 ≤ lastPlace k
  · have hwhole : isWhole k = true := by
      rw [isWhole, ratio, if_pos hplace, decide_eq_true_eq]
      exact Nat.mod_one _
    exact absurd (hwhole.symm.trans h) (by simp)
  · rw [ratio, if_neg hplace]
    exact ⟨by omega, rfl⟩

/-! ## Decimals up to a bound -/

/-- Whether a decimal is at most `bound`. A power of ten that divides it stands on the other side. -/
def Scientific.AtMost (s : Scientific) (bound : ℕ) : Prop :=
  s.digits * 10 ^ s.exponent.toNat ≤ bound * 10 ^ (-s.exponent).toNat

namespace Scientific

variable {s : Scientific} {bound : ℕ}

lemma atMost_of_nonneg (h : 0 ≤ s.exponent) :
    s.AtMost bound ↔ s.digits * 10 ^ s.exponent.toNat ≤ bound := by
  rw [AtMost, Int.toNat_of_nonpos (by omega : -s.exponent ≤ 0), pow_zero, Nat.mul_one]

lemma atMost_of_neg (h : s.exponent < 0) :
    s.AtMost bound ↔ s.digits ≤ bound * 10 ^ s.exponent.natAbs := by
  rw [AtMost, Int.toNat_of_nonpos h.le, pow_zero, Nat.mul_one,
    (by omega : (-s.exponent).toNat = s.exponent.natAbs)]

lemma AtMost.mono {greater : ℕ} (h : s.AtMost bound) (hle : bound ≤ greater) : s.AtMost greater :=
  le_trans h (Nat.mul_le_mul_right _ hle)

/-- Dropping zeros keeps the value. -/
lemma AtMost.stripZeros (h : s.AtMost bound) (fuel : ℕ) : (s.stripZeros fuel).AtMost bound := by
  induction fuel generalizing s with
  | zero => exact h
  | succ fuel ih =>
    rw [Scientific.stripZeros]
    by_cases hzero : (s.digits % 10 = 0 && s.digits ≠ 0) = true
    · have hmod : s.digits % 10 = 0 := by
        rw [Bool.and_eq_true, decide_eq_true_eq] at hzero
        exact hzero.1
      have hdigits : s.digits = s.digits / 10 * 10 := by omega
      rw [if_pos hzero]
      refine ih ?_
      rw [AtMost] at h ⊢
      -- the zero goes to the exponent, or cancels with one of the other side
      by_cases hneg : s.exponent < 0
      · have hpow : (-s.exponent).toNat = (-(s.exponent + 1)).toNat + 1 := by omega
        have hten : (s.exponent + 1).toNat = s.exponent.toNat := by omega
        rw [hdigits, hpow, pow_succ, Nat.mul_right_comm, ← Nat.mul_assoc] at h
        rw [hten]
        exact Nat.le_of_mul_le_mul_right h (by norm_num)
      · have hpow : (s.exponent + 1).toNat = s.exponent.toNat + 1 := by omega
        have hten : (-(s.exponent + 1)).toNat = (-s.exponent).toNat := by omega
        rw [hdigits, Nat.mul_assoc, Nat.mul_comm 10, ← pow_succ] at h
        rwa [hpow, hten]
    · rwa [if_neg hzero]

/-- The integer part is within the same bound. -/
lemma AtMost.floor_le (h : s.AtMost bound) : Decimal.floor s.digits s.exponent ≤ bound := by
  rw [Decimal.floor]
  split
  · exact Nat.zero_le _
  · split
    · rename_i hexp
      exact (atMost_of_nonneg hexp).mp h
    · rename_i hexp
      have hdigits := (atMost_of_neg (by omega)).mp h
      rcases le_total s.exponent.natAbs (Decimal.digits s.digits).length with hle | hle
      · rw [min_eq_left hle]
        exact Nat.div_le_of_le_mul (by rwa [Nat.mul_comm])
      · -- all digits stand behind the point
        have hlt : s.digits < 10 ^ (Decimal.digits s.digits).length :=
          (Nat.length_toDigits_le_iff (by norm_num) Nat.length_toDigits_pos).mp le_rfl
        rw [min_eq_right hle]
        exact (Nat.div_eq_of_lt hlt).le.trans (Nat.zero_le _)

end Scientific

/-! ## The shortest decimal -/

variable {k num den : ℕ} {place : ℤ} {s : Scientific}

lemma exponent_and_digits_of_nearestOnGrid? (h : nearestOnGrid? k num den place = some s) :
    s.exponent = place ∧
      s.digits ≤ (scaleDown num den place).1 / (scaleDown num den place).2 + 1 := by
  simp only [nearestOnGrid?] at h
  split at h
  · split at h
    · rw [← Option.some.inj h]
      exact ⟨rfl, Nat.le_succ _⟩
    · split at h
      · rw [← Option.some.inj h]
        exact ⟨rfl, le_rfl⟩
      · split at h
        · rw [← Option.some.inj h]
          exact ⟨rfl, Nat.le_succ _⟩
        · rw [← Option.some.inj h]
          exact ⟨rfl, le_rfl⟩
  · rw [← Option.some.inj h]
    exact ⟨rfl, Nat.le_succ _⟩
  · rw [← Option.some.inj h]
    exact ⟨rfl, le_rfl⟩
  · exact absurd h (by simp)

/-- A neighbour on a grid is not a whole step of the grid above the number. -/
lemma atMost_of_nearestOnGrid? (h : nearestOnGrid? k num den place = some s) :
    s.AtMost (num + 10 ^ place.toNat) := by
  obtain ⟨rfl, hdigits⟩ := exponent_and_digits_of_nearestOnGrid? h
  rw [scaleDown] at hdigits
  by_cases hexp : 0 ≤ s.exponent
  · rw [if_pos hexp] at hdigits
    rw [Scientific.atMost_of_nonneg hexp]
    calc s.digits * 10 ^ s.exponent.toNat
        ≤ (num / (den * 10 ^ s.exponent.toNat) + 1) * 10 ^ s.exponent.toNat :=
          Nat.mul_le_mul_right _ hdigits
      _ = num / den / 10 ^ s.exponent.toNat * 10 ^ s.exponent.toNat + 10 ^ s.exponent.toNat := by
          rw [Nat.succ_mul, Nat.div_div_eq_div_mul]
      _ ≤ num + 10 ^ s.exponent.toNat :=
          Nat.add_le_add_right ((Nat.div_mul_le_self _ _).trans (Nat.div_le_self _ _)) _
  · rw [if_neg hexp] at hdigits
    rw [Scientific.atMost_of_neg (by omega), Int.toNat_of_nonpos (by omega), pow_zero]
    have hpow : (-s.exponent).toNat = s.exponent.natAbs := by omega
    calc s.digits ≤ num * 10 ^ (-s.exponent).toNat / den + 1 := hdigits
      _ ≤ num * 10 ^ s.exponent.natAbs + 10 ^ s.exponent.natAbs := by
          rw [hpow]
          exact Nat.add_le_add (Nat.div_le_self _ _) (Nat.one_le_pow _ _ (by norm_num))
      _ = (num + 1) * 10 ^ s.exponent.natAbs := (Nat.succ_mul _ _).symm

lemma decimalExponent_le (num den : ℕ) :
    decimalExponent num den ≤ (Nat.toDigits 10 num).length := by
  simp only [decimalExponent, Int.ofNat_eq_natCast]
  split <;> omega

lemma atMost_exactDecimal (h : lastPlace k < 1074) : (exactDecimal k).AtMost (significand k) := by
  rw [exactDecimal, if_neg (by omega), Scientific.atMost_of_neg (by simp; omega)]
  simp only [Int.ofNat_eq_natCast, Int.natAbs_neg, Int.natAbs_natCast]
  exact Nat.mul_le_mul_left _ (Nat.pow_le_pow_left (by norm_num) _)

/-- The shortest decimal of a magnitude with a fraction has as many digits before the point as the
significand at most, or one more if it is rounded up. -/
lemma atMost_shortest (h : isWhole k = false) : (shortest k).AtMost (2 * 10 ^ 16) := by
  obtain ⟨hplace, hratio⟩ := ratio_of_not_isWhole h
  have hsig : significand k < 10 ^ 16 := (significand_lt k).trans (by norm_num)
  have hlen : (Nat.toDigits 10 (significand k)).length ≤ 16 :=
    (Nat.length_toDigits_le_iff (by norm_num) (by norm_num)).mpr hsig
  rw [shortest]
  simp only [hratio]
  refine Scientific.AtMost.stripZeros ?_ _
  cases hfound : (List.range 17).findSome? fun extra =>
      nearestOnGrid? k (significand k) (2 ^ (1074 - lastPlace k))
        (decimalExponent (significand k) (2 ^ (1074 - lastPlace k)) - Int.ofNat extra) with
  | none => exact (atMost_exactDecimal hplace).mono (by omega)
  | some s =>
    obtain ⟨extra, -, hs⟩ := List.exists_of_findSome?_eq_some hfound
    have htop := decimalExponent_le (significand k) (2 ^ (1074 - lastPlace k))
    have hpow : 10 ^ (decimalExponent (significand k) (2 ^ (1074 - lastPlace k))
        - Int.ofNat extra).toNat ≤ 10 ^ 16 :=
      Nat.pow_le_pow_right (by norm_num) (by rw [Int.ofNat_eq_natCast]; omega)
    have hmost : s.AtMost _ := atMost_of_nearestOnGrid? hs
    exact hmost.mono (by omega)

/-- Its integer part is far from the limit of decimal arithmetic. -/
lemma floor_shortest_lt (h : isWhole k = false) :
    Decimal.floor (shortest k).digits (shortest k).exponent < 10 ^ 28 :=
  (atMost_shortest h).floor_le.trans_lt (by norm_num)

end LocaleBundle.Binary64
