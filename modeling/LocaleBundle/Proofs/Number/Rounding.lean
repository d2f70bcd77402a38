import LocaleBundle.Proofs.Number.Binary64
import Mathlib.Data.Nat.Log

/-!
# Rounding keeps the order

A quotient is rounded at the last place that its size gives it. Greater quotients are rounded to greater
ordinals, also from one binade to the next, and a quotient that is nearer to a magnitude than a `2^54`th
part of it is rounded to that magnitude.
-/

namespace LocaleBundle.Binary64

variable {k n num den a b : ℕ}

/-! ## Integers -/

lemma roundQuotient_bounds (num den : ℕ) :
    num / den ≤ roundQuotient num den ∧ roundQuotient num den ≤ num / den + 1 := by
  simp only [roundQuotient]
  split
  · omega
  · split <;> omega

/-- Greater numbers are rounded to greater integers. -/
lemma roundQuotient_mono (h : a ≤ b) (den : ℕ) : roundQuotient a den ≤ roundQuotient b den := by
  have hdiv : a / den ≤ b / den := Nat.div_le_div_right h
  -- with one integer part the remainders decide, else the next integer is between the two
  by_cases hsame : a / den = b / den
  · have ha := Nat.div_add_mod a den
    have hb := Nat.div_add_mod b den
    rw [← hsame] at hb
    have hmod : a % den ≤ b % den := by omega
    simp only [roundQuotient, ← hsame]
    split
    · split
      · exact le_rfl
      · split <;> omega
    · split
      · split
        · omega
        · split <;> omega
      · split
        · omega
        · split <;> omega
  · have hlow := (roundQuotient_bounds b den).1
    have hhigh := (roundQuotient_bounds a den).2
    omega

/-- A quotient that is less than a half away from an integer is rounded to it. -/
lemma roundQuotient_of_near (hlow : 2 * (n * den) < 2 * num + den)
    (hhigh : 2 * num < 2 * (n * den) + den) : roundQuotient num den = n := by
  have hden : 0 < den := by omega
  have hsplit := Nat.div_add_mod num den
  have hrest := Nat.mod_lt num hden
  by_cases hle : n * den ≤ num
  · have hdiv : num / den = n := Nat.div_eq_of_lt_le hle (by rw [Nat.succ_mul]; omega)
    rw [hdiv, Nat.mul_comm] at hsplit
    simp only [roundQuotient, hdiv]
    rw [if_pos (by omega)]
  · obtain ⟨m, rfl⟩ : ∃ m, n = m + 1 := ⟨n - 1, by
      rcases Nat.eq_zero_or_pos n with rfl | hpos
      · omega
      · omega⟩
    rw [Nat.add_mul, Nat.one_mul] at hlow hhigh hle
    have hdiv : num / den = m := Nat.div_eq_of_lt_le (by omega) (by rw [Nat.succ_mul]; omega)
    rw [hdiv, Nat.mul_comm] at hsplit
    simp only [roundQuotient, hdiv]
    rw [if_neg (by omega), if_pos (by omega)]

/-! ## Last places -/

lemma log2_mono (h : a ≤ b) : Nat.log2 a ≤ Nat.log2 b := by
  rw [Nat.log2_eq_log_two, Nat.log2_eq_log_two]
  exact Nat.log_mono_right h

/-- The last place of a quotient: its significand has at most 53 bits. -/
def placeOf (num den : ℕ) : ℕ := Nat.log2 (num / den) - 52

/-- The ordinal nearest to a quotient that counts the smallest places. -/
def roundScaled (num den : ℕ) : ℕ :=
  placeOf num den * binade + roundQuotient num (den * 2 ^ placeOf num den)

lemma roundOrdinal_zero (den : ℕ) : roundOrdinal 0 den = 0 := by rw [roundOrdinal, if_pos rfl]

lemma roundOrdinal_eq_roundScaled {unit : ℕ} (hunit : unit = 1074) (hden : 0 < den) :
    roundOrdinal num den = roundScaled (num * 2 ^ unit) den := by
  by_cases hnum : num = 0
  · subst hnum
    have hzero := roundQuotient_mul_self hden 0
    rw [Nat.zero_mul] at hzero
    rw [roundOrdinal_zero, roundScaled, placeOf, Nat.zero_mul, Nat.zero_div, Nat.log2_zero,
      Nat.zero_sub, Nat.zero_mul, pow_zero, Nat.mul_one, hzero]
  · have hround := roundOrdinal_of_ne_zero hnum den
    generalize 1074 = exponent at hround hunit
    subst hunit
    exact hround

lemma lt_two_pow_placeOf (num den : ℕ) : num / den < 2 ^ (placeOf num den + 53) := by
  refine Nat.lt_log2_self.trans_le (Nat.pow_le_pow_right (by norm_num) ?_)
  rw [placeOf]
  omega

lemma two_pow_placeOf_le (h : placeOf num den ≠ 0) : 2 ^ (placeOf num den + 52) ≤ num / den := by
  rw [placeOf] at h ⊢
  have hquotient : num / den ≠ 0 := by
    intro hzero
    rw [hzero, Nat.log2_zero] at h
    exact h rfl
  rw [Nat.sub_add_cancel (by omega)]
  exact Nat.log2_self_le hquotient

/-- The rounded significand has at most 53 bits, or is a power of two more; and it has so many if its
place is not the smallest. -/
lemma roundScaled_bounds (num den : ℕ) :
    roundScaled num den ≤ (placeOf num den + 2) * binade ∧
      (placeOf num den ≠ 0 → (placeOf num den + 1) * binade ≤ roundScaled num den) := by
  obtain ⟨hlow, hhigh⟩ := roundQuotient_bounds num (den * 2 ^ placeOf num den)
  have hpow : 0 < 2 ^ placeOf num den := Nat.two_pow_pos _
  rw [← Nat.div_div_eq_div_mul] at hlow hhigh
  rw [roundScaled, Nat.add_mul, Nat.add_mul, binade_eq]
  constructor
  · have hquotient : num / den / 2 ^ placeOf num den < 2 ^ 53 := by
      rw [Nat.div_lt_iff_lt_mul hpow, ← pow_add, Nat.add_comm]
      exact lt_two_pow_placeOf num den
    omega
  · intro hplace
    have hquotient : 2 ^ 52 ≤ num / den / 2 ^ placeOf num den := by
      rw [Nat.le_div_iff_mul_le hpow, ← pow_add, Nat.add_comm]
      exact two_pow_placeOf_le hplace
    omega

/-- Greater quotients are rounded to greater ordinals. -/
lemma roundScaled_mono (h : a ≤ b) (den : ℕ) : roundScaled a den ≤ roundScaled b den := by
  have hplace : placeOf a den ≤ placeOf b den :=
    Nat.sub_le_sub_right (log2_mono (Nat.div_le_div_right h)) 52
  by_cases hsame : placeOf a den = placeOf b den
  · rw [roundScaled, roundScaled, hsame]
    exact Nat.add_le_add_left (roundQuotient_mono h _) _
  · -- the next binade begins where this one ends
    calc roundScaled a den ≤ (placeOf a den + 2) * binade := (roundScaled_bounds _ _).1
      _ ≤ (placeOf b den + 1) * binade := Nat.mul_le_mul_right _ (by omega)
      _ ≤ roundScaled b den := (roundScaled_bounds _ _).2 (by omega)

lemma roundOrdinal_mono {num' den' : ℕ} (hden : 0 < den) (hden' : 0 < den')
    (h : num * den' ≤ num' * den) : roundOrdinal num den ≤ roundOrdinal num' den' := by
  obtain ⟨unit, hunit⟩ : ∃ unit, unit = 1074 := ⟨_, rfl⟩
  -- over the product of both divisors only the numerators are compared
  have hboth : 0 < den * den' := Nat.mul_pos hden hden'
  rw [← roundOrdinal_mul_left hden' num den, ← roundOrdinal_mul_left hden num' den',
    Nat.mul_comm den' den, roundOrdinal_eq_roundScaled hunit hboth,
    roundOrdinal_eq_roundScaled hunit hboth]
  refine roundScaled_mono (Nat.mul_le_mul_right _ ?_) _
  rwa [Nat.mul_comm den', Nat.mul_comm den]

/-! ## Near a magnitude -/

lemma placeOf_le {place : ℕ} (h : num < den * 2 ^ (place + 53)) : placeOf num den ≤ place := by
  have hquotient : num / den < 2 ^ (place + 53) := Nat.div_lt_of_lt_mul h
  by_cases hzero : num / den = 0
  · rw [placeOf, hzero, Nat.log2_zero]
    omega
  · have hlog := (Nat.log2_lt hzero).mpr hquotient
    rw [placeOf]
    omega

lemma le_placeOf {place : ℕ} (hden : 0 < den) (h : den * 2 ^ (place + 52) ≤ num) :
    place ≤ placeOf num den := by
  have hquotient : 2 ^ (place + 52) ≤ num / den := by
    rwa [Nat.le_div_iff_mul_le hden, Nat.mul_comm]
  have hzero : num / den ≠ 0 := (Nat.two_pow_pos _).trans_le hquotient |>.ne'
  have hlog := (Nat.le_log2 hzero).mpr hquotient
  rw [placeOf]
  omega

lemma roundScaled_of_near (place sig : ℕ) (hplace : placeOf num den = place)
    (hlow : 2 * (sig * (den * 2 ^ place)) < 2 * num + den * 2 ^ place)
    (hhigh : 2 * num < 2 * (sig * (den * 2 ^ place)) + den * 2 ^ place) :
    roundScaled num den = place * binade + sig := by
  rw [roundScaled, hplace, roundQuotient_of_near hlow hhigh]

lemma two_pow_le_significand (h : lastPlace k ≠ 0) : 2 ^ 52 ≤ significand k := by
  rw [lastPlace] at h
  rw [significand, if_neg (by omega), binade_eq]
  omega

/-- A quotient that differs from a magnitude by less than a `2^54`th part of it is rounded to it. Below a
power of two the last places are half as great, so that the significand is doubled there. -/
lemma roundScaled_of_near_magnitude {exact : ℕ} (hden : 0 < den)
    (hexact : exact = significand k * (den * 2 ^ lastPlace k))
    (hlow : 2 ^ 54 * exact < 2 ^ 54 * num + exact) (hhigh : 2 ^ 54 * num < 2 ^ 54 * exact + exact) :
    roundScaled num den = k := by
  obtain ⟨step, hstep⟩ : ∃ step, step = den * 2 ^ lastPlace k := ⟨_, rfl⟩
  have hpos : 0 < step := hstep ▸ Nat.mul_pos hden (Nat.two_pow_pos _)
  rw [← hstep] at hexact
  have hmost : exact + step ≤ 2 ^ 53 * step := by
    rw [hexact, ← Nat.succ_mul]
    exact Nat.mul_le_mul_right _ (significand_lt k)
  have hplace : placeOf num den ≤ lastPlace k := by
    refine placeOf_le ?_
    rw [pow_add, ← Nat.mul_assoc, ← hstep, Nat.mul_comm]
    omega
  have hk := significand_add k
  by_cases hsame : placeOf num den = lastPlace k
  · rw [roundScaled_of_near _ (significand k) hsame (by rw [← hstep, ← hexact]; omega)
      (by rw [← hstep, ← hexact]; omega), hk]
  · -- the magnitude is a power of two, and the quotient is below it
    have hsig := two_pow_le_significand (k := k) (by omega)
    obtain ⟨place, hlast⟩ : ∃ place, lastPlace k = place + 1 := ⟨lastPlace k - 1, by omega⟩
    obtain ⟨half, hhalf⟩ : ∃ half, half = den * 2 ^ place := ⟨_, rfl⟩
    have htwice : step = 2 * half := by rw [hstep, hlast, hhalf, pow_succ]; ring
    have hpower : significand k = 2 ^ 52 := by
      by_contra hne
      have hleast : (2 ^ 52 + 1) * step ≤ exact := hexact ▸ Nat.mul_le_mul_right _ (by omega)
      refine hsame (hplace.antisymm (le_placeOf hden ?_))
      rw [pow_add, ← Nat.mul_assoc, ← hstep, Nat.mul_comm]
      omega
    rw [hpower, htwice] at hexact
    have hbefore : place ≤ placeOf num den := by
      refine le_placeOf hden ?_
      rw [pow_add, ← Nat.mul_assoc, ← hhalf, Nat.mul_comm]
      omega
    rw [roundScaled_of_near place (2 ^ 53) (by omega) (by rw [← hhalf]; omega)
      (by rw [← hhalf]; omega), ← hk, hlast, hpower, binade_eq]
    omega

end LocaleBundle.Binary64
