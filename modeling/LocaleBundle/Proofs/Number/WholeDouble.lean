import LocaleBundle.Proofs.Number.Rounding

/-!
# Whole numbers and their nearest doubles

A magnitude that is a whole number is the nearest one to that number. Below `2^53` each whole number is a
magnitude of its own; from there on the nearest magnitude is at least that of `2^53`, and a number of so
many binary digits is not rounded into another binade than the next.
-/

namespace LocaleBundle.Binary64

variable {k m n : ℕ}

/-- Whether a magnitude is exactly the whole number `n`. -/
def IsExactly (k n : ℕ) : Prop := (ratio k).1 = n * (ratio k).2

lemma ratio_snd_pos (k : ℕ) : 0 < (ratio k).2 := by
  rw [ratio]
  split
  · exact Nat.one_pos
  · exact Nat.two_pow_pos _

/-- A whole magnitude is its own integer part. -/
lemma isWhole_and_floor_iff : isWhole k = true ∧ floor k = n ↔ IsExactly k n := by
  rw [IsExactly, isWhole, floor, decide_eq_true_eq]
  constructor
  · rintro ⟨hmod, rfl⟩
    exact (Nat.div_mul_cancel (Nat.dvd_of_mod_eq_zero hmod)).symm
  · intro h
    rw [h]
    exact ⟨Nat.mul_mod_left _ _, Nat.mul_div_cancel _ (ratio_snd_pos k)⟩

private lemma scaled_pow_sub (s : ℕ) {a b : ℕ} (h : a ≤ b) : s * 2 ^ (b - a) * 2 ^ a = s * 2 ^ b := by
  rw [Nat.mul_assoc, ← pow_add, Nat.sub_add_cancel h]

/-! The power `2^1074` is too great to be written out, so its exponent has a name. -/

section Scaled

variable {unit : ℕ} (hunit : unit = 1074)

include hunit

/-- In the places of the significand a whole number is moved up by 1074 places. -/
lemma isExactly_iff : IsExactly k n ↔ significand k * 2 ^ lastPlace k = n * 2 ^ unit := by
  rw [IsExactly, ratio, ← hunit]
  split
  · rename_i hplace
    rw [← scaled_pow_sub _ hplace]
    change _ = n * 1 ↔ _
    rw [Nat.mul_one]
    exact (Nat.mul_left_inj (Nat.two_pow_pos unit).ne').symm
  · rename_i hplace
    change _ = n * 2 ^ (unit - lastPlace k) ↔ _
    rw [← scaled_pow_sub n (by omega : lastPlace k ≤ unit)]
    exact (Nat.mul_left_inj (Nat.two_pow_pos _).ne').symm

/-- The last place of the double nearest to a whole number. -/
lemma placeOf_whole (hn : n ≠ 0) : placeOf (n * 2 ^ unit) 1 = Nat.log2 n + 1022 := by
  have hpow : 0 < 2 ^ unit := Nat.two_pow_pos unit
  have hlog : Nat.log2 (n * 2 ^ unit) = Nat.log2 n + unit := by
    rw [Nat.log2_eq_iff (Nat.mul_ne_zero hn hpow.ne')]
    constructor
    · rw [pow_add]
      exact Nat.mul_le_mul_right _ (Nat.log2_self_le hn)
    · rw [Nat.add_right_comm, pow_add]
      exact Nat.mul_lt_mul_of_pos_right Nat.lt_log2_self hpow
  rw [placeOf, Nat.div_one, hlog]
  omega

lemma roundOrdinal_whole (hn : n ≠ 0) :
    roundOrdinal n 1 = (Nat.log2 n + 1022) * binade +
      roundQuotient (n * 2 ^ unit) (2 ^ (Nat.log2 n + 1022)) := by
  rw [roundOrdinal_eq_roundScaled hunit Nat.one_pos, roundScaled, placeOf_whole hunit hn, Nat.one_mul]

lemma mul_pow_scaled (hlog : Nat.log2 n ≤ 52) :
    n * 2 ^ (52 - Nat.log2 n) * 2 ^ (Nat.log2 n + 1022) = n * 2 ^ unit := by
  have hsum : 52 - Nat.log2 n + (Nat.log2 n + 1022) = unit := by omega
  rw [Nat.mul_assoc, ← pow_add, hsum]

/-- It is exact if the number has at most 53 bits. -/
lemma roundQuotient_scaled_exact (hlog : Nat.log2 n ≤ 52) :
    roundQuotient (n * 2 ^ unit) (2 ^ (Nat.log2 n + 1022)) = n * 2 ^ (52 - Nat.log2 n) := by
  rw [← mul_pow_scaled hunit hlog]
  exact roundQuotient_mul_self (Nat.two_pow_pos _) _

end Scaled

lemma IsExactly.eq_zero_iff (h : IsExactly k n) : k = 0 ↔ n = 0 := by
  constructor
  · rintro rfl
    have hzero : n * (ratio 0).2 = 0 := h.symm.trans (by rfl)
    exact (Nat.mul_eq_zero.mp hzero).resolve_right (ratio_snd_pos 0).ne'
  · rintro rfl
    by_contra hk
    have hscaled := (isExactly_iff rfl).mp h
    rw [Nat.zero_mul] at hscaled
    exact Nat.mul_ne_zero (significand_ne_zero hk) (Nat.two_pow_pos _).ne' hscaled

/-- A whole number that is a magnitude is rounded to it. -/
lemma IsExactly.roundOrdinal_eq (h : IsExactly k n) : roundOrdinal n 1 = k := by
  by_cases hk : k = 0
  · rw [h.eq_zero_iff.mp hk, hk, roundOrdinal_zero]
  · obtain ⟨unit, hunit⟩ : ∃ unit, unit = 1074 := ⟨_, rfl⟩
    refine roundOrdinal_of_exact hk Nat.one_pos ?_
    rw [← hunit, Nat.mul_one]
    exact ((isExactly_iff hunit).mp h).symm

/-- Whole numbers that are the same magnitude are equal. -/
lemma IsExactly.unique (hm : IsExactly k m) (hn : IsExactly k n) : m = n :=
  Nat.eq_of_mul_eq_mul_right (ratio_snd_pos k) (hm.symm.trans hn)

/-! ## Rounding whole numbers -/

/-- Rounding does not leave the binade of a whole number, but for its upper end. -/
lemma roundOrdinal_bounds (hn : n ≠ 0) :
    (Nat.log2 n + 1023) * binade ≤ roundOrdinal n 1 ∧
      roundOrdinal n 1 ≤ (Nat.log2 n + 1024) * binade := by
  obtain ⟨unit, hunit⟩ : ∃ unit, unit = 1074 := ⟨_, rfl⟩
  obtain ⟨hhigh, hlow⟩ := roundScaled_bounds (n * 2 ^ unit) 1
  rw [placeOf_whole hunit hn] at hlow hhigh
  rw [roundOrdinal_eq_roundScaled hunit Nat.one_pos]
  exact ⟨hlow (by omega), hhigh⟩

lemma roundOrdinal_eq_zero_iff : roundOrdinal n 1 = 0 ↔ n = 0 := by
  constructor
  · intro h
    by_contra hn
    have hpos : 0 < (Nat.log2 n + 1023) * binade := Nat.mul_pos (by omega) (Nat.two_pow_pos 52)
    have hlow := (roundOrdinal_bounds hn).1
    omega
  · rintro rfl
    exact roundOrdinal_zero 1

/-- A significand of 53 bits and a last place are those of their magnitude. -/
lemma significand_and_lastPlace (place : ℕ) {sig : ℕ} (hlow : binade ≤ sig)
    (hhigh : sig < 2 * binade) :
    significand (place * binade + sig) = sig ∧ lastPlace (place * binade + sig) = place := by
  obtain ⟨rest, rfl⟩ := Nat.exists_eq_add_of_le hlow
  have hrest : rest < binade := by omega
  have hsplit : place * binade + (binade + rest) = binade * (place + 1) + rest := by ring
  have hdiv : (place * binade + (binade + rest)) / binade = place + 1 := by
    rw [hsplit, Nat.mul_add_div (by omega), Nat.div_eq_of_lt hrest, Nat.add_zero]
  have hmod : (place * binade + (binade + rest)) % binade = rest := by
    rw [hsplit, Nat.mul_add_mod, Nat.mod_eq_of_lt hrest]
  rw [significand, lastPlace, hdiv, hmod, if_neg (by omega)]
  exact ⟨rfl, rfl⟩

lemma isExactly_zero : IsExactly 0 0 := (Nat.zero_mul _).symm

/-- Below `2^53` every whole number is a magnitude, and it comes before that of `2^53`. -/
lemma isExactly_roundOrdinal (hlt : n < 2 ^ 53) :
    IsExactly (roundOrdinal n 1) n ∧ roundOrdinal n 1 < 1076 * binade := by
  by_cases hn : n = 0
  · subst hn
    exact ⟨isExactly_zero, Nat.mul_pos (by omega) (Nat.two_pow_pos 52)⟩
  · have hlog : Nat.log2 n ≤ 52 := Nat.lt_succ_iff.mp ((Nat.log2_lt hn).mpr hlt)
    obtain ⟨sig, hsig⟩ : ∃ sig, sig = n * 2 ^ (52 - Nat.log2 n) := ⟨_, rfl⟩
    have hlow : binade ≤ sig := by
      rw [hsig, binade_eq]
      calc 2 ^ 52 = 2 ^ Nat.log2 n * 2 ^ (52 - Nat.log2 n) := by
            rw [← pow_add, Nat.add_sub_cancel' hlog]
        _ ≤ n * 2 ^ (52 - Nat.log2 n) := Nat.mul_le_mul_right _ (Nat.log2_self_le hn)
    have hhigh : sig < 2 * binade := by
      rw [hsig, binade_eq]
      calc n * 2 ^ (52 - Nat.log2 n)
          < 2 ^ (Nat.log2 n + 1) * 2 ^ (52 - Nat.log2 n) :=
            Nat.mul_lt_mul_of_pos_right Nat.lt_log2_self (Nat.two_pow_pos _)
        _ = 2 * 2 ^ 52 := by
            rw [← pow_add, ← pow_succ']
            congr 1
            omega
    have hplace : (Nat.log2 n + 1022) * binade ≤ 1074 * binade := Nat.mul_le_mul_right _ (by omega)
    have hmost : (Nat.log2 n + 1022) * binade + sig < 1076 * binade := by omega
    obtain ⟨hsignificand, hlastPlace⟩ :=
      significand_and_lastPlace (Nat.log2 n + 1022) hlow hhigh
    obtain ⟨unit, hunit⟩ : ∃ unit, unit = 1074 := ⟨_, rfl⟩
    rw [isExactly_iff hunit, roundOrdinal_whole hunit hn, roundQuotient_scaled_exact hunit hlog,
      ← hsig, hsignificand, hlastPlace, hsig]
    exact ⟨mul_pow_scaled hunit hlog, hsig ▸ hmost⟩

/-- A whole number below `2^53` is the only one that is rounded to its magnitude. -/
lemma eq_of_roundOrdinal_eq (hlt : n < 2 ^ 53) (h : roundOrdinal m 1 = roundOrdinal n 1) :
    m = n := by
  obtain ⟨hn, hbefore⟩ := isExactly_roundOrdinal hlt
  by_cases hm : m < 2 ^ 53
  · have hm := (isExactly_roundOrdinal hm).1
    rw [h] at hm
    exact hm.unique hn
  · have hne : m ≠ 0 := by omega
    have hlog : 53 ≤ Nat.log2 m := (Nat.le_log2 hne).mpr (by omega)
    have hafter : 1076 * binade ≤ (Nat.log2 m + 1023) * binade :=
      Nat.mul_le_mul_right _ (by omega)
    have hlow := (roundOrdinal_bounds hne).1
    omega

/-- A whole number with few digits is nearest to a finite magnitude. -/
lemma roundOrdinal_lt_overflowOrdinal (h : n < 10 ^ 21) : roundOrdinal n 1 < overflowOrdinal := by
  by_cases hn : n = 0
  · subst hn
    exact Nat.mul_pos (by omega) (Nat.two_pow_pos 52)
  · have hlog : Nat.log2 n < 70 := (Nat.log2_lt hn).mpr (h.trans (by norm_num))
    have hhigh := (roundOrdinal_bounds hn).2
    have hmost : (Nat.log2 n + 1024) * binade < 2047 * binade :=
      Nat.mul_lt_mul_of_pos_right (by omega) (Nat.two_pow_pos 52)
    exact hhigh.trans_lt hmost

end LocaleBundle.Binary64
