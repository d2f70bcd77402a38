import LocaleBundle.Proofs.Number.Fraction
import LocaleBundle.Proofs.Number.WholeDecimal
import LocaleBundle.Proofs.Number.WholeDouble
import Mathlib.Algebra.Order.Field.Power
import Mathlib.Data.Nat.Cast.Order.Field
import Mathlib.Data.Rat.Cast.Order

/-!
# The shortest decimal as a number

The digits of a double are searched on coarser and coarser grids first, from the place of the leading
digit on. A decimal that is found is a step of its grid away from the double at most. So a whole number
below `2^53` is found itself, since no other whole number reads as its double, and the decimal of a double
with a fraction is no whole number.
-/

namespace LocaleBundle.Binary64

variable {k n num den : ℕ} {e place : ℤ} {s : Scientific}

/-- The number that a decimal is. -/
def Scientific.value (s : Scientific) : ℚ := s.digits * 10 ^ s.exponent

/-- The number that a magnitude is. -/
def value (k : ℕ) : ℚ := (ratio k).1 / (ratio k).2

lemma ten_zpow_pos (e : ℤ) : (0 : ℚ) < 10 ^ e := zpow_pos (by norm_num) e

lemma ten_zpow_toNat (he : 0 ≤ e) : (10 : ℚ) ^ e = ((10 ^ e.toNat : ℕ) : ℚ) := by
  conv_lhs => rw [← Int.toNat_of_nonneg he]
  rw [zpow_natCast]
  push_cast
  rfl

/-! ## Decimals -/

namespace Scientific

/-- The zeros that are dropped go to the exponent. -/
lemma exists_zeros_stripZeros (fuel : ℕ) (s : Scientific) :
    ∃ zeros : ℕ, s.digits = (s.stripZeros fuel).digits * 10 ^ zeros ∧
      (s.stripZeros fuel).exponent = s.exponent + zeros := by
  induction fuel generalizing s with
  | zero => exact ⟨0, (Nat.mul_one _).symm, (add_zero _).symm⟩
  | succ fuel ih =>
    rw [stripZeros]
    by_cases hzero : (s.digits % 10 = 0 && s.digits ≠ 0) = true
    · have hmod : s.digits % 10 = 0 := by
        rw [Bool.and_eq_true, decide_eq_true_eq] at hzero
        exact hzero.1
      have hten : s.digits / 10 * 10 = s.digits := by omega
      obtain ⟨zeros, hdigits, hexp⟩ := ih ⟨s.digits / 10, s.exponent + 1⟩
      refine ⟨zeros + 1, ?_, ?_⟩
      · rw [if_pos hzero, pow_succ, ← Nat.mul_assoc, ← hdigits, hten]
      · rw [if_pos hzero, hexp, Nat.cast_add_one]
        ring
    · rw [if_neg hzero]
      exact ⟨0, (Nat.mul_one _).symm, (add_zero _).symm⟩

/-- Dropping zeros keeps the number. -/
lemma value_stripZeros (fuel : ℕ) (s : Scientific) : (s.stripZeros fuel).value = s.value := by
  obtain ⟨zeros, hdigits, hexp⟩ := exists_zeros_stripZeros fuel s
  rw [value, value, hexp, hdigits, zpow_add₀ (by norm_num), zpow_natCast]
  push_cast
  ring

/-- The last digit that is left is no zero. -/
lemma digits_stripZeros (fuel : ℕ) (s : Scientific) (hsome : s.digits ≠ 0)
    (hfuel : s.digits < 10 ^ fuel) : (s.stripZeros fuel).digits % 10 ≠ 0 := by
  induction fuel generalizing s with
  | zero => exact absurd hfuel (by omega)
  | succ fuel ih =>
    rw [stripZeros]
    by_cases hzero : s.digits % 10 = 0
    · rw [if_pos (by simp [hzero, hsome])]
      rw [pow_succ] at hfuel
      exact ih ⟨s.digits / 10, s.exponent + 1⟩ (by simp only; omega) (by simp only; omega)
    · rw [if_neg (by simp [hzero])]
      exact hzero

/-- A decimal that is a natural number. -/
lemma isNat_iff : Decimal.IsNat s.digits s.exponent n ↔ s.value = n := by
  rw [value]
  by_cases he : 0 ≤ s.exponent
  · rw [Decimal.isNat_of_nonneg he, ten_zpow_toNat he]
    exact_mod_cast Iff.rfl
  · have hneg : (10 : ℚ) ^ s.exponent = ((10 ^ s.exponent.natAbs : ℕ) : ℚ)⁻¹ := by
      rw [← inv_inj, inv_inv, ← zpow_neg, ten_zpow_toNat (by omega)]
      congr 3
      omega
    have hpos : ((10 ^ s.exponent.natAbs : ℕ) : ℚ) ≠ 0 := by positivity
    rw [Decimal.isNat_of_neg (by omega), hneg, ← div_eq_mul_inv, div_eq_iff hpos]
    exact_mod_cast Iff.rfl

/-- A natural number that a decimal without zeros at its end is has no places behind the point. -/
lemma exponent_nonneg (h : s.value = n) (hlast : s.digits % 10 ≠ 0) : 0 ≤ s.exponent := by
  by_contra hneg
  have hdigits := (Decimal.isNat_of_neg (by omega)).mp (isNat_iff.mpr h)
  obtain ⟨places, hplaces⟩ : ∃ places, s.exponent.natAbs = places + 1 :=
    ⟨s.exponent.natAbs - 1, by omega⟩
  rw [hplaces, pow_succ, ← Nat.mul_assoc] at hdigits
  omega

end Scientific

/-! ## Grids -/

/-- A quotient is divided by the step of a grid. -/
lemma scaleDown_div (num : ℕ) (hden : den ≠ 0) (e : ℤ) :
    ((scaleDown num den e).1 : ℚ) / (scaleDown num den e).2 = num / den / 10 ^ e ∧
      (scaleDown num den e).2 ≠ 0 := by
  rw [scaleDown]
  split
  · rename_i he
    have hpow : (10 : ℚ) ^ e = ((10 ^ e.toNat : ℕ) : ℚ) := ten_zpow_toNat he
    refine ⟨?_, Nat.mul_ne_zero hden (Nat.pow_pos (by norm_num)).ne'⟩
    rw [hpow, Nat.pow_eq]
    push_cast
    rw [div_div]
  · rename_i he
    have hpow : ((10 ^ (-e).toNat : ℕ) : ℚ) = ((10 : ℚ) ^ e)⁻¹ := by
      rw [← ten_zpow_toNat (by omega), zpow_neg]
    refine ⟨?_, hden⟩
    rw [Nat.pow_eq, Nat.cast_mul, hpow]
    ring

lemma length_toDigits_bounds (hn : n ≠ 0) :
    (10 : ℚ) ^ (((Nat.toDigits 10 n).length : ℤ) - 1) ≤ n ∧
      (n : ℚ) < 10 ^ ((Nat.toDigits 10 n).length : ℤ) := by
  have hpos : 0 < (Nat.toDigits 10 n).length := Nat.length_toDigits_pos
  have hhigh : n < 10 ^ (Nat.toDigits 10 n).length :=
    (Nat.length_toDigits_le_iff (by norm_num) hpos).mp le_rfl
  have hlow : 10 ^ ((Nat.toDigits 10 n).length - 1) ≤ n := by
    by_contra hless
    by_cases hone : (Nat.toDigits 10 n).length = 1
    · rw [hone, Nat.sub_self, pow_zero] at hless
      omega
    · have hshort := (Nat.length_toDigits_le_iff (by norm_num)
        (by omega : 0 < (Nat.toDigits 10 n).length - 1)).mpr (Nat.not_le.mp hless)
      omega
  constructor
  · rw [ten_zpow_toNat (by omega)]
    have hexp : (((Nat.toDigits 10 n).length : ℤ) - 1).toNat = (Nat.toDigits 10 n).length - 1 := by
      omega
    rw [hexp]
    exact_mod_cast hlow
  · exact_mod_cast hhigh

/-- The exponent of the leading digit. -/
lemma decimalExponent_bounds (hnum : num ≠ 0) (hden : den ≠ 0) :
    (10 : ℚ) ^ decimalExponent num den ≤ num / den ∧
      (num : ℚ) / den < 10 ^ (decimalExponent num den + 1) := by
  have hdenpos : (0 : ℚ) < den := by exact_mod_cast Nat.pos_of_ne_zero hden
  obtain ⟨hnumlow, hnumhigh⟩ := length_toDigits_bounds hnum
  obtain ⟨hdenlow, hdenhigh⟩ := length_toDigits_bounds hden
  obtain ⟨guess, hguess⟩ : ∃ guess, guess = Int.ofNat (Nat.toDigits 10 num).length -
    Int.ofNat (Nat.toDigits 10 den).length := ⟨_, rfl⟩
  obtain ⟨hdiv, hstep⟩ := scaleDown_div num hden guess
  have hsteppos : (0 : ℚ) < (scaleDown num den guess).2 := by exact_mod_cast Nat.pos_of_ne_zero hstep
  -- one comparison tells whether the leading digit is where the numbers of digits have it
  have hless : (scaleDown num den guess).1 < (scaleDown num den guess).2 ↔
      (num : ℚ) / den < 10 ^ guess := by
    rw [← div_lt_one₀ (ten_zpow_pos guess), ← hdiv, div_lt_one₀ hsteppos, Nat.cast_lt]
  have hlow : (10 : ℚ) ^ (guess - 1) ≤ num / den := by
    rw [le_div_iff₀ hdenpos]
    calc (10 : ℚ) ^ (guess - 1) * den
        ≤ 10 ^ (guess - 1) * 10 ^ ((Nat.toDigits 10 den).length : ℤ) :=
          mul_le_mul_of_nonneg_left hdenhigh.le (ten_zpow_pos _).le
      _ = 10 ^ (((Nat.toDigits 10 num).length : ℤ) - 1) := by
          rw [← zpow_add₀ (by norm_num), hguess, Int.ofNat_eq_natCast, Int.ofNat_eq_natCast]
          congr 1
          ring
      _ ≤ num := hnumlow
  have hhigh : (num : ℚ) / den < 10 ^ (guess + 1) := by
    rw [div_lt_iff₀ hdenpos]
    calc (num : ℚ) < 10 ^ ((Nat.toDigits 10 num).length : ℤ) := hnumhigh
      _ = 10 ^ (guess + 1) * 10 ^ (((Nat.toDigits 10 den).length : ℤ) - 1) := by
          rw [← zpow_add₀ (by norm_num), hguess, Int.ofNat_eq_natCast, Int.ofNat_eq_natCast]
          congr 1
          ring
      _ ≤ 10 ^ (guess + 1) * den := mul_le_mul_of_nonneg_left hdenlow (ten_zpow_pos _).le
  simp only [decimalExponent, ← hguess]
  split
  · rename_i hbelow
    exact ⟨hlow, by simpa using hless.mp hbelow⟩
  · rename_i habove
    exact ⟨not_lt.mp (hless.not.mp habove), hhigh⟩

/-- A neighbour on a grid is at most a step above. -/
lemma value_of_nearestOnGrid? (hden : den ≠ 0) (h : nearestOnGrid? k num den place = some s) :
    s.value ≤ num / den + 10 ^ place := by
  obtain ⟨rfl, hdigits⟩ := exponent_and_digits_of_nearestOnGrid? h
  obtain ⟨hdiv, -⟩ := scaleDown_div num hden s.exponent
  have hsteps : (s.digits : ℚ) ≤ num / den / 10 ^ s.exponent + 1 := by
    rw [← hdiv]
    calc (s.digits : ℚ)
        ≤ (((scaleDown num den s.exponent).1 / (scaleDown num den s.exponent).2 : ℕ) : ℚ) + 1 := by
          exact_mod_cast hdigits
      _ ≤ _ := by
          have hfloor := Nat.cast_div_le (α := ℚ) (m := (scaleDown num den s.exponent).1)
            (n := (scaleDown num den s.exponent).2)
          linarith
  have hpos := ten_zpow_pos s.exponent
  calc s.value ≤ (num / den / 10 ^ s.exponent + 1) * 10 ^ s.exponent :=
        mul_le_mul_of_nonneg_right hsteps hpos.le
    _ = num / den + 10 ^ s.exponent := by
        rw [add_mul, one_mul, div_mul_cancel₀ _ hpos.ne']

/-! ## What is found -/

/-- The decimal that is found with `extra` digits after the first. -/
def grid? (k extra : ℕ) : Option Scientific :=
  nearestOnGrid? k (ratio k).1 (ratio k).2
    (decimalExponent (ratio k).1 (ratio k).2 - Int.ofNat extra)

lemma eq_range_of_append {before after : List ℕ} (h : List.range n = before ++ k :: after) :
    before = List.range k ∧ k < n := by
  have hlen : before.length < n := by
    have hlength := congrArg List.length h
    simp only [List.length_range, List.length_append, List.length_cons] at hlength
    omega
  have hlast : before.length = k := by
    have hget : (List.range n)[before.length]? = some k := by
      rw [h, List.getElem?_append_right le_rfl, Nat.sub_self, List.getElem?_cons_zero]
    simpa [hlen] using hget
  have htake := congrArg (List.take before.length) h
  rw [List.take_range, List.take_left, Nat.min_eq_left hlen.le, hlast] at htake
  exact ⟨htake.symm, hlast ▸ hlen⟩

/-- The shortest decimal is the first one that is found, or the exact one, without the zeros at its
end. -/
lemma exists_stripZeros (k : ℕ) :
    ∃ s : Scientific, shortest k = s.stripZeros (Nat.toDigits 10 s.digits).length ∧
      ((∃ extra < 17, grid? k extra = some s ∧ ∀ earlier < extra, grid? k earlier = none) ∨
        (∀ extra < 17, grid? k extra = none) ∧ s = exactDecimal k) := by
  have hshortest : shortest k = (((List.range 17).findSome? (grid? k)).getD
      (exactDecimal k)).stripZeros (Nat.toDigits 10 (((List.range 17).findSome? (grid? k)).getD
        (exactDecimal k)).digits).length := rfl
  refine ⟨_, hshortest, ?_⟩
  cases hfound : (List.range 17).findSome? (grid? k) with
  | none =>
    exact .inr ⟨fun extra hextra =>
      List.findSome?_eq_none_iff.mp hfound extra (List.mem_range.mpr hextra), rfl⟩
  | some s =>
    obtain ⟨before, extra, after, hrange, hextra, hbefore⟩ := List.findSome?_eq_some_iff.mp hfound
    obtain ⟨hrest, hlt⟩ := eq_range_of_append hrange
    refine .inl ⟨extra, hlt, hextra, fun earlier hearlier => hbefore earlier ?_⟩
    rw [hrest]
    exact List.mem_range.mpr hearlier

lemma ratio_fst_ne_zero (hk : k ≠ 0) : (ratio k).1 ≠ 0 := by
  have hsig := significand_ne_zero hk
  rw [ratio]
  split
  · exact Nat.mul_ne_zero hsig (Nat.two_pow_pos _).ne'
  · exact hsig

lemma value_exactDecimal (k : ℕ) : (exactDecimal k).value = value k := by
  rw [exactDecimal, value, ratio]
  split
  · rw [Scientific.value, zpow_zero, mul_one, Nat.cast_one, div_one]
  · generalize 1074 - lastPlace k = places
    rw [Scientific.value, Int.ofNat_eq_natCast, zpow_neg, zpow_natCast, Nat.pow_eq, Nat.pow_eq]
    push_cast
    rw [← div_eq_mul_inv, div_eq_div_iff (by positivity) (by positivity), mul_assoc, ← mul_pow]
    norm_num

/-- The shortest decimal is not far above the double. -/
lemma value_shortest_le (hk : k ≠ 0) : (shortest k).value ≤ 2 * value k := by
  have hden := (ratio_snd_pos k).ne'
  have hpos : 0 ≤ value k := by rw [value]; positivity
  obtain ⟨s, hs, ⟨extra, -, hgrid, -⟩ | ⟨-, rfl⟩⟩ := exists_stripZeros k
  · have hstep := value_of_nearestOnGrid? hden hgrid
    have hleading := (decimalExponent_bounds (ratio_fst_ne_zero hk) hden).1
    have hplace : (10 : ℚ) ^ (decimalExponent (ratio k).1 (ratio k).2 - Int.ofNat extra) ≤
        10 ^ decimalExponent (ratio k).1 (ratio k).2 :=
      zpow_le_zpow_right₀ (by norm_num) (by rw [Int.ofNat_eq_natCast]; omega)
    rw [hs, Scientific.value_stripZeros]
    rw [value]
    linarith
  · rw [hs, Scientific.value_stripZeros, value_exactDecimal]
    linarith

/-- The digits end with no zero. -/
lemma digits_shortest_mod_ten (hk : k ≠ 0) (hlt : k < overflowOrdinal) :
    (shortest k).digits % 10 ≠ 0 := by
  obtain ⟨s, hs, -⟩ := exists_stripZeros k
  have hdigits : s.digits ≠ 0 := by
    intro hzero
    have hvalue := Scientific.value_stripZeros (Nat.toDigits 10 s.digits).length s
    rw [← hs, Scientific.value, Scientific.value, hzero, Nat.cast_zero, zero_mul] at hvalue
    have hnone : ((shortest k).digits : ℚ) = 0 :=
      (mul_eq_zero.mp hvalue).resolve_right (ten_zpow_pos _).ne'
    exact digits_shortest_ne_zero hk hlt (by exact_mod_cast hnone)
  rw [hs]
  exact Scientific.digits_stripZeros _ _ hdigits
    ((Nat.length_toDigits_le_iff (by norm_num) Nat.length_toDigits_pos).mp le_rfl)

/-! ## Whole numbers -/

/-- A decimal without places behind the point that reads as a magnitude is rounded to it. -/
lemma roundOrdinal_of_reads {digits zeros : ℕ} (hk : k ≠ 0) (hlt : k < overflowOrdinal)
    (h : ordinalOfScientific digits zeros = k) : roundOrdinal (digits * 10 ^ zeros) 1 = k := by
  simp only [ordinalOfScientific] at h
  split at h
  · exact absurd h.symm hk
  · split at h
    · exact absurd h hlt.ne'
    · split at h
      · exact absurd h.symm hk
      · rw [if_pos (Int.natCast_nonneg zeros), Int.toNat_natCast, Nat.pow_eq] at h
        exact h

/-- A whole number with few digits is read by rounding it. -/
lemma ordinalOfScientific_whole (hlt : n < 10 ^ 16) : ordinalOfScientific n 0 = roundOrdinal n 1 := by
  have hlen : (Nat.toDigits 10 n).length ≤ 16 :=
    (Nat.length_toDigits_le_iff (by norm_num) (by norm_num)).mpr hlt
  by_cases hn : n = 0
  · rw [hn, ordinalOfScientific_zero, roundOrdinal_zero]
  · simp only [ordinalOfScientific, Int.ofNat_eq_natCast, if_neg hn]
    rw [if_neg (by omega), if_neg (by omega), if_pos le_rfl, Int.toNat_zero, Nat.pow_eq, pow_zero,
      Nat.mul_one]

lemma ne_zero_of_not_isWhole (hwhole : isWhole k = false) : k ≠ 0 := by
  rintro rfl
  exact absurd ((isWhole_and_floor_iff.mpr isExactly_zero).1.symm.trans hwhole) (by simp)

/-- The shortest decimal of a magnitude with a fraction is not great. -/
lemma value_shortest_lt (hwhole : isWhole k = false) : (shortest k).value < 2 ^ 53 := by
  obtain ⟨hplace, hratio⟩ := ratio_of_not_isWhole hwhole
  have hsig : (significand k : ℚ) < 2 ^ 53 := by exact_mod_cast significand_lt k
  have hden : (2 : ℚ) ≤ 2 ^ (1074 - lastPlace k) := by
    calc (2 : ℚ) = 2 ^ 1 := (pow_one 2).symm
      _ ≤ 2 ^ (1074 - lastPlace k) := pow_le_pow_right₀ (by norm_num) (by omega)
  have hhalf : 2 * value k < 2 ^ 53 := by
    rw [value, hratio]
    push_cast
    rw [mul_div_assoc', div_lt_iff₀ (by linarith)]
    have hgrow : (2 : ℚ) ^ 53 * 2 ≤ 2 ^ 53 * 2 ^ (1074 - lastPlace k) :=
      mul_le_mul_of_nonneg_left hden (by positivity)
    linarith
  exact (value_shortest_le (ne_zero_of_not_isWhole hwhole)).trans_lt hhalf

/-- It has places behind the point. -/
lemma exponent_shortest_neg (hwhole : isWhole k = false) (hlt : k < overflowOrdinal) :
    (shortest k).exponent < 0 := by
  by_contra hexp
  obtain ⟨zeros, hzeros⟩ := Int.eq_ofNat_of_zero_le (not_lt.mp hexp)
  have hk := ne_zero_of_not_isWhole hwhole
  have hreads := ordinalOfScientific_shortest hk hlt
  rw [hzeros] at hreads
  have hround := roundOrdinal_of_reads hk hlt hreads
  have hsmall := value_shortest_lt hwhole
  rw [Scientific.value, hzeros, zpow_natCast] at hsmall
  -- a whole number so small would be the magnitude itself
  have hexact := (isExactly_roundOrdinal (n := (shortest k).digits * 10 ^ zeros)
    (by exact_mod_cast hsmall)).1
  rw [hround] at hexact
  exact absurd ((isWhole_and_floor_iff.mpr hexact).1.symm.trans hwhole) (by simp)

/-- On the grid of one a whole number is found. -/
lemma isSome_nearestOnGrid?_zero (hn : n < 10 ^ 16) (hden : 0 < den) :
    (nearestOnGrid? (roundOrdinal n 1) (n * den) den 0).isSome := by
  have hlow : readsAs (roundOrdinal n 1) ⟨n, 0⟩ = true := by
    rw [readsAs, decide_eq_true_eq]
    exact ordinalOfScientific_whole hn
  have hquotient : n * den / den = n := Nat.mul_div_cancel _ hden
  simp only [nearestOnGrid?, scaleDown, le_refl, if_true, Int.toNat_zero, Nat.pow_eq, pow_zero,
    Nat.mul_one, hquotient, hlow]
  split
  · split
    · rfl
    · split
      · rfl
      · split <;> rfl
  · rfl
  · rfl
  · rename_i hno _
    exact absurd hno (by simp)

/-- The shortest decimal of a small whole number is that number. -/
lemma value_shortest_whole (hn : n ≠ 0) (hlt : n < 2 ^ 53) :
    (shortest (roundOrdinal n 1)).value = n := by
  have hsmall : n < 10 ^ 16 := hlt.trans (by norm_num)
  have hexact := (isExactly_roundOrdinal hlt).1
  have hfinite := roundOrdinal_lt_overflowOrdinal (hsmall.trans (by norm_num))
  have hzero : roundOrdinal n 1 ≠ 0 := mt hexact.eq_zero_iff.mp hn
  have hden := ratio_snd_pos (roundOrdinal n 1)
  have hquotient : ((ratio (roundOrdinal n 1)).1 : ℚ) / (ratio (roundOrdinal n 1)).2 = n := by
    rw [div_eq_iff (by exact_mod_cast hden.ne')]
    exact_mod_cast hexact
  -- the leading digit is one of the 16 places before the point
  obtain ⟨top, htop⟩ : ∃ top, top = decimalExponent (ratio (roundOrdinal n 1)).1
    (ratio (roundOrdinal n 1)).2 := ⟨_, rfl⟩
  obtain ⟨hlow, hhigh⟩ := decimalExponent_bounds (ratio_fst_ne_zero hzero) hden.ne'
  rw [hquotient, ← htop] at hlow hhigh
  have hlast : top < 16 := by
    rw [← zpow_lt_zpow_iff_right₀ (by norm_num : (1 : ℚ) < 10)]
    exact hlow.trans_lt (by exact_mod_cast hsmall)
  have hfirst : 0 < top + 1 := by
    rw [← zpow_lt_zpow_iff_right₀ (by norm_num : (1 : ℚ) < 10), zpow_zero]
    exact lt_of_le_of_lt (by exact_mod_cast Nat.one_le_iff_ne_zero.mpr hn) hhigh
  have hone : (grid? (roundOrdinal n 1) top.toNat).isSome := by
    have hplace : top - Int.ofNat top.toNat = 0 := by rw [Int.ofNat_eq_natCast]; omega
    rw [grid?, ← htop, hplace, hexact]
    exact isSome_nearestOnGrid?_zero hsmall hden
  obtain ⟨s, hs, ⟨extra, -, hgrid, hearlier⟩ | ⟨hnone, -⟩⟩ := exists_stripZeros (roundOrdinal n 1)
  · have hextra : extra ≤ top.toNat := by
      by_contra hlater
      rw [hearlier top.toNat (by omega)] at hone
      exact absurd hone (by simp)
    obtain ⟨hexp, -⟩ := exponent_and_digits_of_nearestOnGrid? hgrid
    rw [← htop, Int.ofNat_eq_natCast] at hexp
    obtain ⟨zeros, hzeros⟩ := Int.eq_ofNat_of_zero_le (by omega : 0 ≤ s.exponent)
    have hreads := readsAs_of_nearestOnGrid? hgrid
    rw [readsAs, decide_eq_true_eq, hzeros] at hreads
    have hsame := eq_of_roundOrdinal_eq hlt (roundOrdinal_of_reads hzero hfinite hreads)
    rw [hs, Scientific.value_stripZeros, Scientific.value, hzeros, zpow_natCast]
    exact_mod_cast hsame
  · rw [hnone top.toNat (by omega)] at hone
    exact absurd hone (by simp)

end LocaleBundle.Binary64
