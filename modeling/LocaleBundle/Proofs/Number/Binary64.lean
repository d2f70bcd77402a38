import LocaleBundle.Number.Shortest
import Mathlib.Algebra.Order.Group.Nat
import Mathlib.Tactic.Linarith
import Mathlib.Tactic.Ring

/-!
# Doubles are read back

Rounding a quotient does not depend on how it is written, and rounding the exact value of a
magnitude gives that magnitude. So `shortest`, which falls back on the exact decimal and else
takes a decimal that was tried, always reads as the magnitude it is made for.
-/

namespace LocaleBundle.Binary64

/-! ## Rounding -/

lemma roundQuotient_mul_left {c : ℕ} (hc : 0 < c) (num den : ℕ) :
    roundQuotient (c * num) (c * den) = roundQuotient num den := by
  have hdiv : c * num / (c * den) = num / den := Nat.mul_div_mul_left num den hc
  have hmod : c * num % (c * den) = c * (num % den) := Nat.mul_mod_mul_left c num den
  have hlow : 2 * (c * (num % den)) < c * den ↔ 2 * (num % den) < den := by
    rw [Nat.mul_left_comm]
    exact Nat.mul_lt_mul_left hc
  have hhigh : c * den < 2 * (c * (num % den)) ↔ den < 2 * (num % den) := by
    rw [Nat.mul_left_comm]
    exact Nat.mul_lt_mul_left hc
  simp only [roundQuotient, hdiv, hmod, hlow, hhigh]

lemma roundQuotient_mul_self {den : ℕ} (hden : 0 < den) (n : ℕ) :
    roundQuotient (n * den) den = n := by
  have hdiv : n * den / den = n := Nat.mul_div_cancel n hden
  have hmod : n * den % den = 0 := Nat.mul_mod_left n den
  simp only [roundQuotient, hdiv, hmod, Nat.mul_zero, if_pos hden]

/-- Only the value of a quotient counts. -/
lemma roundOrdinal_mul_left {c : ℕ} (hc : 0 < c) (num den : ℕ) :
    roundOrdinal (c * num) (c * den) = roundOrdinal num den := by
  by_cases hnum : num = 0
  · simp [roundOrdinal, hnum]
  · have hcnum : c * num ≠ 0 := Nat.mul_ne_zero (by omega) hnum
    have hscaled : c * num * Nat.pow 2 1074 / (c * den) = num * Nat.pow 2 1074 / den := by
      rw [Nat.mul_assoc, Nat.mul_div_mul_left _ _ hc]
    have hround : ∀ place, roundQuotient (c * num * Nat.pow 2 1074) (c * den * Nat.pow 2 place)
        = roundQuotient (num * Nat.pow 2 1074) (den * Nat.pow 2 place) := by
      intro place
      rw [Nat.mul_assoc, Nat.mul_assoc, roundQuotient_mul_left hc]
    simp only [roundOrdinal, hnum, hcnum, if_false, hscaled, hround]

/-! ## The significand and the last place of a magnitude -/

lemma binade_eq : binade = 2 ^ 52 := rfl

lemma significand_add (k : ℕ) : lastPlace k * binade + significand k = k := by
  have hsplit : binade * (k / binade) + k % binade = k := Nat.div_add_mod k binade
  rw [lastPlace, significand]
  by_cases he : k / binade = 0
  · rw [he, Nat.mul_zero] at hsplit
    rw [if_pos he, he]
    omega
  · have hone : (k / binade - 1) * binade + binade = binade * (k / binade) := by
      rw [← Nat.succ_mul, Nat.succ_eq_add_one, Nat.sub_add_cancel (Nat.pos_of_ne_zero he),
        Nat.mul_comm]
    rw [if_neg he]
    omega

lemma significand_lt (k : ℕ) : significand k < 2 ^ 53 := by
  have hmod : k % binade < binade := Nat.mod_lt k (by rw [binade_eq]; norm_num)
  have hdouble : (2 : ℕ) ^ 53 = binade + binade := by rw [binade_eq]; norm_num
  rw [significand]
  split <;> omega

lemma significand_ne_zero {k : ℕ} (hk : k ≠ 0) : significand k ≠ 0 := by
  intro hzero
  have hadd := significand_add k
  rw [hzero, Nat.add_zero, lastPlace] at hadd
  by_cases he : k / binade = 0
  · rw [he] at hadd
    omega
  · have hpos : 0 < binade := by rw [binade_eq]; norm_num
    rw [significand, if_neg he] at hzero
    omega

/-- The last place is found from the size of the scaled significand. -/
lemma log2_significand {k : ℕ} (hk : k ≠ 0) :
    Nat.log2 (significand k * 2 ^ lastPlace k) - 52 = lastPlace k := by
  by_cases he : k / binade = 0
  · -- below the first binade the significand is short
    have hplace : lastPlace k = 0 := by rw [lastPlace, he]
    have hlt : k < 2 ^ 52 := by
      rw [← binade_eq]
      exact (Nat.div_eq_zero_iff_lt (by rw [binade_eq]; norm_num)).mp he
    have hsig : significand k = k := by
      have := significand_add k
      rwa [hplace, Nat.zero_mul, Nat.zero_add] at this
    have hlog : Nat.log2 k < 52 := (Nat.log2_lt hk).mpr hlt
    rw [hplace, hsig, pow_zero, Nat.mul_one]
    omega
  · have hlow : 2 ^ 52 ≤ significand k := by
      rw [significand, if_neg he, binade_eq]
      omega
    have hpow : 0 < 2 ^ lastPlace k := Nat.two_pow_pos _
    have hlog : Nat.log2 (significand k * 2 ^ lastPlace k) = 52 + lastPlace k := by
      rw [Nat.log2_eq_iff (Nat.mul_ne_zero (significand_ne_zero hk) hpow.ne')]
      constructor
      · rw [pow_add]
        exact Nat.mul_le_mul_right _ hlow
      · rw [show 52 + lastPlace k + 1 = 53 + lastPlace k by omega, pow_add]
        exact Nat.mul_lt_mul_of_pos_right (significand_lt k) hpow
    rw [hlog]
    omega

lemma roundOrdinal_of_ne_zero {num : ℕ} (hnum : num ≠ 0) (den : ℕ) :
    roundOrdinal num den =
      (Nat.log2 (num * Nat.pow 2 1074 / den) - 52) * binade +
        roundQuotient (num * Nat.pow 2 1074)
          (den * Nat.pow 2 (Nat.log2 (num * Nat.pow 2 1074 / den) - 52)) := by
  rw [roundOrdinal, if_neg hnum]

/-- The place found for a scaled magnitude is its last place, and rounding to it is exact. -/
lemma place_add_roundQuotient {k scaled den : ℕ} (hk : k ≠ 0) (hden : 0 < den)
    (hexact : scaled = significand k * 2 ^ lastPlace k * den) :
    (Nat.log2 (scaled / den) - 52) * binade +
      roundQuotient scaled (den * Nat.pow 2 (Nat.log2 (scaled / den) - 52)) = k := by
  have hplace : Nat.log2 (scaled / den) - 52 = lastPlace k := by
    rw [hexact, Nat.mul_div_cancel _ hden, log2_significand hk]
  have hscaled : scaled = significand k * (den * Nat.pow 2 (lastPlace k)) := by
    rw [hexact, Nat.mul_assoc, Nat.mul_comm den]
    rfl
  have hround : roundQuotient scaled (den * Nat.pow 2 (lastPlace k)) = significand k := by
    rw [hscaled]
    exact roundQuotient_mul_self (Nat.mul_pos hden (Nat.two_pow_pos _)) _
  rw [hplace, hround, significand_add]

/-- A quotient that is exactly a magnitude is rounded to it. -/
lemma roundOrdinal_of_exact {k num den : ℕ} (hk : k ≠ 0) (hden : 0 < den)
    (hexact : num * Nat.pow 2 1074 = significand k * 2 ^ lastPlace k * den) :
    roundOrdinal num den = k := by
  have hpos : 0 < significand k * 2 ^ lastPlace k * den :=
    Nat.mul_pos (Nat.mul_pos (Nat.pos_of_ne_zero (significand_ne_zero hk))
      (Nat.two_pow_pos _)) hden
  have hnum : num ≠ 0 := left_ne_zero_of_mul (ne_of_eq_of_ne hexact hpos.ne')
  exact (roundOrdinal_of_ne_zero hnum den).trans (place_add_roundQuotient hk hden hexact)

/-! ## Decimals -/

private lemma pow_ten_succ (n : ℕ) : Nat.pow 10 (n + 1) = 10 * Nat.pow 10 n := Nat.pow_succ'

/-- Moving a zero from the digits to the exponent changes nothing. -/
lemma ordinalOfScientific_mul_ten (digits : ℕ) (exponent : ℤ) :
    ordinalOfScientific (digits * 10) exponent = ordinalOfScientific digits (exponent + 1) := by
  by_cases hdigits : digits = 0
  · simp [ordinalOfScientific, hdigits]
  · have hlen : (Nat.toDigits 10 (digits * 10)).length = (Nat.toDigits 10 digits).length + 1 := by
      have happ := Nat.toDigits_append_toDigits (b := 10) (d := 0) (by norm_num)
        (Nat.pos_of_ne_zero hdigits) (by norm_num)
      rw [Nat.add_zero, Nat.mul_comm] at happ
      rw [← happ, List.length_append, Nat.toDigits_zero, List.length_singleton]
    have hsize : Int.ofNat (Nat.toDigits 10 (digits * 10)).length + exponent
        = Int.ofNat (Nat.toDigits 10 digits).length + (exponent + 1) := by
      rw [hlen, Int.ofNat_eq_natCast, Int.ofNat_eq_natCast]
      push_cast
      ring
    have hround : (if 0 ≤ exponent then roundOrdinal (digits * 10 * Nat.pow 10 exponent.toNat) 1
        else roundOrdinal (digits * 10) (Nat.pow 10 (-exponent).toNat))
        = if 0 ≤ exponent + 1 then roundOrdinal (digits * Nat.pow 10 (exponent + 1).toNat) 1
        else roundOrdinal digits (Nat.pow 10 (-(exponent + 1)).toNat) := by
      rcases lt_trichotomy exponent (-1) with hneg | hone | hpos
      · -- one power of ten fewer in the divisor
        have hpow : Nat.pow 10 (-exponent).toNat = 10 * Nat.pow 10 (-(exponent + 1)).toNat := by
          rw [show (-exponent).toNat = (-(exponent + 1)).toNat + 1 by omega, pow_ten_succ]
        rw [if_neg (by omega), if_neg (by omega), hpow, Nat.mul_comm digits,
          roundOrdinal_mul_left (by norm_num)]
      · subst hone
        have hround := roundOrdinal_mul_left (c := 10) (by norm_num) digits 1
        rw [if_neg (by omega), if_pos (by omega), Nat.mul_comm digits 10]
        simpa using hround
      · have hpow : Nat.pow 10 (exponent + 1).toNat = 10 * Nat.pow 10 exponent.toNat := by
          rw [show (exponent + 1).toNat = exponent.toNat + 1 by omega, pow_ten_succ]
        rw [if_pos (by omega), if_pos (by omega), hpow, Nat.mul_assoc]
    have hten : digits * 10 ≠ 0 := by omega
    simp only [ordinalOfScientific, if_neg hdigits, if_neg hten, hsize]
    rw [hround]

lemma ordinalOfScientific_mul_pow_ten (digits : ℕ) (exponent : ℤ) (zeros : ℕ) :
    ordinalOfScientific (digits * 10 ^ zeros) exponent
      = ordinalOfScientific digits (exponent + zeros) := by
  induction zeros generalizing exponent with
  | zero => simp
  | succ zeros ih =>
    rw [pow_succ, ← Nat.mul_assoc, ordinalOfScientific_mul_ten, ih]
    congr 1
    push_cast
    ring

lemma ordinalOfScientific_zero (exponent : ℤ) : ordinalOfScientific 0 exponent = 0 := by
  rw [ordinalOfScientific]
  exact if_pos rfl

/-- Dropping zeros keeps the value. -/
lemma ordinalOfScientific_stripZeros (fuel : ℕ) (s : Scientific) :
    ordinalOfScientific (s.stripZeros fuel).digits (s.stripZeros fuel).exponent
      = ordinalOfScientific s.digits s.exponent := by
  induction fuel generalizing s with
  | zero => rfl
  | succ fuel ih =>
    rw [Scientific.stripZeros]
    by_cases hzero : (s.digits % 10 = 0 && s.digits ≠ 0) = true
    · have hmod : s.digits % 10 = 0 := by
        rw [Bool.and_eq_true, decide_eq_true_eq] at hzero
        exact hzero.1
      have hdigits : s.digits / 10 * 10 = s.digits := by omega
      rw [if_pos hzero, ih, ← ordinalOfScientific_mul_ten, hdigits]
    · rw [if_neg hzero]

/-! ## The exact decimal of a magnitude -/

lemma lastPlace_le {k : ℕ} (hk : k < overflowOrdinal) : lastPlace k ≤ 2045 := by
  have hdiv : k / binade < 2047 := by
    rw [Nat.div_lt_iff_lt_mul (by rw [binade_eq]; norm_num)]
    exact hk
  rw [lastPlace]
  omega

/-- Powers of two in terms of powers of ten. -/
lemma two_pow_le_ten_pow {m n : ℕ} (h : m ≤ 3 * n) : 2 ^ m ≤ 10 ^ n := by
  calc 2 ^ m ≤ 2 ^ (3 * n) := Nat.pow_le_pow_right (by norm_num) h
    _ = 8 ^ n := by rw [pow_mul]; norm_num
    _ ≤ 10 ^ n := Nat.pow_le_pow_left (by norm_num) n

lemma ten_pow_sub_le {m n : ℕ} (hnm : n ≤ m) (hmn : m ≤ 3 * n) : 10 ^ (m - n) ≤ 5 ^ m := by
  have hsplit : 10 ^ (m - n) * 10 ^ n = 5 ^ m * 2 ^ m := by
    calc 10 ^ (m - n) * 10 ^ n = 10 ^ m := by rw [← pow_add, Nat.sub_add_cancel hnm]
      _ = (5 * 2) ^ m := by norm_num
      _ = 5 ^ m * 2 ^ m := mul_pow 5 2 m
  have hle : 10 ^ (m - n) * 10 ^ n ≤ 5 ^ m * 10 ^ n := by
    rw [hsplit]
    exact Nat.mul_le_mul_left _ (two_pow_le_ten_pow hmn)
  exact Nat.le_of_mul_le_mul_right hle (Nat.pow_pos (by norm_num))

/-- The exact decimal has at most as many digits before the point as the greatest magnitude. -/
lemma length_exactDecimal_le {k : ℕ} (hk : k < overflowOrdinal) :
    Int.ofNat (Nat.toDigits 10 (exactDecimal k).digits).length + (exactDecimal k).exponent
      ≤ 400 := by
  have hsig : significand k < 10 ^ 18 :=
    lt_of_lt_of_le (significand_lt k) (two_pow_le_ten_pow (by norm_num))
  have hplace := lastPlace_le hk
  rw [exactDecimal, Int.ofNat_eq_natCast]
  split
  · have hdigits : significand k * Nat.pow 2 (lastPlace k - 1074) < 10 ^ 400 := by
      calc significand k * 2 ^ (lastPlace k - 1074)
          < 10 ^ 18 * 10 ^ 382 := Nat.mul_lt_mul_of_lt_of_le hsig
            (two_pow_le_ten_pow (by omega)) (Nat.pow_pos (by norm_num))
        _ = 10 ^ 400 := by rw [← pow_add]
    have hlen := (Nat.length_toDigits_le_iff (by norm_num) (by norm_num)).mpr hdigits
    simp only
    omega
  · have hdigits : significand k * Nat.pow 5 (1074 - lastPlace k)
        < 10 ^ (18 + (1074 - lastPlace k)) := by
      rw [pow_add]
      exact Nat.mul_lt_mul_of_lt_of_le hsig (Nat.pow_le_pow_left (by norm_num) _)
        (Nat.pow_pos (by norm_num))
    have hlen := (Nat.length_toDigits_le_iff (by norm_num) (by omega)).mpr hdigits
    simp only [Int.ofNat_eq_natCast]
    omega

/-- The first digit of the exact decimal is not far behind the point. -/
lemma le_length_exactDecimal {k : ℕ} (hk : k ≠ 0) :
    -400 ≤ Int.ofNat (Nat.toDigits 10 (exactDecimal k).digits).length
      + (exactDecimal k).exponent := by
  rw [exactDecimal, Int.ofNat_eq_natCast]
  split
  · simp only
    omega
  · -- fewer digits would make the magnitude smaller than the least one
    simp only [Int.ofNat_eq_natCast]
    by_contra hlen
    have hlen' : (Nat.toDigits 10 (significand k * Nat.pow 5 (1074 - lastPlace k))).length
        ≤ 1074 - lastPlace k - 400 := by omega
    have hdigits := (Nat.length_toDigits_le_iff (by norm_num) (by omega)).mp hlen'
    have hfive : 5 ^ (1074 - lastPlace k) ≤ significand k * 5 ^ (1074 - lastPlace k) :=
      Nat.le_mul_of_pos_left _ (Nat.pos_of_ne_zero (significand_ne_zero hk))
    have hle : 10 ^ (1074 - lastPlace k - 400) ≤ 5 ^ (1074 - lastPlace k) :=
      ten_pow_sub_le (by omega) (by omega)
    exact absurd (hle.trans hfive) (Nat.not_le.mpr hdigits)

/-- Above the last place of one the exact decimal is an integer. -/
private lemma scaled_integer (s : ℕ) {place unit : ℕ} (h : unit ≤ place) :
    s * Nat.pow 2 (place - unit) * Nat.pow 2 unit = s * 2 ^ place * 1 := by
  calc s * 2 ^ (place - unit) * 2 ^ unit
      = s * (2 ^ (place - unit) * 2 ^ unit) := Nat.mul_assoc _ _ _
    _ = s * 2 ^ place * 1 := by rw [← pow_add, Nat.sub_add_cancel h, Nat.mul_one]

/-- Below it every binary place is also a decimal one. -/
private lemma scaled_fraction (s : ℕ) {place unit : ℕ} (h : place ≤ unit) :
    s * Nat.pow 5 (unit - place) * Nat.pow 2 unit
      = s * 2 ^ place * Nat.pow 10 (unit - place) := by
  calc s * 5 ^ (unit - place) * 2 ^ unit
      = s * 5 ^ (unit - place) * (2 ^ place * 2 ^ (unit - place)) := by
        rw [← pow_add, Nat.add_sub_cancel' h]
    _ = s * 2 ^ place * (2 * 5) ^ (unit - place) := by
        rw [mul_pow]
        ring

lemma ordinalOfScientific_exactDecimal {k : ℕ} (hk : k ≠ 0) (hlt : k < overflowOrdinal) :
    ordinalOfScientific (exactDecimal k).digits (exactDecimal k).exponent = k := by
  have hupper := length_exactDecimal_le hlt
  have hlower := le_length_exactDecimal hk
  have hsig := Nat.pos_of_ne_zero (significand_ne_zero hk)
  rw [ordinalOfScientific]
  simp only [if_neg (not_lt.mpr hupper), if_neg (not_lt.mpr hlower)]
  rw [exactDecimal]
  split
  · rename_i hplace
    have hdigits : significand k * Nat.pow 2 (lastPlace k - 1074) ≠ 0 :=
      (Nat.mul_pos hsig (Nat.two_pow_pos _)).ne'
    have hten : Nat.pow 10 0 = 1 := rfl
    simp only [if_neg hdigits, le_refl, if_true, Int.toNat_zero, hten, Nat.mul_one]
    refine roundOrdinal_of_exact hk Nat.one_pos ?_
    -- the power is too great to be written out
    generalize 1074 = unit at hplace ⊢
    exact scaled_integer _ hplace
  · rename_i hplace
    have hdigits : significand k * Nat.pow 5 (1074 - lastPlace k) ≠ 0 :=
      (Nat.mul_pos hsig (Nat.pow_pos (by norm_num))).ne'
    have hneg : ¬ 0 ≤ -Int.ofNat (1074 - lastPlace k) := by
      rw [Int.ofNat_eq_natCast]
      omega
    have hexp : (- -Int.ofNat (1074 - lastPlace k)).toNat = 1074 - lastPlace k := by
      rw [Int.ofNat_eq_natCast]
      omega
    have hden : 0 < Nat.pow 10 (1074 - lastPlace k) := Nat.pow_pos (by norm_num)
    simp only [if_neg hdigits, if_neg hneg, hexp]
    refine roundOrdinal_of_exact hk hden ?_
    generalize 1074 = unit at hplace ⊢
    exact scaled_fraction _ (le_of_not_ge hplace)

/-! ## The shortest decimal -/

/-- A decimal that is found on a grid was tried. -/
lemma readsAs_of_nearestOnGrid? {k num den : ℕ} {place : ℤ} {s : Scientific}
    (h : nearestOnGrid? k num den place = some s) : readsAs k s = true := by
  simp only [nearestOnGrid?] at h
  split at h
  · -- both neighbours read as the magnitude, so it does not matter which one is taken
    split at h
    · rwa [← Option.some.inj h]
    · split at h
      · rwa [← Option.some.inj h]
      · split at h
        · rwa [← Option.some.inj h]
        · rwa [← Option.some.inj h]
  · rwa [← Option.some.inj h]
  · rwa [← Option.some.inj h]
  · exact absurd h (by simp)

/-- Whatever digits are chosen, they read as the magnitude. -/
lemma ordinalOfScientific_shortest {k : ℕ} (hk : k ≠ 0) (hlt : k < overflowOrdinal) :
    ordinalOfScientific (shortest k).digits (shortest k).exponent = k := by
  rw [shortest]
  simp only [ordinalOfScientific_stripZeros]
  cases hfound : (List.range 17).findSome? fun extra => nearestOnGrid? k (ratio k).1 (ratio k).2
      (decimalExponent (ratio k).1 (ratio k).2 - Int.ofNat extra) with
  | none => exact ordinalOfScientific_exactDecimal hk hlt
  | some s =>
    obtain ⟨extra, -, hs⟩ := List.exists_of_findSome?_eq_some hfound
    have hreads := readsAs_of_nearestOnGrid? hs
    rw [readsAs, decide_eq_true_eq] at hreads
    exact hreads

lemma digits_shortest_ne_zero {k : ℕ} (hk : k ≠ 0) (hlt : k < overflowOrdinal) :
    (shortest k).digits ≠ 0 := by
  intro hzero
  have hreads := ordinalOfScientific_shortest hk hlt
  rw [hzero, ordinalOfScientific_zero] at hreads
  exact hk hreads.symm

end LocaleBundle.Binary64
