import LocaleBundle.Proofs.Number.Rounding
import LocaleBundle.Proofs.Number.ShortestDecimal

/-!
# The fewest digits

The decimals that read as a magnitude have no gaps: what is between two of them reads as it too. So if a
grid has any decimal that does, then a neighbour of the magnitude on that grid is one, and the search by
places finds the decimal with the fewest digits, and among these the nearest. With seventeen digits a
neighbour is near enough for every magnitude.
-/

namespace LocaleBundle.Binary64

variable {k num den : ℕ} {place : ℤ} {s t u : Scientific}

/-! ## The places of a decimal -/

/-- How many digits a decimal has. -/
def Scientific.length (s : Scientific) : ℕ := (Nat.toDigits 10 s.digits).length

/-- How many places a decimal has before the point; fewer than none if zeros stand behind it. -/
def Scientific.places (s : Scientific) : ℤ := s.length + s.exponent

namespace Scientific

lemma value_bounds (hs : s.digits ≠ 0) :
    (10 : ℚ) ^ (s.places - 1) ≤ s.value ∧ s.value < 10 ^ s.places := by
  obtain ⟨hlow, hhigh⟩ := length_toDigits_bounds hs
  have hpos := ten_zpow_pos s.exponent
  constructor
  · rw [places, length, add_sub_right_comm, zpow_add₀ (by norm_num)]
    exact mul_le_mul_of_nonneg_right hlow hpos.le
  · rw [places, length, zpow_add₀ (by norm_num)]
    exact mul_lt_mul_of_pos_right hhigh hpos

lemma value_pos_iff : 0 < s.value ↔ s.digits ≠ 0 := by
  rw [value, mul_pos_iff_of_pos_right (ten_zpow_pos _), Nat.cast_pos, Nat.pos_iff_ne_zero]

lemma places_le_of_value_le (hs : s.digits ≠ 0) (ht : t.digits ≠ 0) (h : s.value ≤ t.value) :
    s.places ≤ t.places := by
  have hlt := (value_bounds hs).1.trans_lt (h.trans_lt (value_bounds ht).2)
  have := (zpow_lt_zpow_iff_right₀ (by norm_num : (1 : ℚ) < 10)).mp hlt
  omega

end Scientific

/-! ## Decimals that read as a magnitude -/

/-- A decimal with a first digit at a reasonable place is read by rounding a quotient. -/
lemma exists_roundOrdinal (hs : s.digits ≠ 0) (hlow : -400 ≤ s.places) (hhigh : s.places ≤ 400) :
    ∃ num den : ℕ, 0 < den ∧ (num : ℚ) / den = s.value ∧
      ordinalOfScientific s.digits s.exponent = roundOrdinal num den := by
  rw [Scientific.places, Scientific.length] at hlow hhigh
  simp only [ordinalOfScientific, Int.ofNat_eq_natCast]
  rw [if_neg hs, if_neg (by omega), if_neg (by omega)]
  by_cases he : 0 ≤ s.exponent
  · refine ⟨s.digits * 10 ^ s.exponent.toNat, 1, Nat.one_pos, ?_, if_pos he⟩
    rw [Scientific.value, ten_zpow_toNat he, Nat.cast_one, div_one, Nat.cast_mul]
  · refine ⟨s.digits, 10 ^ (-s.exponent).toNat, Nat.pow_pos (by norm_num), ?_, if_neg he⟩
    have hpow : ((10 ^ (-s.exponent).toNat : ℕ) : ℚ) = ((10 : ℚ) ^ s.exponent)⁻¹ := by
      rw [← ten_zpow_toNat (by omega), zpow_neg]
    rw [Scientific.value, hpow, div_inv_eq_mul]

lemma ordinalOfScientific_mono (hs : s.digits ≠ 0) (ht : t.digits ≠ 0) (hlow : -400 ≤ s.places)
    (hhigh : t.places ≤ 400) (h : s.value ≤ t.value) :
    ordinalOfScientific s.digits s.exponent ≤ ordinalOfScientific t.digits t.exponent := by
  -- the greater decimal bounds the places before the point, the smaller one those behind it
  have hplaces := Scientific.places_le_of_value_le hs ht h
  obtain ⟨num, den, hden, hvalue, hs⟩ := exists_roundOrdinal hs hlow (by omega)
  obtain ⟨num', den', hden', hvalue', ht⟩ := exists_roundOrdinal ht (by omega) hhigh
  rw [hs, ht]
  refine roundOrdinal_mono hden hden' ?_
  rw [← hvalue, ← hvalue', div_le_div_iff₀ (by exact_mod_cast hden) (by exact_mod_cast hden')] at h
  exact_mod_cast h

/-- What reads as a magnitude is neither zero nor out of reach. -/
lemma places_of_readsAs (hk : k ≠ 0) (hlt : k < overflowOrdinal) (h : readsAs k s = true) :
    s.digits ≠ 0 ∧ -400 ≤ s.places ∧ s.places ≤ 400 := by
  rw [readsAs, decide_eq_true_eq] at h
  simp only [ordinalOfScientific, Int.ofNat_eq_natCast] at h
  rw [Scientific.places, Scientific.length]
  split at h
  · exact absurd h.symm hk
  · split at h
    · exact absurd h hlt.ne'
    · split at h
      · exact absurd h.symm hk
      · rename_i hs hhigh hlow
        exact ⟨hs, not_lt.mp hlow, not_lt.mp hhigh⟩

/-- What is between two decimals that read as a magnitude reads as it. -/
lemma readsAs_of_between (hk : k ≠ 0) (hlt : k < overflowOrdinal) (hs : readsAs k s = true)
    (ht : readsAs k t = true) (hsu : s.value ≤ u.value) (hut : u.value ≤ t.value) :
    readsAs k u = true := by
  obtain ⟨hs0, hslow, -⟩ := places_of_readsAs hk hlt hs
  obtain ⟨ht0, -, hthigh⟩ := places_of_readsAs hk hlt ht
  have hu0 := Scientific.value_pos_iff.mp ((Scientific.value_pos_iff.mpr hs0).trans_le hsu)
  have hlow := Scientific.places_le_of_value_le hs0 hu0 hsu
  have hhigh := Scientific.places_le_of_value_le hu0 ht0 hut
  have hbelow := ordinalOfScientific_mono hs0 hu0 hslow (by omega) hsu
  have habove := ordinalOfScientific_mono hu0 ht0 (by omega) hthigh hut
  rw [readsAs, decide_eq_true_eq] at *
  omega

lemma readsAs_exactDecimal (hk : k ≠ 0) (hlt : k < overflowOrdinal) :
    readsAs k (exactDecimal k) = true := by
  rw [readsAs, decide_eq_true_eq]
  exact ordinalOfScientific_exactDecimal hk hlt

/-! ## Neighbours on a grid -/

/-- The greatest decimal of a grid that is not above a magnitude. -/
def below (k : ℕ) (place : ℤ) : Scientific :=
  ⟨(scaleDown (ratio k).1 (ratio k).2 place).1 / (scaleDown (ratio k).1 (ratio k).2 place).2, place⟩

/-- The next decimal of the grid. -/
def above (k : ℕ) (place : ℤ) : Scientific := ⟨(below k place).digits + 1, place⟩

lemma value_below_le (k : ℕ) (place : ℤ) :
    (below k place).value ≤ value k ∧ value k < (above k place).value := by
  obtain ⟨hdiv, hden⟩ := scaleDown_div (ratio k).1 (ratio_snd_pos k).ne' place
  have hpos := ten_zpow_pos place
  have hsteps : value k = value k / 10 ^ place * 10 ^ place := (div_mul_cancel₀ _ hpos.ne').symm
  rw [← value] at hdiv
  constructor
  · rw [hsteps, ← hdiv]
    exact mul_le_mul_of_nonneg_right Nat.cast_div_le hpos.le
  · rw [hsteps, ← hdiv]
    refine mul_lt_mul_of_pos_right ?_ hpos
    rw [div_lt_iff₀ (by exact_mod_cast Nat.pos_of_ne_zero hden)]
    exact_mod_cast Nat.lt_mul_of_div_lt (Nat.lt_succ_self _) (Nat.pos_of_ne_zero hden)

lemma value_above (k : ℕ) (place : ℤ) :
    (above k place).value = (below k place).value + 10 ^ place := by
  change (((below k place).digits + 1 : ℕ) : ℚ) * 10 ^ place =
    (below k place).digits * 10 ^ place + 10 ^ place
  push_cast
  ring

/-- Which neighbour is nearer shows in the remainder. -/
lemma two_mul_value (k : ℕ) (place : ℤ) :
    2 * value k = (below k place).value + (above k place).value +
      (2 * (((scaleDown (ratio k).1 (ratio k).2 place).1 %
        (scaleDown (ratio k).1 (ratio k).2 place).2 : ℕ) : ℚ) /
          (scaleDown (ratio k).1 (ratio k).2 place).2 - 1) * 10 ^ place := by
  obtain ⟨hdiv, hden⟩ := scaleDown_div (ratio k).1 (ratio_snd_pos k).ne' place
  have hpos := ten_zpow_pos place
  have hsteps : value k = value k / 10 ^ place * 10 ^ place := (div_mul_cancel₀ _ hpos.ne').symm
  rw [← value] at hdiv
  rw [hsteps, ← hdiv, Scientific.value, Scientific.value, above, below]
  generalize scaleDown (ratio k).1 (ratio k).2 place = scaled at hden ⊢
  have hq : ((scaled.2 : ℕ) : ℚ) ≠ 0 := by exact_mod_cast hden
  have hsplit : (scaled.1 : ℚ) = scaled.2 * (scaled.1 / scaled.2 : ℕ) + (scaled.1 % scaled.2 : ℕ) := by
    exact_mod_cast (Nat.div_add_mod scaled.1 scaled.2).symm
  have hquotient : (scaled.1 : ℚ) / scaled.2 =
      (scaled.1 / scaled.2 : ℕ) + (scaled.1 % scaled.2 : ℕ) / scaled.2 := by
    rw [div_eq_iff hq, add_mul, div_mul_cancel₀ _ hq, mul_comm, ← hsplit]
  rw [hquotient]
  push_cast
  ring

/-- How far a decimal is from a magnitude. -/
def distance (k : ℕ) (s : Scientific) : ℚ := |s.value - value k|

lemma distance_below_le (h : 2 * value k ≤ (below k place).value + (above k place).value) :
    distance k (below k place) ≤ distance k (above k place) := by
  obtain ⟨hlow, hhigh⟩ := value_below_le k place
  rw [distance, distance, abs_of_nonpos (by linarith), abs_of_pos (by linarith)]
  linarith

lemma distance_above_le (h : (below k place).value + (above k place).value ≤ 2 * value k) :
    distance k (above k place) ≤ distance k (below k place) := by
  obtain ⟨hlow, hhigh⟩ := value_below_le k place
  rw [distance, distance, abs_of_pos (by linarith), abs_of_nonpos (by linarith)]
  linarith

/-- Whether a decimal is the nearer one of the neighbours on a grid that read as the magnitude. -/
structure IsNeighbour (k : ℕ) (place : ℤ) (s : Scientific) : Prop where
  eq : s = below k place ∨ s = above k place
  le_below : readsAs k (below k place) = true → distance k s ≤ distance k (below k place)
  le_above : readsAs k (above k place) = true → distance k s ≤ distance k (above k place)

/-- If both neighbours read as the magnitude, the nearer one is taken. -/
lemma isNeighbour_nearer {remainder step : ℕ} (hstep : step ≠ 0)
    (htwo : 2 * value k = (below k place).value + (above k place).value +
      (2 * (remainder : ℚ) / step - 1) * 10 ^ place) :
    (2 * remainder ≤ step → IsNeighbour k place (below k place)) ∧
      (step ≤ 2 * remainder → IsNeighbour k place (above k place)) := by
  have hpos := ten_zpow_pos place
  have hsteppos : (0 : ℚ) < step := by exact_mod_cast Nat.pos_of_ne_zero hstep
  constructor
  · intro h
    have hhalf : 2 * (remainder : ℚ) / step - 1 ≤ 0 := by
      rw [sub_nonpos, div_le_one₀ hsteppos]
      exact_mod_cast h
    have hless := mul_nonpos_of_nonpos_of_nonneg hhalf hpos.le
    exact ⟨.inl rfl, fun _ => le_rfl, fun _ => distance_below_le (by linarith)⟩
  · intro h
    have hhalf : 0 ≤ 2 * (remainder : ℚ) / step - 1 := by
      rw [sub_nonneg, one_le_div₀ hsteppos]
      exact_mod_cast h
    have hmore := mul_nonneg hhalf hpos.le
    exact ⟨.inr rfl, fun _ => distance_above_le (by linarith), fun _ => le_rfl⟩

/-- On a grid the nearer one of the neighbours that read as the magnitude is found. -/
lemma nearestOnGrid?_spec (k : ℕ) (place : ℤ) :
    (∃ s, nearestOnGrid? k (ratio k).1 (ratio k).2 place = some s ∧ IsNeighbour k place s) ∨
      readsAs k (below k place) = false ∧ readsAs k (above k place) = false := by
  have hden := (scaleDown_div (ratio k).1 (ratio_snd_pos k).ne' place).2
  obtain ⟨hlow, hhigh⟩ := isNeighbour_nearer hden (two_mul_value k place)
  cases hbelow : readsAs k (below k place) with
  | false =>
    cases habove : readsAs k (above k place) with
    | false => exact .inr ⟨rfl, rfl⟩
    | true =>
      refine .inl ⟨above k place, ?_, .inr rfl, fun h => absurd (hbelow.symm.trans h) (by simp),
        fun _ => le_rfl⟩
      rw [below] at hbelow
      rw [above, below] at habove
      simp only [nearestOnGrid?, hbelow, habove]
      rfl
  | true =>
    cases habove : readsAs k (above k place) with
    | false =>
      refine .inl ⟨below k place, ?_, .inl rfl, fun _ => le_rfl,
        fun h => absurd (habove.symm.trans h) (by simp)⟩
      rw [below] at hbelow
      rw [above, below] at habove
      simp only [nearestOnGrid?, hbelow, habove]
      rfl
    | true =>
      left
      rw [below] at hbelow
      rw [above, below] at habove
      simp only [nearestOnGrid?, hbelow, habove]
      split
      · exact ⟨_, rfl, hlow (by omega)⟩
      · split
        · exact ⟨_, rfl, hhigh (by omega)⟩
        · split
          · exact ⟨_, rfl, hlow (by omega)⟩
          · exact ⟨_, rfl, hhigh (by omega)⟩

/-- If some decimal of a grid reads as a magnitude, one is found there that is at least as near. -/
lemma exists_nearestOnGrid? (hk : k ≠ 0) (hlt : k < overflowOrdinal) (ht : readsAs k t = true)
    (hplace : t.exponent = place) :
    ∃ s, nearestOnGrid? k (ratio k).1 (ratio k).2 place = some s ∧ IsNeighbour k place s ∧
      distance k s ≤ distance k t := by
  have hexact := readsAs_exactDecimal hk hlt
  have hpos := ten_zpow_pos place
  obtain ⟨hlow, hhigh⟩ := value_below_le k place
  -- a neighbour stands between the decimal and the magnitude
  by_cases hside : t.digits ≤ (below k place).digits
  · have hle : t.value ≤ (below k place).value := by
      rw [Scientific.value, Scientific.value, hplace]
      exact mul_le_mul_of_nonneg_right (by exact_mod_cast hside) hpos.le
    have hbelow : readsAs k (below k place) = true :=
      readsAs_of_between hk hlt ht hexact hle (by rwa [value_exactDecimal])
    rcases nearestOnGrid?_spec k place with ⟨s, hs, hneighbour⟩ | ⟨hnone, -⟩
    · refine ⟨s, hs, hneighbour, (hneighbour.le_below hbelow).trans ?_⟩
      rw [distance, distance, abs_of_nonpos (by linarith), abs_of_nonpos (by linarith)]
      linarith
    · exact absurd (hnone.symm.trans hbelow) (by simp)
  · have hle : (above k place).value ≤ t.value := by
      rw [Scientific.value, Scientific.value, hplace]
      exact mul_le_mul_of_nonneg_right (by exact_mod_cast Nat.lt_of_not_le hside) hpos.le
    have habove : readsAs k (above k place) = true :=
      readsAs_of_between hk hlt hexact ht (by rw [value_exactDecimal]; exact hhigh.le) hle
    rcases nearestOnGrid?_spec k place with ⟨s, hs, hneighbour⟩ | ⟨-, hnone⟩
    · refine ⟨s, hs, hneighbour, (hneighbour.le_above habove).trans ?_⟩
      rw [distance, distance, abs_of_pos (by linarith), abs_of_pos (by linarith)]
      linarith
    · exact absurd (hnone.symm.trans habove) (by simp)

/-! ## Seventeen digits -/

lemma value_mul_unit {unit : ℕ} (hunit : unit = 1074) (k : ℕ) :
    value k * 2 ^ unit = significand k * 2 ^ lastPlace k := by
  rw [value, ratio, ← hunit]
  split
  · rename_i hplace
    have hpow : (2 : ℚ) ^ lastPlace k = 2 ^ (lastPlace k - unit) * 2 ^ unit := by
      rw [← pow_add, Nat.sub_add_cancel hplace]
    rw [hpow, Nat.pow_eq]
    push_cast
    ring
  · rename_i hplace
    have hpow : (2 : ℚ) ^ unit = 2 ^ (unit - lastPlace k) * 2 ^ lastPlace k := by
      rw [← pow_add, Nat.sub_add_cancel (by omega)]
    rw [hpow, Nat.pow_eq, ← mul_assoc]
    push_cast
    rw [div_mul_cancel₀ _ (by positivity)]

/-- A decimal that differs from a magnitude by less than a `2^54`th part of it reads as it. -/
lemma readsAs_of_near (hs : s.digits ≠ 0) (hlow : -400 ≤ s.places) (hhigh : s.places ≤ 400)
    (hnear : 2 ^ 54 * distance k s < value k) : readsAs k s = true := by
  obtain ⟨num, den, hden, hvalue, hround⟩ := exists_roundOrdinal hs hlow hhigh
  obtain ⟨unit, hunit⟩ : ∃ unit, unit = 1074 := ⟨_, rfl⟩
  rw [readsAs, decide_eq_true_eq, hround, roundOrdinal_eq_roundScaled hunit hden]
  have hdenpos : (0 : ℚ) < den := by exact_mod_cast hden
  have hscale : (0 : ℚ) < 2 ^ unit * den := by positivity
  -- both numbers are counted in the smallest places, as parts of the quotient's divisor
  obtain ⟨exact, hexact⟩ : ∃ exact, exact = significand k * (den * 2 ^ lastPlace k) := ⟨_, rfl⟩
  have hexactvalue : (exact : ℚ) = value k * (2 ^ unit * den) := by
    rw [hexact, ← mul_assoc (value k), value_mul_unit hunit]
    push_cast
    ring
  obtain ⟨scaled, hscaled⟩ : ∃ scaled, scaled = num * 2 ^ unit := ⟨_, rfl⟩
  have hscaledvalue : (scaled : ℚ) = s.value * (2 ^ unit * den) := by
    rw [hscaled, ← hvalue, mul_comm (2 ^ unit), ← mul_assoc, div_mul_cancel₀ _ hdenpos.ne']
    push_cast
    rfl
  rw [distance] at hnear
  have habove := neg_abs_le (s.value - value k)
  have hbelow := le_abs_self (s.value - value k)
  rw [← hscaled]
  refine roundScaled_of_near_magnitude hden hexact ?_ ?_
  · rw [← Nat.cast_lt (α := ℚ)]
    push_cast
    rw [hexactvalue, hscaledvalue]
    have hless : 0 < (2 ^ 54 * s.value + value k - 2 ^ 54 * value k) * (2 ^ unit * den) :=
      mul_pos (by linarith) hscale
    linarith
  · rw [← Nat.cast_lt (α := ℚ)]
    push_cast
    rw [hexactvalue, hscaledvalue]
    have hless : 0 < (2 ^ 54 * value k + value k - 2 ^ 54 * s.value) * (2 ^ unit * den) :=
      mul_pos (by linarith) hscale
    linarith

/-- The place of the first digit of a magnitude. -/
def top (k : ℕ) : ℤ := decimalExponent (ratio k).1 (ratio k).2

lemma top_bounds (hk : k ≠ 0) : (10 : ℚ) ^ top k ≤ value k ∧ value k < 10 ^ (top k + 1) :=
  decimalExponent_bounds (ratio_fst_ne_zero hk) (ratio_snd_pos k).ne'

lemma lt_of_ten_zpow_lt {a b : ℤ} (h : (10 : ℚ) ^ a < 10 ^ b) : a < b :=
  (zpow_lt_zpow_iff_right₀ (by norm_num)).mp h

lemma value_lt_ten_pow (hlt : k < overflowOrdinal) : value k < 10 ^ (342 : ℤ) := by
  obtain ⟨unit, hunit⟩ : ∃ unit, unit = 1074 := ⟨_, rfl⟩
  obtain ⟨size, hsize⟩ : ∃ size, size = 1024 := ⟨_, rfl⟩
  have hplace := lastPlace_le hlt
  have hpos : (0 : ℚ) < 2 ^ unit := by positivity
  have hscaled : value k * 2 ^ unit < 2 ^ size * 2 ^ unit := by
    rw [value_mul_unit hunit]
    calc (significand k : ℚ) * 2 ^ lastPlace k < 2 ^ 53 * 2 ^ lastPlace k :=
          mul_lt_mul_of_pos_right (by exact_mod_cast significand_lt k) (by positivity)
      _ ≤ 2 ^ size * 2 ^ unit := by
          rw [← pow_add, ← pow_add]
          exact pow_le_pow_right₀ (by norm_num) (by omega)
  refine (lt_of_mul_lt_mul_right hscaled hpos.le).trans_le ?_
  exact_mod_cast two_pow_le_ten_pow (m := size) (n := 342) (by omega)

/-- A decimal that is not far from a magnitude is within reach. -/
lemma places_of_near_top (hk : k ≠ 0) (hlt : k < overflowOrdinal) (hlow : 10 ^ top k ≤ s.value)
    (hhigh : s.value < 10 ^ (top k + 2)) : s.digits ≠ 0 ∧ -400 ≤ s.places ∧ s.places ≤ 400 := by
  obtain ⟨htoplow, htophigh⟩ := top_bounds hk
  have hs := Scientific.value_pos_iff.mp ((ten_zpow_pos _).trans_le hlow)
  obtain ⟨hfirst, hlast⟩ := Scientific.value_bounds hs
  obtain ⟨hexact, hleast, -⟩ := places_of_readsAs hk hlt (readsAs_exactDecimal hk hlt)
  have hexactfirst := (Scientific.value_bounds hexact).1
  rw [value_exactDecimal] at hexactfirst
  have hone := lt_of_ten_zpow_lt (hlow.trans_lt hlast)
  have htwo := lt_of_ten_zpow_lt (hfirst.trans_lt hhigh)
  have hthree := lt_of_ten_zpow_lt (hexactfirst.trans_lt htophigh)
  have hfour := lt_of_ten_zpow_lt (htoplow.trans_lt (value_lt_ten_pow hlt))
  exact ⟨hs, by omega, by omega⟩

/-- With seventeen digits a neighbour of the magnitude is near enough. -/
lemma exists_readsAs_seventeen (hk : k ≠ 0) (hlt : k < overflowOrdinal) :
    ∃ t, t.exponent = top k - 16 ∧ readsAs k t = true := by
  obtain ⟨htoplow, htophigh⟩ := top_bounds hk
  obtain ⟨place, hplace⟩ : ∃ place, place = top k - 16 := ⟨_, rfl⟩
  obtain ⟨hlow, hhigh⟩ := value_below_le k place
  have hnext := value_above k place
  have hpos := ten_zpow_pos place
  have htop : (10 : ℚ) ^ top k = 10 ^ 16 * 10 ^ place := by
    rw [hplace, ← zpow_natCast, ← zpow_add₀ (by norm_num)]
    congr 1
    norm_num
  have htoptwo : (10 : ℚ) ^ (top k + 2) = 10 ^ (top k + 1) * 10 := by
    rw [← zpow_add_one₀ (by norm_num)]
    congr 1
    ring
  rw [← hplace]
  -- the nearer neighbour is at most half a step away, and a step is a `10^16`th part at most
  rcases le_total (2 * value k) ((below k place).value + (above k place).value) with hhalf | hhalf
  · have hdigits : 10 ^ 16 ≤ (below k place).digits := by
      have hless : (10 : ℚ) ^ 16 * 10 ^ place < ((below k place).digits + 1 : ℕ) * 10 ^ place :=
        htop ▸ htoplow.trans_lt hhigh
      exact Nat.lt_succ_iff.mp (by exact_mod_cast lt_of_mul_lt_mul_right hless hpos.le)
    have hleast : 10 ^ top k ≤ (below k place).value := by
      rw [htop]
      exact mul_le_mul_of_nonneg_right (by exact_mod_cast hdigits) hpos.le
    obtain ⟨hs, hfirst, hlast⟩ := places_of_near_top hk hlt hleast (by linarith)
    refine ⟨below k place, rfl, readsAs_of_near hs hfirst hlast ?_⟩
    rw [distance, abs_of_nonpos (by linarith)]
    linarith
  · obtain ⟨hs, hfirst, hlast⟩ := places_of_near_top (s := above k place) hk hlt
      (by linarith) (by linarith)
    refine ⟨above k place, rfl, readsAs_of_near hs hfirst hlast ?_⟩
    rw [distance, abs_of_pos (by linarith)]
    linarith

/-! ## The search by places -/

/-- Some decimal with as many digits as one that reads as a magnitude stands on the grid with so many
digits. If the first digit of that one is below the magnitude's, it is a power of ten between them. -/
lemma exists_on_grid (hk : k ≠ 0) (hlt : k < overflowOrdinal) (ht : readsAs k t = true) :
    ∃ u, u.exponent = top k - (t.length - 1) ∧ readsAs k u = true ∧ distance k u ≤ distance k t := by
  obtain ⟨htop, -⟩ := top_bounds hk
  have hexact := readsAs_exactDecimal hk hlt
  have hlength : 0 < t.length := Nat.length_toDigits_pos
  obtain ⟨ht0, -, -⟩ := places_of_readsAs hk hlt ht
  obtain ⟨place, hplace⟩ : ∃ place : ℤ, place = top k - (t.length - 1) := ⟨_, rfl⟩
  rw [← hplace]
  by_cases hfirst : place ≤ t.exponent
  · obtain ⟨zeros, hzeros⟩ : ∃ zeros : ℕ, t.exponent = place + zeros :=
      ⟨(t.exponent - place).toNat, by omega⟩
    have hvalue : Scientific.value ⟨t.digits * 10 ^ zeros, place⟩ = t.value := by
      rw [Scientific.value, Scientific.value, hzeros, zpow_add₀ (by norm_num), zpow_natCast]
      push_cast
      ring
    refine ⟨⟨t.digits * 10 ^ zeros, place⟩, rfl, ?_, ?_⟩
    · rw [readsAs, decide_eq_true_eq] at ht ⊢
      rw [ordinalOfScientific_mul_pow_ten, ← hzeros]
      exact ht
    · rw [distance, distance, hvalue]
  · have hbelow : t.value < 10 ^ top k := by
      refine (Scientific.value_bounds ht0).2.trans_le (zpow_le_zpow_right₀ (by norm_num) ?_)
      rw [Scientific.places]
      omega
    have hvalue : Scientific.value ⟨10 ^ (t.length - 1), place⟩ = 10 ^ top k := by
      rw [Scientific.value]
      push_cast
      rw [← zpow_natCast, ← zpow_add₀ (by norm_num)]
      congr 1
      omega
    refine ⟨⟨10 ^ (t.length - 1), place⟩, rfl, ?_, ?_⟩
    · exact readsAs_of_between hk hlt ht hexact (by rw [hvalue]; exact hbelow.le)
        (by rwa [hvalue, value_exactDecimal])
    · rw [distance, distance, hvalue, abs_of_nonpos (by linarith), abs_of_nonpos (by linarith)]
      linarith

/-- With as many digits as a decimal that reads as a magnitude, one is found that is at least as near. -/
lemma exists_grid? (hk : k ≠ 0) (hlt : k < overflowOrdinal) (ht : readsAs k t = true) :
    ∃ s, grid? k (t.length - 1) = some s ∧ distance k s ≤ distance k t := by
  obtain ⟨u, hexp, hu, hnear⟩ := exists_on_grid hk hlt ht
  have hlength : 0 < t.length := Nat.length_toDigits_pos
  have hplace : u.exponent = top k - Int.ofNat (t.length - 1) := by
    rw [hexp, Int.ofNat_eq_natCast]
    omega
  obtain ⟨s, hs, -, hnearer⟩ := exists_nearestOnGrid? hk hlt hu hplace
  exact ⟨s, hs, hnearer.trans hnear⟩

lemma digits_of_grid? {extra : ℕ} (hk : k ≠ 0) (hlt : k < overflowOrdinal)
    (h : grid? k extra = some s) : s.digits ≤ 10 ^ (extra + 1) := by
  have htop := (top_bounds hk).2
  obtain ⟨place, hplace⟩ : ∃ place, place = top k - Int.ofNat extra := ⟨_, rfl⟩
  have hpos := ten_zpow_pos place
  obtain ⟨hlow, -⟩ := value_below_le k place
  have hpower : (10 : ℚ) ^ (top k + 1) = (10 ^ (extra + 1) : ℕ) * 10 ^ place := by
    rw [hplace, Int.ofNat_eq_natCast]
    push_cast
    rw [← zpow_natCast, ← zpow_add₀ (by norm_num)]
    congr 1
    push_cast
    ring
  have hbelow : (below k place).digits < 10 ^ (extra + 1) := by
    have hless : ((below k place).digits : ℚ) * 10 ^ place < (10 ^ (extra + 1) : ℕ) * 10 ^ place :=
      hpower ▸ hlow.trans_lt htop
    exact_mod_cast lt_of_mul_lt_mul_right hless hpos.le
  obtain ⟨s', hs', hneighbour, -⟩ := exists_nearestOnGrid? (t := s) hk hlt
    (readsAs_of_nearestOnGrid? h) (exponent_and_digits_of_nearestOnGrid? h).1
  obtain rfl : s' = s := Option.some.inj (hs'.symm.trans h)
  have heq : s' = below k place ∨ s' = above k place := hplace ▸ hneighbour.eq
  rcases heq with rfl | rfl
  · exact hbelow.le
  · exact hbelow

/-- The digits that are left of a power of ten, or of less, are not more than its zeros. -/
lemma length_stripZeros_le {extra fuel : ℕ} (hs : s.digits ≤ 10 ^ (extra + 1))
    (hlast : (s.stripZeros fuel).digits % 10 ≠ 0) : (s.stripZeros fuel).length ≤ extra + 1 := by
  obtain ⟨zeros, hzeros, -⟩ := Scientific.exists_zeros_stripZeros fuel s
  generalize s.stripZeros fuel = t at hlast hzeros ⊢
  have ht : t.digits ≠ 0 := by omega
  -- only the power of ten itself has a digit more, and it ends with a zero
  by_cases hlt : s.digits < 10 ^ (extra + 1)
  · refine (Nat.length_toDigits_le_iff (by norm_num) (Nat.succ_pos _)).mpr (lt_of_le_of_lt ?_ hlt)
    rw [hzeros]
    exact Nat.le_mul_of_pos_right _ (Nat.pow_pos (by norm_num))
  · have hpower : t.digits * 10 ^ zeros = 10 ^ extra * 10 := by
      rw [← hzeros, ← pow_succ]
      omega
    cases zeros with
    | zero =>
      rw [pow_zero, Nat.mul_one] at hpower
      omega
    | succ zeros =>
      rw [pow_succ, ← Nat.mul_assoc] at hpower
      have hdigits : t.digits ≤ 10 ^ extra := by
        rw [← Nat.eq_of_mul_eq_mul_right (by norm_num) hpower]
        exact Nat.le_mul_of_pos_right _ (Nat.pow_pos (by norm_num))
      refine (Nat.length_toDigits_le_iff (by norm_num) (Nat.succ_pos _)).mpr ?_
      exact hdigits.trans_lt (Nat.pow_lt_pow_right (by norm_num) (Nat.lt_succ_self _))

/-- Whether a decimal is the one to print: it reads as the magnitude and ends with no zero, no decimal
that reads as the magnitude has fewer digits, and none with as many is nearer. -/
structure IsShortest (k : ℕ) (s : Scientific) : Prop where
  reads : readsAs k s = true
  last : s.digits % 10 ≠ 0
  fewest : ∀ t, readsAs k t = true → s.length ≤ t.length
  nearest : ∀ t, readsAs k t = true → t.length = s.length → distance k s ≤ distance k t

/-- Every finite magnitude has its shortest decimal. -/
theorem isShortest_shortest (hk : k ≠ 0) (hlt : k < overflowOrdinal) :
    IsShortest k (shortest k) := by
  have hlast := digits_shortest_mod_ten hk hlt
  obtain ⟨s, hs, ⟨extra, -, hgrid, hearlier⟩ | ⟨hnone, -⟩⟩ := exists_stripZeros k
  · have hvalue : distance k (shortest k) = distance k s := by
      rw [distance, distance, hs, Scientific.value_stripZeros]
    have hlength : (shortest k).length ≤ extra + 1 := by
      rw [hs] at hlast ⊢
      exact length_stripZeros_le (digits_of_grid? hk hlt hgrid) hlast
    -- on the grids before no decimal was found, so none there reads as the magnitude
    have hmost : ∀ t, readsAs k t = true → extra ≤ t.length - 1 := by
      intro t ht
      obtain ⟨s', hs', -⟩ := exists_grid? hk hlt ht
      by_contra hless
      rw [hearlier _ (by omega)] at hs'
      exact absurd hs' (by simp)
    refine ⟨?_, hlast, fun t ht => ?_, fun t ht hsame => ?_⟩
    · rw [readsAs, decide_eq_true_eq]
      exact ordinalOfScientific_shortest hk hlt
    · have hpos : 0 < t.length := Nat.length_toDigits_pos
      have := hmost t ht
      omega
    · obtain ⟨s', hs', hnear⟩ := exists_grid? hk hlt ht
      have hextra : t.length - 1 = extra := by
        have := hmost t ht
        omega
      rw [hextra, hgrid] at hs'
      rw [hvalue, Option.some.inj hs']
      exact hnear
  · -- with seventeen digits one is found
    obtain ⟨t, hexp, ht⟩ := exists_readsAs_seventeen hk hlt
    obtain ⟨s', hs', -⟩ := exists_nearestOnGrid? hk hlt ht hexp
    have hnever : grid? k 16 = some s' := hs'
    rw [hnone 16 (by norm_num)] at hnever
    exact absurd hnever (by simp)

end LocaleBundle.Binary64
