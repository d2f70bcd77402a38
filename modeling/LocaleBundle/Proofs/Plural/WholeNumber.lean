import LocaleBundle.Proofs.Plural.Operands
import LocaleBundle.Proofs.Plural.Resolving
import LocaleBundle.Proofs.Template.Filling

/-!
# Plural texts of whole numbers

An integer and the decimals that are the same whole number are put into a text alike, and have the same
match key. So a table gives one text for all of them unless their categories in the locale differ. A
category may differ if the plural form of the locale looks at the count of zeros that a decimal has behind
its point, and for decimals beyond the limits of decimal arithmetic.
-/

namespace LocaleBundle

/-! ## Whole numbers -/

/-- Whether a value is the integer `n`, written as an integer or as some decimal. -/
inductive Value.IsWhole (n : ℤ) : Value → Prop
  | int : IsWhole n (.int n)
  | decimal {negative : Bool} {c size : ℕ} {e : ℤ} (h : Decimal.IsNat c e size)
    (hsign : Binary64.signed negative size = n) : IsWhole n (.decimal (.finite negative c e))

namespace Value.IsWhole

variable {v : Value} {n : ℤ} (h : v.IsWhole n)

include h

lemma isNumber : v.isNumber = true := by
  cases h with
  | int => rfl
  | decimal => rfl

lemma argumentText : v.argumentText = Text.Numeral.text n := by
  cases h with
  | int => rfl
  | decimal hnat hsign =>
    obtain ⟨hwhole, hfloor⟩ := hnat.isWhole_and_floor
    rw [Value.argumentText, if_pos hwhole, hfloor, hsign]

lemma matchKey : v.matchKey = Text.Numeral.text n := by
  cases h with
  | int => rfl
  | decimal hnat hsign => rw [Value.matchKey, hnat.isWhole_and_floor.2, hsign]

/-- A whole number of at most 28 digits is within the limits of decimal arithmetic. -/
lemma exists_quantity (hn : n.natAbs < 10 ^ 28) :
    ∃ q zeros, Plural.Quantity.ofValue v = .ok q ∧ q.IsWhole n.natAbs zeros := by
  cases h with
  | int => exact ⟨_, 0, rfl, Plural.Quantity.isWhole_whole _⟩
  | @decimal negative c size e hnat hsign =>
    have hsize : n.natAbs = size := by
      rw [← hsign, Binary64.signed]
      split
      · rw [Int.natAbs_neg, Int.natAbs_natCast]
      · rw [Int.natAbs_natCast]
    rw [hsize] at hn ⊢
    obtain ⟨c', e', hfit, hnat'⟩ : ∃ c' e', Plural.limits.fit? c e = some (c', e') ∧
        Decimal.IsNat c' e' size := hnat.exists_fit? hn (by decide) (by decide)
    obtain ⟨zeros, hwhole⟩ := Plural.Quantity.exists_isWhole_decimal hnat' hn
    refine ⟨.decimal c' e', zeros, ?_, hwhole⟩
    simp only [Plural.Quantity.ofValue, Plural.Quantity.ofDecimal, hfit]

end Value.IsWhole

namespace Plural

variable {a b v : Value} {n : ℤ} {code : String}

/-! ## Categories -/

/-- How many digits are shown behind the point, as plural forms see it. -/
def visibleDigits (v : Value) : ℕ :=
  match Quantity.ofValue v with
  | .ok q => q.fractionDigits.length
  | .error _ => 0

lemma visibleDigits_of_isWhole {q : Quantity} {size zeros : ℕ} (hq : Quantity.ofValue v = .ok q)
    (hwhole : q.IsWhole size zeros) : visibleDigits v = zeros := by
  simp only [visibleDigits, hq, hwhole.digits, List.length_replicate]

/-- Up to 28 digits, one whole number has the same operands however it is written, but for the count of
zeros shown behind the point. -/
lemma sameOperands_of_isWhole {reads : Operand → Prop} (ha : a.IsWhole n) (hb : b.IsWhole n)
    (hn : n.natAbs < 10 ^ 28) (hzeros : reads .v → visibleDigits a = visibleDigits b) :
    SameOperands reads a b := by
  obtain ⟨q, zeros, hq, hwhole⟩ := ha.exists_quantity hn
  obtain ⟨q', zeros', hq', hwhole'⟩ := hb.exists_quantity hn
  rw [visibleDigits_of_isWhole hq hwhole, visibleDigits_of_isWhole hq' hwhole'] at hzeros
  refine ⟨q, q', hq, hq', fun x hx => hwhole.sameNumber_value hwhole' ?_⟩
  rintro rfl
  exact hzeros hx

/-- Where a locale is unknown it is only asked whether the number is one. -/
lemma simpleCategory_eq_of_sameOperands (h : SameOperands (· = .n) a b) :
    simpleCategory a = simpleCategory b := by
  obtain ⟨q, q', hq, hq', hsame⟩ := h
  have hn : q.toNat? = q'.toNat? := (hsame .n rfl).1
  rw [simpleCategory, simpleCategory, hq, hq']
  simp only [hn]

section

variable [Cldr]

/-- Up to 28 digits, one whole number has one category in a locale, unless the plural form there looks at
the count of digits behind the point and these are not as many. -/
lemma categoryIn_eq_of_isWhole (huses : Cldr.UsesOperands) (ha : a.IsWhole n) (hb : b.IsWhole n)
    (hn : n.natAbs < 10 ^ 28) (hzeros : visibleDigits a = visibleDigits b ∨
      ∀ form ∈ formOf? code, form.LooksAt (· ≠ .v)) :
    (categoryIn a code).result = (categoryIn b code).result := by
  cases hform : formOf? code with
  | none =>
    -- the zeros are not looked at here
    have hsame : SameOperands (· = .n) a b := sameOperands_of_isWhole ha hb hn (absurd · (by decide))
    rw [result_categoryIn_unknown hform, result_categoryIn_unknown hform,
      simpleCategory_eq_of_sameOperands hsame]
  | some form =>
    have hlooks : form a = form b := by
      rcases hzeros with hzeros | hlooks
      · exact huses _ form hform (sameOperands_of_isWhole ha hb hn fun _ => hzeros)
      · exact hlooks form hform (sameOperands_of_isWhole ha hb hn (absurd rfl ·))
    rw [result_categoryIn_known hform, result_categoryIn_known hform, hlooks]

end

namespace Table

variable {table : Table} {rest : List Value} {key : String} {locale : Option String}

/-! ## Tables -/

/-- A table that tells one category from the others. -/
def telling (c : Category) : Table := [(c.name, .text "this"), (wildcard, .text "other")]

lemma contains_telling (n : ℤ) (c : Category) :
    Entries.contains (Text.Numeral.text n) (telling c) = false := by
  have hname : Text.Numeral.text n ≠ c.name := by
    cases c with
    | zero | one | two | few | many | other => exact Text.Numeral.text_ne rfl rfl (by decide)
  have hwild : Text.Numeral.text n ≠ wildcard := Text.Numeral.text_ne rfl rfl (by decide)
  rw [Entries.contains, telling, Entries.get?_cons, if_neg hname.symm, Entries.get?_cons,
    if_neg hwild.symm]
  rfl

section

variable [Cldr]

/-- The search for a number starts at its match key, else at its category, else at the wildcard. -/
lemma result_start (hnumber : v.isNumber = true) : (table.start v locale).result =
    if Entries.contains v.matchKey table then .ok (some v.matchKey)
    else
      let otherwise := if Entries.contains wildcard table then some wildcard else none
      match locale with
      | none => .ok otherwise
      | some code => (categoryIn v code).result.map fun c =>
        if Entries.contains c.name table then some c.name else otherwise := by
  cases v with
  | null => exact absurd hnumber (by simp [Value.isNumber])
  | _ =>
    simp only [start, startAmong]
    split
    · rfl
    · cases locale with
      | none => rfl
      | some code =>
        simp only [Logged.result_bind]
        rfl

/-- Values that start alike and are written alike give the same text. -/
lemma resolve_congr (hstart : (table.start a locale).result = (table.start b locale).result)
    (htext : a.argumentText = b.argumentText) :
    (table.resolve (a :: rest) key locale).result =
      (table.resolve (b :: rest) key locale).result := by
  have hselect : (table.select a locale).result = (table.select b locale).result := by
    rw [select, select, Logged.result_bind, Logged.result_bind, hstart]
  have hfill : ∀ template, Template.fill template (a :: rest) = Template.fill template (b :: rest) :=
    fun template => Template.fill_congr template (by rw [List.map_cons, List.map_cons, htext])
  rw [resolve, resolve, Logged.result_bind, Logged.result_bind, List.head?_cons, List.head?_cons,
    Option.getD_some, Option.getD_some, hselect]
  refine congrArg ((table.select b locale).result >>= ·) (funext fun selected => ?_)
  cases selected with
  | none => exact congrArg Except.ok (hfill key)
  | some template => exact congrArg Except.ok (hfill template)

lemma resolve_telling (hv : v.IsWhole n) (c : Category) :
    ((telling c).resolve (v :: rest) key (some code)).result =
      (categoryIn v code).result.map fun d => if d = c then "this" else "other" := by
  have hstart : ((telling c).start v (some code)).result = _ := result_start hv.isNumber
  rw [hv.matchKey, contains_telling] at hstart
  simp only [Bool.false_eq_true, if_false] at hstart
  rw [resolve, Logged.result_bind, List.head?_cons, Option.getD_some, select, Logged.result_bind,
    hstart]
  cases (categoryIn v code).result with
  | error e => rfl
  | ok d => cases c <;> cases d <;> rfl

/-- What a value gives by all those tables tells its category. -/
lemma categoryIn_eq_of_telling (ha : a.IsWhole n) (hb : b.IsWhole n)
    (h : ∀ c, ((telling c).resolve (a :: rest) key (some code)).result =
      ((telling c).resolve (b :: rest) key (some code)).result) :
    (categoryIn a code).result = (categoryIn b code).result := by
  simp only [resolve_telling ha, resolve_telling hb] at h
  cases hleft : (categoryIn a code).result with
  | error e =>
    have hfails := h .other
    rw [hleft] at hfails
    cases hright : (categoryIn b code).result with
    | error e' =>
      rw [hright] at hfails
      rw [Except.error.inj hfails]
    | ok d =>
      rw [hright] at hfails
      exact absurd hfails (by simp [Except.map])
  | ok c =>
    have htells := h c
    rw [hleft] at htells
    cases hright : (categoryIn b code).result with
    | error e =>
      rw [hright] at htells
      exact absurd htells (by simp [Except.map])
    | ok d =>
      rw [hright] at htells
      have htext : (if c = c then "this" else "other") = if d = c then "this" else "other" :=
        Except.ok.inj htells
      rw [if_pos rfl] at htext
      by_cases hd : d = c
      · rw [hd]
      · rw [if_neg hd] at htext
        exact absurd htext (by decide)

/-- Integers and decimals that are the same whole number have the same text and match key, so a table
gives the same for them without a locale, and where it has the match key. In a locale all tables do so
exactly if their categories are the same. Under all plural data that uses operands they are, up to 28
digits, unless the plural form of the locale looks at the count of digits behind the point and these are
not as many. Whole numbers are assumed to have no more digits than are written (see
`Value.argumentText`). -/
theorem resolve_of_isWhole (huses : Cldr.UsesOperands) (ha : a.IsWhole n) (hb : b.IsWhole n) :
    (∀ (table : Table) rest key locale, (∀ code ∈ locale, Text.Numeral.text n ∈ Entries.keys table) →
      (table.resolve (a :: rest) key locale).result =
        (table.resolve (b :: rest) key locale).result) ∧
    ∀ code,
      ((∀ (table : Table) rest key, (table.resolve (a :: rest) key (some code)).result =
          (table.resolve (b :: rest) key (some code)).result) ↔
        (categoryIn a code).result = (categoryIn b code).result) ∧
      (n.natAbs < 10 ^ 28 →
        (visibleDigits a = visibleDigits b ∨ ∀ form ∈ formOf? code, form.LooksAt (· ≠ .v)) →
        (categoryIn a code).result = (categoryIn b code).result) := by
  have htext : a.argumentText = b.argumentText := ha.argumentText.trans hb.argumentText.symm
  refine ⟨fun table rest key locale hlocale => ?_, fun code => ⟨⟨fun hall => ?_, fun hcategory => ?_⟩,
    categoryIn_eq_of_isWhole huses ha hb⟩⟩
  · refine resolve_congr ?_ htext
    rw [result_start ha.isNumber, result_start hb.isNumber, ha.matchKey, hb.matchKey]
    cases locale with
    | none => rfl
    | some code =>
      have hthere := Entries.contains_iff_mem_keys.mpr (hlocale code rfl)
      rw [if_pos hthere, if_pos hthere]
  · exact categoryIn_eq_of_telling ha hb fun c => hall (telling c) [] ""
  · intro table rest key
    refine resolve_congr ?_ htext
    rw [result_start ha.isNumber, result_start hb.isNumber, ha.matchKey, hb.matchKey]
    simp only [hcategory]

end

/-- The integer one, and one with a fraction of two zeros. -/
def one : Value := .int 1
def oneWithCents : Value := .decimal (.finite false 100 (-2))

lemma isWhole_one : one.IsWhole 1 := .int

lemma isWhole_oneWithCents : oneWithCents.IsWhole 1 :=
  .decimal ((Decimal.isNat_of_neg (by decide)).mpr (Nat.one_mul (10 ^ 2)).symm) rfl

theorem resolve_of_isWhole_one : one.IsWhole 1 ∧ oneWithCents.IsWhole 1 ∧
    (categoryIn one "tr").result = (categoryIn oneWithCents "tr").result ∧
    ∀ (table : Table) rest key, (table.resolve (one :: rest) key (some "tr")).result =
      (table.resolve (oneWithCents :: rest) key (some "tr")).result := by
  obtain ⟨hiff, hsmall⟩ :=
    (resolve_of_isWhole listed_usesOperands isWhole_one isWhole_oneWithCents).2 "tr"
  have hform : formOf? "tr" = some (Rule.form .turkish) := rfl
  have hcategory := hsmall (by decide) (Or.inr fun form hmem => by
    obtain rfl := Option.some.inj (hform.symm.trans hmem)
    exact Rule.looksAt _ fun x hx => by
      rintro rfl
      exact absurd hx (by decide))
  exact ⟨isWhole_one, isWhole_oneWithCents, hcategory, hiff.mpr hcategory⟩

/-- A table with two categories, and a great number. -/
def items : Table := [("one", .text "$1 item"), ("other", .text "$1 items")]
def tenToTheForty : Value := .decimal (.finite false 1 40)

lemma isWhole_tenToTheForty : tenToTheForty.IsWhole (10 ^ 40) :=
  .decimal ((Decimal.isNat_of_nonneg (by decide)).mpr (Nat.one_mul (10 ^ 40)))
    (by norm_num [Binary64.signed])

/-- The zeros of one are counted in English though they are not shown, and a decimal beyond the limits
has no remainder. -/
theorem resolve_trailingZeros :
    (items.resolve [one] "$1 items" (some "en")).result = .ok "1 item" ∧
    (items.resolve [oneWithCents] "$1 items" (some "en")).result = .ok "1 items" ∧
    tenToTheForty.IsWhole (10 ^ 40) ∧
    (items.resolve [.int (10 ^ 40)] "$1 items" (some "ar")).result =
      .ok "10000000000000000000000000000000000000000 items" ∧
    (items.resolve [tenToTheForty] "$1 items" (some "ar")).result =
      .error (.quantity .quotientTooLong) :=
  ⟨rfl, rfl, isWhole_tenToTheForty, rfl, rfl⟩

end Table

end Plural

end LocaleBundle
