import LocaleBundle.Plural.Rules
import LocaleBundle.Proofs.Number.WholeDecimal

/-!
# What plural forms read of a number

A plural form looks at the operands of a number. What this takes of the plural data is `UsesOperands`.
Rules fulfil it: a rule asks of an operand, or of its remainder, only which integer it is, so two quantities
are in one category if the operands that the rule reads are the same numbers, however they are written. Of a
whole number the zeros behind the point are seen by one operand, the count `v` of visible fraction digits.
-/

namespace LocaleBundle.Plural

/-! ## The same number -/

/-- Whether two quantities are the same integer, or both none, and have such remainders. -/
def Quantity.SameNumber (q q' : Quantity) : Prop :=
  q.toNat? = q'.toNat? ∧ ∀ m, (q.mod m).map Quantity.toNat? = (q'.mod m).map Quantity.toNat?

lemma Quantity.SameNumber.refl (q : Quantity) : q.SameNumber q := ⟨rfl, fun _ => rfl⟩

variable {q q' : Quantity}

/-- What a relation asks of a quantity: the integer that its operand is, or the remainder. -/
def Relation.asked (q : Quantity) (r : Relation) : Except QuantityError (Option ℕ) :=
  match r.modulus with
  | none => .ok (r.operand.value q).toNat?
  | some m => ((r.operand.value q).mod m).map Quantity.toNat?

/-- Nothing else of the quantity decides whether the relation holds. -/
lemma Relation.holds_eq (r : Relation) : r.holds q = (r.asked q).map fun n? =>
    (n?.any fun n => r.ranges.any fun (lo, hi) => lo ≤ n && n ≤ hi) == r.isIn := by
  rw [holds, asked]
  cases r.modulus with
  | none =>
    simp only [pure_bind]
    cases (r.operand.value q).toNat? with
    | none => rfl
    | some n => rfl
  | some m =>
    simp only
    cases (r.operand.value q).mod m with
    | error e => rfl
    | ok k =>
      simp only [Bind.bind, Except.bind, Except.map]
      cases k.toNat? with
      | none => rfl
      | some n => rfl

lemma Relation.holds_congr {r : Relation}
    (h : (r.operand.value q).SameNumber (r.operand.value q')) : r.holds q = r.holds q' := by
  have hasked : r.asked q = r.asked q' := by
    rw [asked, asked]
    cases r.modulus with
    | none => exact congrArg Except.ok h.1
    | some m => exact h.2 m
  rw [holds_eq, holds_eq, hasked]

/-- Whether one of the relations is about an operand. -/
def readsIn (x : Operand) (relations : List Relation) : Bool := relations.any (·.operand = x)

/-- Whether a rule reads an operand. -/
def Rule.reads (rule : Rule) (x : Operand) : Bool := rule.any fun entry => entry.2.any (readsIn x)

lemma allHold_congr {relations : List Relation}
    (h : ∀ x, readsIn x relations = true → (x.value q).SameNumber (x.value q')) :
    allHold q relations = allHold q' relations := by
  induction relations with
  | nil => rfl
  | cons r rest ih =>
    have hfirst := Relation.holds_congr (h r.operand (by simp [readsIn]))
    have hrest := ih fun x hx => h x (by
      rw [readsIn, List.any_cons, Bool.or_eq_true]
      exact Or.inr hx)
    rw [allHold, allHold, hfirst, hrest]

lemma anyHolds_congr {condition : List (List Relation)}
    (h : ∀ x, condition.any (readsIn x) = true → (x.value q).SameNumber (x.value q')) :
    anyHolds q condition = anyHolds q' condition := by
  induction condition with
  | nil => rfl
  | cons conjunction rest ih =>
    have hfirst : allHold q conjunction = allHold q' conjunction := allHold_congr fun x hx => h x (by
      rw [List.any_cons, hx, Bool.true_or])
    have hrest := ih fun x hx => h x (by rw [List.any_cons, hx, Bool.or_true])
    rw [anyHolds, anyHolds, hfirst, hrest]

/-- The category depends on the operands that the rule reads, and on them only as numbers. -/
lemma Rule.category_congr {rule : Rule}
    (h : ∀ x, rule.reads x = true → (x.value q).SameNumber (x.value q')) :
    rule.category q = rule.category q' := by
  induction rule with
  | nil => rfl
  | cons entry rest ih =>
    have hfirst : anyHolds q entry.2 = anyHolds q' entry.2 := anyHolds_congr fun x hx => h x (by
      rw [reads, List.any_cons, hx, Bool.true_or])
    have hrest := ih fun x hx => h x (by
      rw [reads] at hx
      rw [reads, List.any_cons, hx, Bool.or_true])
    rw [category, category, hfirst, hrest]

example : Rule.english.reads .v = true ∧ Rule.turkish.reads .v = false := by decide

/-! ## Plural data that uses operands -/

/-- Whether two values are numbers of which some operands are the same. -/
def SameOperands (reads : Operand → Prop) (v w : Value) : Prop :=
  ∃ q q', Quantity.ofValue v = .ok q ∧ Quantity.ofValue w = .ok q' ∧
    ∀ x, reads x → (x.value q).SameNumber (x.value q')

/-- Whether a plural form looks at nothing else of a number than some operands. -/
def Form.LooksAt (form : Form) (reads : Operand → Prop) : Prop :=
  ∀ {v w : Value}, SameOperands reads v w → form v = form w

/-- Whether the plural forms of all locales look at the operands of a number only. -/
def Cldr.UsesOperands [Cldr] : Prop :=
  ∀ code, ∀ form ∈ Cldr.form? code, form.LooksAt fun _ => True

/-- A rule looks at the operands that it reads. -/
lemma Rule.looksAt {reads : Operand → Prop} (rule : Rule) (h : ∀ x, rule.reads x = true → reads x) :
    rule.form.LooksAt reads := by
  rintro v w ⟨q, q', hq, hq', hsame⟩
  rw [rule.form_of_ofValue hq, rule.form_of_ofValue hq']
  exact Rule.category_congr fun x hx => hsame x (h x hx)

/-- So plural data that is a list of rules uses operands. -/
lemma listed_usesOperands : @Cldr.UsesOperands listed := by
  intro code form hform
  obtain ⟨rule, -, rfl⟩ := Option.map_eq_some_iff.mp hform
  exact rule.looksAt fun _ _ => trivial

/-! ## Whole numbers -/

/-- Whether a quantity is the number `n` with so many zeros shown behind its point. -/
structure Quantity.IsWhole (q : Quantity) (n zeros : ℕ) : Prop where
  sameNumber : q.SameNumber (.whole n)
  floor : q.floor = n
  digits : q.fractionDigits = List.replicate zeros '0'

namespace Quantity

lemma isWhole_whole (n : ℕ) : (Quantity.whole n).IsWhole n 0 := ⟨.refl _, rfl, rfl⟩

variable {c n zeros zeros' : ℕ} {e : ℤ}

lemma toNat?_decimal (h : Decimal.IsNat c e n) : (Quantity.decimal c e).toNat? = some n := by
  obtain ⟨hwhole, hfloor⟩ := h.isWhole_and_floor
  rw [toNat?, if_pos hwhole, hfloor]

/-- The remainders of a whole number are those of the integer unless the quotient is too long. -/
lemma mod_decimal (h : Decimal.IsNat c e n) (hn : n < 10 ^ 28) (m : ℕ) :
    ((Quantity.decimal c e).mod m).map toNat? = .ok (some (n % m)) := by
  have hquotient : ¬ Nat.pow 10 limits.precision ≤ Decimal.floor c e / m := by
    rw [h.isWhole_and_floor.2]
    exact not_le.mpr ((Nat.div_le_self _ _).trans_lt hn)
  rw [mod, if_neg hquotient]
  by_cases he : 0 ≤ e
  · have hnat : Decimal.IsNat (n % m) 0 (n % m) := rfl
    rw [if_pos he, Nat.pow_eq, (Decimal.isNat_of_nonneg he).mp h]
    exact congrArg Except.ok (toNat?_decimal hnat)
  · have hcut := (Decimal.isNat_of_neg (by omega)).mp h
    have hnat : Decimal.IsNat (c % (m * 10 ^ e.natAbs)) e (n % m) := by
      rw [Decimal.isNat_of_neg (by omega), hcut, Nat.mul_mod_mul_right]
    rw [if_neg he]
    exact congrArg Except.ok (toNat?_decimal hnat)

/-- Of a whole number only zeros stand behind the point. -/
lemma exists_fractionDigits_decimal (h : Decimal.IsNat c e n) :
    ∃ zeros, (Quantity.decimal c e).fractionDigits = List.replicate zeros '0' := by
  by_cases he : e < 0
  · have hcut := (Decimal.isNat_of_neg he).mp h
    simp only [fractionDigits, if_pos he]
    by_cases hzero : n = 0
    · rw [h.eq_zero_iff.mpr hzero]
      refine ⟨1, ?_⟩
      have hdrop : (Decimal.digits 0).length - e.natAbs = 0 := by
        have hlen : (Decimal.digits 0).length = 1 := rfl
        omega
      rw [hdrop]
      rfl
    · refine ⟨e.natAbs, ?_⟩
      rw [hcut, Decimal.digits, Text.Numeral.ofNat_mul_pow_ten hzero, List.length_append,
        List.length_replicate, Nat.add_sub_cancel, List.drop_left]
  · exact ⟨0, by simp [fractionDigits, he]⟩

lemma exists_isWhole_decimal (h : Decimal.IsNat c e n) (hn : n < 10 ^ 28) :
    ∃ zeros, (Quantity.decimal c e).IsWhole n zeros := by
  obtain ⟨zeros, hdigits⟩ := exists_fractionDigits_decimal h
  exact ⟨zeros, ⟨toNat?_decimal h, fun m => mod_decimal h hn m⟩, h.isWhole_and_floor.2, hdigits⟩

/-- The visible fraction digits of a whole number have the value zero. -/
lemma toNat_zeros (zeros : ℕ) : Text.Numeral.toNat (List.replicate zeros '0') = 0 := by
  have hvalue := Text.Numeral.toNat_append_zeros [] zeros
  have hnone : Text.Numeral.toNat [] = 0 := rfl
  rwa [List.nil_append, hnone, Nat.zero_mul] at hvalue

lemma dropTrailingZeros_zeros (zeros : ℕ) : dropTrailingZeros (List.replicate zeros '0') = [] := by
  rw [dropTrailingZeros, List.reverse_replicate, List.dropWhile_replicate, if_pos (by decide)]
  rfl

/-- All operands but the count of visible fraction digits are read off the number. -/
lemma IsWhole.sameNumber_value (h : q.IsWhole n zeros) (h' : q'.IsWhole n zeros') {x : Operand}
    (hv : x = .v → zeros = zeros') : (x.value q).SameNumber (x.value q') := by
  cases x with
  | n => exact ⟨h.sameNumber.1.trans h'.sameNumber.1.symm,
      fun m => (h.sameNumber.2 m).trans (h'.sameNumber.2 m).symm⟩
  | i =>
    rw [Operand.value, Operand.value, h.floor, h'.floor]
    exact .refl _
  | v =>
    rw [Operand.value, Operand.value, h.digits, h'.digits, hv rfl]
    exact .refl _
  | w | t =>
    rw [Operand.value, Operand.value, h.digits, h'.digits, dropTrailingZeros_zeros,
      dropTrailingZeros_zeros]
    exact .refl _
  | f =>
    rw [Operand.value, Operand.value, h.digits, h'.digits, toNat_zeros, toNat_zeros]
    exact .refl _
  | e => exact .refl _

end Quantity

end LocaleBundle.Plural
