import LocaleBundle.Plural.Rules
import LocaleBundle.Proofs.Json.Literal
import LocaleBundle.Proofs.Logged
import LocaleBundle.Proofs.Number.Fraction

/-!
# Which numbers have a plural category

Plural forms take a number's integer part, so they give no category to a double that is not finite. Of
the numbers that a literal can be it is the only kind without one, and that only where the locale is
known. What this takes of the plural data is `ConvertsNumbers`. Rules fulfil it: a rule takes remainders,
and nothing else of what it does can fail. A whole number has every remainder, and so has the decimal of a
double with a fraction, which is small enough.
-/

namespace LocaleBundle.Plural

/-! ## Rules and remainders -/

/-- Whether a quantity has a remainder by every number. -/
def Quantity.HasRemainders (q : Quantity) : Prop := ∀ m, ∃ r, q.mod m = .ok r

namespace Quantity.HasRemainders

lemma whole (n : ℕ) : (Quantity.whole n).HasRemainders := fun m => ⟨.whole (n % m), rfl⟩

lemma decimal {c : ℕ} {e : ℤ} (h : Decimal.floor c e < 10 ^ 28) :
    (Quantity.decimal c e).HasRemainders := by
  intro m
  have hquotient : ¬ Nat.pow 10 limits.precision ≤ Decimal.floor c e / m :=
    not_le.mpr ((Nat.div_le_self _ _).trans_lt h)
  simp only [mod, if_neg hquotient]
  split
  · exact ⟨_, rfl⟩
  · exact ⟨_, rfl⟩

lemma ofDouble (k : ℕ) : (Quantity.ofDouble k).HasRemainders := by
  rw [Quantity.ofDouble]
  cases hwhole : Binary64.isWhole k with
  | true => exact whole _
  | false => exact decimal (Binary64.floor_shortest_lt hwhole)

variable {q : Quantity} (h : q.HasRemainders)

include h

/-- All operands but the number itself are whole. -/
lemma value (x : Operand) : (x.value q).HasRemainders := by
  cases x with
  | n => exact h
  | i | v | w | f | t | e => exact whole _

lemma exists_holds (r : Relation) : ∃ b, r.holds q = .ok b := by
  rw [Relation.holds]
  cases r.modulus with
  | none => exact ⟨_, rfl⟩
  | some m =>
    obtain ⟨remainder, hremainder⟩ := h.value r.operand m
    simp only [hremainder]
    exact ⟨_, rfl⟩

lemma exists_allHold (relations : List Relation) : ∃ b, allHold q relations = .ok b := by
  induction relations with
  | nil => exact ⟨true, rfl⟩
  | cons r rest ih =>
    obtain ⟨b, hb⟩ := h.exists_holds r
    rw [allHold, hb]
    cases b with
    | true => exact ih
    | false => exact ⟨false, rfl⟩

lemma exists_anyHolds (condition : List (List Relation)) : ∃ b, anyHolds q condition = .ok b := by
  induction condition with
  | nil => exact ⟨false, rfl⟩
  | cons conjunction rest ih =>
    obtain ⟨b, hb⟩ := h.exists_allHold conjunction
    rw [anyHolds, hb]
    cases b with
    | true => exact ⟨true, rfl⟩
    | false => exact ih

/-- Under every rule there is a category. -/
lemma exists_category (rule : Rule) : ∃ c, rule.category q = .ok c := by
  induction rule with
  | nil => exact ⟨.other, rfl⟩
  | cons entry rest ih =>
    obtain ⟨b, hb⟩ := h.exists_anyHolds entry.2
    rw [Rule.category, hb]
    cases b with
    | true => exact ⟨entry.1, rfl⟩
    | false => exact ih

end Quantity.HasRemainders

/-! ## The category of a literal -/

/-- The doubles that are not finite, and why they have no quantity. -/
inductive NotFinite : Value → QuantityError → Prop
  | nan : NotFinite (.float .nan) .nanDouble
  | infinity (negative : Bool) : NotFinite (.float (.infinity negative)) .infiniteDouble

variable {v : Value} {locale : String} {e : Error}

lemma NotFinite.ofValue {err : QuantityError} (h : NotFinite v err) :
    Quantity.ofValue v = .error err := by
  cases h with
  | nan => rfl
  | infinity => rfl

lemma NotFinite.isNumber {err : QuantityError} (h : NotFinite v err) : v.isNumber = true := by
  cases h with
  | nan => rfl
  | infinity => rfl

/-- A number that is a literal is an integer, a finite double or not finite. -/
lemma int_or_finite_or_notFinite (h : v.IsLiteral) (hnumber : v.isNumber = true) :
    (∃ n, v = .int n) ∨ (∃ negative k, v = .float (.finite negative k)) ∨ ∃ err, NotFinite v err := by
  cases h with
  | int n => exact Or.inl ⟨n, rfl⟩
  | float x =>
    cases x with
    | nan => exact Or.inr (Or.inr ⟨_, .nan⟩)
    | infinity negative => exact Or.inr (Or.inr ⟨_, .infinity negative⟩)
    | finite negative k => exact Or.inr (Or.inl ⟨negative, k, rfl⟩)
  | null | bool | text => exact absurd hnumber (by simp [Value.isNumber])

lemma exists_simpleCategory (h : v.IsLiteral) (hnumber : v.isNumber = true) :
    ∃ c, simpleCategory v = .ok c := by
  rcases int_or_finite_or_notFinite h hnumber with ⟨n, rfl⟩ | ⟨negative, k, rfl⟩ | ⟨err, herr⟩
  · exact ⟨_, rfl⟩
  · exact ⟨_, rfl⟩
  · cases herr with
    | nan => exact ⟨.other, rfl⟩
    | infinity => exact ⟨.other, rfl⟩

/-! ## Plural data that converts numbers -/

/-- Whether a plural form converts numbers to integers to find their category: integers and finite doubles
have one, and a double that is not finite has none because it is no integer. -/
structure Form.ConvertsNumbers (form : Form) : Prop where
  int (n : ℤ) : ∃ c, form (.int n) = .ok c
  finite (negative : Bool) (k : Fin Binary64.overflowOrdinal) :
    ∃ c, form (.float (.finite negative k)) = .ok c
  notFinite {v : Value} {err : QuantityError} (h : NotFinite v err) : form v = .error err

/-- Whether the plural forms of all locales do so. -/
def Cldr.ConvertsNumbers [Cldr] : Prop := ∀ code, ∀ form ∈ Cldr.form? code, form.ConvertsNumbers

/-- A number that is a literal has a category unless it is not finite. -/
lemma Form.ConvertsNumbers.exists_category {form : Form} (hform : form.ConvertsNumbers)
    (h : v.IsLiteral) (hnumber : v.isNumber = true) :
    (∃ c, form v = .ok c) ∨ ∃ err, NotFinite v err := by
  rcases int_or_finite_or_notFinite h hnumber with ⟨n, rfl⟩ | ⟨negative, k, rfl⟩ | hnot
  · exact Or.inl (hform.int n)
  · exact Or.inl (hform.finite negative k)
  · exact Or.inr hnot

/-- A rule converts numbers. -/
lemma Rule.convertsNumbers (rule : Rule) : rule.form.ConvertsNumbers where
  int n := by
    obtain ⟨c, hc⟩ := (Quantity.HasRemainders.whole n.natAbs).exists_category rule
    exact ⟨c, (rule.form_of_ofValue rfl).trans hc⟩
  finite negative k := by
    obtain ⟨c, hc⟩ := (Quantity.HasRemainders.ofDouble k).exists_category rule
    exact ⟨c, (rule.form_of_ofValue rfl).trans hc⟩
  notFinite h := by
    -- it fails before the rule is asked
    rw [form, h.ofValue]
    rfl

/-- So does plural data that is a list of rules. -/
lemma listed_convertsNumbers : @Cldr.ConvertsNumbers listed := by
  intro code form hform
  obtain ⟨rule, -, rfl⟩ := Option.map_eq_some_iff.mp hform
  exact rule.convertsNumbers

/-! ## Categories in a locale -/

variable [Cldr]

lemma result_categoryIn_known {form : Form} (h : formOf? locale = some form) :
    (categoryIn v locale).result = (form v).mapError .quantity := by
  simp only [categoryIn, h]
  cases form v with
  | ok c => rfl
  | error err => rfl

lemma result_categoryIn_unknown (h : formOf? locale = none) :
    (categoryIn v locale).result = (simpleCategory v).mapError .quantity := by
  simp only [categoryIn, h, Logged.record_bind]
  cases simpleCategory v with
  | ok c => rfl
  | error err => rfl

/-- Whatever has no category lacks it as a quantity. -/
lemma exists_quantity_of_categoryIn (h : (categoryIn v locale).result = .error e) :
    ∃ err, e = .quantity err := by
  have hmapped : ∀ {c : Except QuantityError Category},
      c.mapError Error.quantity = .error e → ∃ err, e = .quantity err := by
    intro c hc
    cases c with
    | ok c => exact absurd hc (by simp [Except.mapError])
    | error err => exact ⟨err, (Except.error.inj hc).symm⟩
  cases hform : formOf? locale with
  | none => exact hmapped ((result_categoryIn_unknown hform).symm.trans h)
  | some form => exact hmapped ((result_categoryIn_known hform).symm.trans h)

/-- A number that is a literal lacks a category exactly if the locale is known and it is not finite. -/
lemma categoryIn_eq_error_iff (hforms : Cldr.ConvertsNumbers) (h : v.IsLiteral)
    (hnumber : v.isNumber = true) : (categoryIn v locale).result = .error e ↔
      (formOf? locale).isSome = true ∧ ∃ err, e = .quantity err ∧ NotFinite v err := by
  cases hknown : formOf? locale with
  | none =>
    -- where the locale is unknown, doubles that are not finite are `other`
    obtain ⟨c, hc⟩ := exists_simpleCategory h hnumber
    simp [result_categoryIn_unknown hknown, hc, Except.mapError]
  | some form =>
    have hform := hforms _ form hknown
    rw [result_categoryIn_known hknown]
    simp only [Option.isSome_some, true_and]
    rcases hform.exists_category h hnumber with ⟨c, hc⟩ | ⟨err, herr⟩
    · simp only [hc, Except.mapError, reduceCtorEq, false_iff]
      rintro ⟨err, -, herr⟩
      exact absurd (hc.symm.trans (hform.notFinite herr)) (by simp)
    · rw [hform.notFinite herr]
      constructor
      · intro he
        exact ⟨err, (Except.error.inj he).symm, herr⟩
      · rintro ⟨other, rfl, hother⟩
        rw [Except.error.inj ((hform.notFinite herr).symm.trans (hform.notFinite hother))]
        rfl

end LocaleBundle.Plural
