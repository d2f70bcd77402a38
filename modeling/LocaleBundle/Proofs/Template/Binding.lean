import LocaleBundle.Template
import LocaleBundle.Proofs.Text.DecimalDigit

/-!
# Which argument a slot names

`bind?` takes the longest lead of a slot's digits that is the number of an argument. Whatever
lead is such a number, the one taken is at least as long. A slot is served if there is one, and then
it is served by more arguments as well.
-/

namespace LocaleBundle.Template

open Text

/-- Whether digits are the number of one of `count` arguments. -/
def Names (count : ℕ) (lead : List Char) : Prop :=
  1 ≤ digitsValue lead ∧ digitsValue lead ≤ count

lemma bindUpTo?_succ_of_names {count cut : ℕ} {digits : List Char}
    (h : Names count (digits.take (cut + 1))) :
    bindUpTo? count digits (cut + 1) =
      some (digitsValue (digits.take (cut + 1)) - 1, digits.drop (cut + 1)) := by
  have htest : (decide (1 ≤ digitsValue (digits.take (cut + 1))) &&
      decide (digitsValue (digits.take (cut + 1)) ≤ count)) = true := by
    rw [Bool.and_eq_true, decide_eq_true_eq, decide_eq_true_eq]
    exact h
  rw [bindUpTo?]
  exact if_pos htest

lemma bindUpTo?_succ_of_not_names {count cut : ℕ} {digits : List Char}
    (h : ¬ Names count (digits.take (cut + 1))) :
    bindUpTo? count digits (cut + 1) = bindUpTo? count digits cut := by
  have htest : ¬ (decide (1 ≤ digitsValue (digits.take (cut + 1))) &&
      decide (digitsValue (digits.take (cut + 1)) ≤ count)) = true := by
    rw [Bool.and_eq_true, decide_eq_true_eq, decide_eq_true_eq]
    exact h
  rw [bindUpTo?]
  exact if_neg htest

/-- A lead that no longer one beats is the one taken. -/
lemma bindUpTo?_of_longest {count m : ℕ} {digits : List Char}
    (hnames : Names count (digits.take (m + 1))) (cut : ℕ) (hcut : m < cut)
    (hlonger : ∀ j, m < j → j < cut → ¬ Names count (digits.take (j + 1))) :
    bindUpTo? count digits cut =
      some (digitsValue (digits.take (m + 1)) - 1, digits.drop (m + 1)) := by
  induction cut with
  | zero => omega
  | succ cut ih =>
    by_cases hm : m = cut
    · rw [← hm, bindUpTo?_succ_of_names hnames]
    · rw [bindUpTo?_succ_of_not_names (hlonger cut (by omega) (by omega))]
      exact ih (by omega) fun j hj hjc => hlonger j hj (by omega)

/-- If some lead names an argument, then one at least as long is taken. -/
lemma exists_bindUpTo? {count m : ℕ} {digits : List Char}
    (hnames : Names count (digits.take (m + 1))) (cut : ℕ) (hcut : m < cut) :
    ∃ j, m ≤ j ∧ bindUpTo? count digits cut =
      some (digitsValue (digits.take (j + 1)) - 1, digits.drop (j + 1)) := by
  induction cut with
  | zero => omega
  | succ cut ih =>
    by_cases hlast : Names count (digits.take (cut + 1))
    · exact ⟨cut, by omega, bindUpTo?_succ_of_names hlast⟩
    · have hm : m ≠ cut := by
        rintro rfl
        exact hlast hnames
      rw [bindUpTo?_succ_of_not_names hlast]
      exact ih (by omega)

/-- The digits after a lead are all left over when no longer lead names an argument. -/
lemma bind?_append_of_longest {count : ℕ} {lead : List Char} (hlead : lead ≠ [])
    (hnames : Names count lead) (run : List Char)
    (hlonger : ∀ taken, taken ≠ [] → taken <+: run → ¬ Names count (lead ++ taken)) :
    bind? count (lead ++ run) = some (digitsValue lead - 1, run) := by
  have hpos : lead.length - 1 + 1 = lead.length :=
    Nat.sub_add_cancel (List.length_pos_iff.mpr hlead)
  have htake : (lead ++ run).take (lead.length - 1 + 1) = lead := by rw [hpos, List.take_left]
  have hdrop : (lead ++ run).drop (lead.length - 1 + 1) = run := by rw [hpos, List.drop_left]
  have hlead' : Names count ((lead ++ run).take (lead.length - 1 + 1)) := by rwa [htake]
  have hlonger' : ∀ j, lead.length - 1 < j → j < (lead ++ run).length →
      ¬ Names count ((lead ++ run).take (j + 1)) := by
    intro j hj hjc
    rw [List.length_append] at hjc
    rw [List.take_append, List.take_of_length_le (by omega)]
    refine hlonger _ ?_ (List.take_prefix _ _)
    apply List.ne_nil_of_length_pos
    rw [List.length_take]
    omega
  have hbind := bindUpTo?_of_longest hlead' (lead ++ run).length
    (by rw [List.length_append]; omega) hlonger'
  rwa [htake, hdrop] at hbind

/-- Behind a lead that names an argument only digits of the run are left over. -/
lemma exists_bind?_append {count : ℕ} {lead : List Char} (hlead : lead ≠ [])
    (hnames : Names count lead) (run : List Char) :
    ∃ taken left, run = taken ++ left ∧
      bind? count (lead ++ run) = some (digitsValue (lead ++ taken) - 1, left) := by
  have hpos : lead.length - 1 + 1 = lead.length :=
    Nat.sub_add_cancel (List.length_pos_iff.mpr hlead)
  have hlead' : Names count ((lead ++ run).take (lead.length - 1 + 1)) := by
    rwa [hpos, List.take_left]
  obtain ⟨j, hj, hbind⟩ := exists_bindUpTo? hlead' (lead ++ run).length
    (by rw [List.length_append]; omega)
  refine ⟨run.take (j + 1 - lead.length), run.drop (j + 1 - lead.length),
    (List.take_append_drop _ _).symm, ?_⟩
  rw [bind?, hbind, List.take_append, List.take_of_length_le (by omega), List.drop_append,
    List.drop_eq_nil_of_le (by omega), List.nil_append]

/-! ## What a slot is bound to -/

section

variable {count index : ℕ} {digits lead rest : List Char}

lemma Names.ne_nil (h : Names count lead) : lead ≠ [] := by
  rintro rfl
  exact absurd h.1 (by decide)

lemma Names.mono {more : ℕ} (h : Names count lead) (hmore : count ≤ more) : Names more lead :=
  ⟨h.1, h.2.trans hmore⟩

/-- Whether a lead of a slot's digits is the longest that names an argument, and which digits are left
over behind it. -/
structure IsBound (count : ℕ) (digits lead rest : List Char) : Prop where
  whole : digits = lead ++ rest
  names : Names count lead
  longest : ∀ other, other <+: digits → Names count other → other.length ≤ lead.length

/-- The lead that was taken names an argument, and no longer one that was tried does. -/
lemma exists_of_bindUpTo?_eq_some {cut : ℕ} (h : bindUpTo? count digits cut = some (index, rest)) :
    ∃ m < cut, Names count (digits.take (m + 1)) ∧
      index = digitsValue (digits.take (m + 1)) - 1 ∧ rest = digits.drop (m + 1) ∧
      ∀ j, m < j → j < cut → ¬ Names count (digits.take (j + 1)) := by
  induction cut with
  | zero => exact absurd h (by simp [bindUpTo?])
  | succ cut ih =>
    by_cases hnames : Names count (digits.take (cut + 1))
    · rw [bindUpTo?_succ_of_names hnames] at h
      obtain ⟨rfl, rfl⟩ := Prod.mk.inj (Option.some.inj h)
      exact ⟨cut, by omega, hnames, rfl, rfl, fun j hj hjc => absurd hjc (by omega)⟩
    · rw [bindUpTo?_succ_of_not_names hnames] at h
      obtain ⟨m, hm, hlead, hindex, hrest, hlonger⟩ := ih h
      refine ⟨m, by omega, hlead, hindex, hrest, fun j hj hjc => ?_⟩
      by_cases hlast : j = cut
      · rwa [hlast]
      · exact hlonger j hj (by omega)

lemma bind?_eq_some_iff : bind? count digits = some (index, rest) ↔
    ∃ lead, IsBound count digits lead rest ∧ index = digitsValue lead - 1 := by
  constructor
  · intro h
    obtain ⟨m, hm, hnames, hindex, rfl, hlonger⟩ := exists_of_bindUpTo?_eq_some h
    refine ⟨_, ⟨(List.take_append_drop _ _).symm, hnames, fun other hother hnamed => ?_⟩, hindex⟩
    -- a longer lead was tried before
    by_contra hlong
    rw [List.length_take] at hlong
    have hlen := hother.length_le
    have hcut : digits.take (other.length - 1 + 1) = other := by
      rw [Nat.sub_add_cancel (by omega)]
      exact (List.prefix_iff_eq_take.mp hother).symm
    exact hlonger (other.length - 1) (by omega) (by omega) (by rwa [hcut])
  · rintro ⟨lead, hbound, rfl⟩
    rw [hbound.whole]
    refine bind?_append_of_longest hbound.names.ne_nil hbound.names rest
      fun taken hne htaken hnames => ?_
    have hother : lead ++ taken <+: digits := by
      rw [hbound.whole]
      exact List.prefix_append_right_inj lead |>.mpr htaken
    have hlong := hbound.longest _ hother hnames
    rw [List.length_append] at hlong
    have hpos := List.length_pos_iff.mpr hne
    omega

/-- A slot is served exactly if a lead of its digits names an argument. -/
lemma isSome_bind?_iff : (bind? count digits).isSome = true ↔
    ∃ lead, lead <+: digits ∧ Names count lead := by
  constructor
  · intro h
    obtain ⟨bound, hbind⟩ := Option.isSome_iff_exists.mp h
    obtain ⟨lead, hbound, -⟩ := bind?_eq_some_iff.mp hbind
    exact ⟨lead, ⟨_, hbound.whole.symm⟩, hbound.names⟩
  · rintro ⟨lead, ⟨run, rfl⟩, hnames⟩
    obtain ⟨taken, left, -, hbind⟩ := exists_bind?_append hnames.ne_nil hnames run
    rw [hbind]
    rfl

end

end LocaleBundle.Template
