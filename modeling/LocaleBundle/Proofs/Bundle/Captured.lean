import LocaleBundle.Proofs.Bundle.Inlining
import LocaleBundle.Proofs.Template.Binding

/-!
# Captured arguments

A call captures arguments at build time, and its template is filled with them if every slot is served.
A slot with a number of an argument is, so enough arguments fill a template, as long as none of its
slots has the number zero: such a slot names no argument, however many there are, and for its sake the
whole template stays as it is.
-/

namespace LocaleBundle

open LocaleBundle.Locale

namespace Template

open Text

/-! ## The numbers of the slots -/

/-- The number of a slot; other pieces have none. -/
def Piece.number? : Piece → Option ℕ
  | .slot digits => some (digitsValue digits)
  | _ => none

/-- The numbers that are written in the slots of a template, with all their digits. -/
def slotNumbers (template : String) : List ℕ := (pieces template.toList).filterMap Piece.number?

variable {template : String} {count : ℕ}

lemma mem_slotNumbers_iff {n : ℕ} : n ∈ slotNumbers template ↔
    ∃ digits, .slot digits ∈ pieces template.toList ∧ digitsValue digits = n := by
  rw [slotNumbers, List.mem_filterMap]
  constructor
  · rintro ⟨piece, hpiece, hnumber⟩
    cases piece with
    | slot digits => exact ⟨digits, hpiece, Option.some.inj hnumber⟩
    | _ => exact absurd hnumber (by simp [Piece.number?])
  · rintro ⟨digits, hdigits, rfl⟩
    exact ⟨_, hdigits, rfl⟩

/-- With an argument for each number, every slot is served by all of its digits. -/
lemma isServed_of_slotNumbers (h : ∀ n ∈ slotNumbers template, 1 ≤ n ∧ n ≤ count) :
    isServed template count = true := by
  rw [isServed, List.all_eq_true, Int.toNat_natCast]
  intro piece hpiece
  cases piece with
  | plain c => rfl
  | dollar => rfl
  | slot digits =>
    have hnames : Names count digits := h _ (mem_slotNumbers_iff.mpr ⟨digits, hpiece, rfl⟩)
    exact isSome_bind?_iff.mpr ⟨digits, List.prefix_rfl, hnames⟩

/-- A lead of zeros is zero, so no argument serves a slot with the number zero. -/
lemma isServed_of_zero_mem (h : 0 ∈ slotNumbers template) : isServed template count = false := by
  obtain ⟨digits, hdigits, hzero⟩ := mem_slotNumbers_iff.mp h
  rw [← Bool.not_eq_true, isServed, List.all_eq_true]
  intro hall
  obtain ⟨lead, ⟨run, rfl⟩, hnames⟩ := isSome_bind?_iff.mp (hall _ hdigits)
  have hle := digitsValue_le_append lead run
  have hpos := hnames.1
  omega

end Template

namespace Bundle.Plan

open Template

/-! ## The literal of a call -/

/-- The JSON of a text. -/
def textLiteral (s : String) : String := String.ofList (Json.write .compact 0 (.text s))

/-- A call of a template whose key is not plural gets the JSON of the filled template if no slot has
the number zero and there is an argument for each number. If a slot has the number zero it gets the
JSON of the template as it is. One of the two it always gets, and the template as it is only if a slot
has the number zero or a number that is greater than that of the arguments. Slots and integers have no
more digits than are read and written, which `Text.digitsValue` assumes. -/
theorem literalFor_of_slotNumbers [Plural.Cldr] {plan : Plan} {store : Store} {locale key template : String}
    {resolved : Option Resolved} (hplural : key ∉ plan.pluralKeys)
    (hlookup : store.lookup locale key = .ok resolved)
    (htemplate : template? (foundValue resolved) key = some template) (args : List Value)
    (warned : Warned) :
    let emitted := (plan.literalFor store locale key args warned).result
    ((∀ n ∈ slotNumbers template, 1 ≤ n ∧ n ≤ args.length) →
      emitted = .ok (textLiteral (fill template args))) ∧
    (0 ∈ slotNumbers template → emitted = .ok (textLiteral template)) ∧
    (emitted = .ok (textLiteral (fill template args)) ∨
      emitted = .ok (textLiteral template) ∧
        (0 ∈ slotNumbers template ∨ ∃ n ∈ slotNumbers template, args.length < n)) := by
  intro emitted
  have hemitted : emitted = .ok (textLiteral
      (if isServed template args.length then fill template args else template)) := by
    have hends := ends_literalFor_of_template hplural hlookup htemplate args
    rw [literal_of_isJson (.text _)] at hends
    exact hends warned
  refine ⟨fun h => ?_, fun h => ?_, ?_⟩
  · rw [hemitted, if_pos (isServed_of_slotNumbers h)]
  · rw [hemitted, if_neg (by rw [isServed_of_zero_mem h]; exact Bool.false_ne_true)]
  · by_cases hserved : isServed template args.length = true
    · rw [hemitted, if_pos hserved]
      exact Or.inl rfl
    · refine Or.inr ⟨by rw [hemitted, if_neg hserved], ?_⟩
      -- otherwise every slot would be served
      by_contra hnumbers
      obtain ⟨hzero, hmany⟩ := not_or.mp hnumbers
      refine hserved (isServed_of_slotNumbers fun n hn => ⟨?_, ?_⟩)
      · exact Nat.one_le_iff_ne_zero.mpr fun h => hzero (h ▸ hn)
      · exact not_lt.mp fun hlt => hmany ⟨n, hn, hlt⟩

/-- One locale with two prices, of which one has a slot with the number zero. -/
def priced : Store :=
  (Workspace.load unfiled).state.store.putRecord "en"
    { Store.emptyRecord "en" with
      translations := [("Price", .text "$$$01 ($2)"), ("Total", .text "Fee $0, total $1")] }

/-- A number with a leading zero is that of an argument, too. -/
theorem literalFor_of_slotNumbers_price :
    "Price" ∉ (Plan.make [] none).pluralKeys ∧
    ((Plan.make [] none).literalFor priced "en" "Price" [.int 5, .text "net"] []).result
      = .ok "\"$5 (net)\"" := by
  have hplural : "Price" ∉ (Plan.make [] none).pluralKeys := List.not_mem_nil
  have hlookup : priced.lookup "en" "Price" = .ok (some ⟨.text "$$$01 ($2)", "en", "en"⟩) := rfl
  obtain ⟨hfilled, -⟩ := literalFor_of_slotNumbers hplural hlookup rfl [.int 5, .text "net"] []
  exact ⟨hplural, hfilled (by decide)⟩

/-- One argument for the number one, and the template stays as it is. -/
theorem not_filled_total : ¬ ∀ (plan : Plan) (store : Store) (locale key template : String)
    (resolved : Option Resolved), key ∉ plan.pluralKeys → store.lookup locale key = .ok resolved →
    template? (foundValue resolved) key = some template → ∀ (args : List Value) (warned : Warned),
    (∀ n ∈ slotNumbers template, n ≤ args.length) →
    (plan.literalFor store locale key args warned).result
      = .ok (textLiteral (fill template args)) := by
  intro h
  have hlookup : priced.lookup "en" "Total" = .ok (some ⟨.text "Fee $0, total $1", "en", "en"⟩) :=
    rfl
  have hfilled := h (Plan.make [] none) priced "en" "Total" _ _ List.not_mem_nil hlookup rfl
    [.int 5] [] (by decide)
  have hkept : ((Plan.make [] none).literalFor priced "en" "Total" [.int 5] []).result
      = .ok (textLiteral "Fee $0, total $1") := rfl
  exact absurd (Except.ok.inj (hfilled.symm.trans hkept)) (by decide)

end Bundle.Plan

end LocaleBundle
