import LocaleBundle.Proofs.Bundle.Inlining
import LocaleBundle.Proofs.Key.Serving

/-!
# Keys without a translation

Where a locale has no translation for a key, the key's own text is put in, and it is a template as any
translation. It is left as it is as long as a slot is not served. Nine arguments serve the slots of
every key; a key with ten slots is then filled, and lacks an argument.
-/

namespace LocaleBundle.Bundle.Plan

open LocaleBundle.Locale

variable {store : Store} {locale key : String}

/-- A call whose key has no translation gets the JSON of a text, whatever its arguments. -/
lemma literalFor_of_missing [Plural.Cldr] {plan : Plan} (hplural : key ∉ plan.pluralKeys)
    (hmissing : store.lookup locale key = .ok none) (args : List Value) :
    ∃ text, Job.Ends (.ok text) (plan.literalFor store locale key args) ∧
      Json.readDocument text.toList = .ok
        (.text (if Template.isServed key args.length then Template.fill key args else key)) := by
  have hliteral := literal_of_isJson
    (.text (if Template.isServed key args.length then Template.fill key args else key))
  have hends := ends_literalFor_of_template hplural hmissing rfl args
  rw [hliteral] at hends
  exact ⟨_, hends, readDocument_literal (.text _) hliteral⟩

/-- A key is served once each slot has its own argument, or once there are nine arguments, however
many slots it has. A call whose key has no translation and is not plural gets the JSON of the key as
it is if there are fewer arguments than slots, and fewer than nine; else that of the filled key. No
run of digits in the key is longer than the limit that `Text.digitsValue` leaves out. -/
theorem literalFor_ofSegments [Plural.Cldr] {segments : List String} (hne : segments ≠ []) :
    let key := Key.ofSegments segments
    (∀ count : ℕ, Template.isServed key count = true ↔ segments.length - 1 ≤ count ∨ 9 ≤ count) ∧
    ∀ (plan : Plan) (store : Store) (locale : String), key ∉ plan.pluralKeys →
      store.lookup locale key = .ok none → ∀ args warned, ∃ text,
        (plan.literalFor store locale key args warned).result = .ok text ∧
        Json.readDocument text.toList = .ok (.text
          (if args.length < segments.length - 1 ∧ args.length < 9 then key
            else Template.fill key args)) := by
  intro key
  have hserved : ∀ count : ℕ, Template.isServed key count = true ↔
      segments.length - 1 ≤ count ∨ 9 ≤ count := by
    intro count
    rw [Key.isServed_ofSegments_iff hne, min_le_iff]
  refine ⟨hserved, fun plan store locale hplural hmissing args warned => ?_⟩
  obtain ⟨text, hends, hread⟩ := literalFor_of_missing hplural hmissing args
  refine ⟨text, hends warned, ?_⟩
  by_cases hargs : segments.length - 1 ≤ args.length ∨ 9 ≤ args.length
  · rw [hread, if_pos ((hserved _).mpr hargs), if_neg (by omega)]
  · rw [hread, if_neg (mt (hserved _).mp hargs), if_pos (by omega)]

/-- The segments of a key of ten slots with no text in between. -/
def tenSlots : List String := List.replicate 11 ""

theorem literalFor_ofSegments_unfiled : tenSlots ≠ [] ∧
    (Workspace.load unfiled).state.store.lookup "en" (Key.ofSegments tenSlots) = .ok none ∧
    ∃ text, (Plan.literalFor ⟨[], none⟩ (Workspace.load unfiled).state.store "en"
        (Key.ofSegments tenSlots) (List.replicate 8 (.int 7)) []).result = .ok text ∧
      Json.readDocument text.toList = .ok (.text "$1$2$3$4$5$6$7$8$9$10") := by
  have hne : tenSlots ≠ [] := by decide
  have hmissing : (Workspace.load unfiled).state.store.lookup "en" (Key.ofSegments tenSlots)
      = .ok none := rfl
  obtain ⟨-, htext⟩ := literalFor_ofSegments hne
  exact ⟨hne, hmissing, htext ⟨[], none⟩ _ _ (by decide) hmissing (List.replicate 8 (.int 7)) []⟩

/-- Nine arguments serve ten slots. -/
theorem not_served_iff_tenSlots : ¬ ∀ segments : List String, segments ≠ [] → ∀ count : ℕ,
    Template.isServed (Key.ofSegments segments) count = true ↔ segments.length - 1 ≤ count := by
  intro h
  have hserved : Template.isServed (Key.ofSegments tenSlots) 9 = true := by decide
  have hten : tenSlots.length - 1 ≤ 9 := (h tenSlots (by decide) 9).mp hserved
  exact absurd hten (by decide)

end LocaleBundle.Bundle.Plan
