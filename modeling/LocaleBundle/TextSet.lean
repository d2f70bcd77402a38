/-!
# Sets of texts

A set of texts is a list without duplicates, in the order in which its elements
came. Answers show such sets sorted by code points.
-/

namespace LocaleBundle.TextSet

/-- A set with one element more. -/
def adjoin (set : List String) (item : String) : List String :=
  if item ∈ set then set else set ++ [item]

/-- A set with the elements of a list. -/
def adjoinAll (set items : List String) : List String := items.foldl adjoin set

/-- The elements of a list, each at its first place. -/
def ofList (items : List String) : List String := adjoinAll [] items

/-- Texts in code point order. -/
def sort (items : List String) : List String := items.mergeSort fun a b => decide (a ≤ b)

/-- The elements of one set that are not in another. -/
def difference (set other : List String) : List String :=
  set.filter fun item => !other.contains item

theorem mem_adjoin {set : List String} {item other : String} :
    other ∈ adjoin set item ↔ other ∈ set ∨ other = item := by
  by_cases h : item ∈ set
  · simp only [adjoin, h, if_true]
    constructor
    · exact Or.inl
    · rintro (hk | rfl)
      · exact hk
      · exact h
  · simp [adjoin, h]

theorem mem_adjoinAll {set items : List String} {other : String} :
    other ∈ adjoinAll set items ↔ other ∈ set ∨ other ∈ items := by
  induction items generalizing set with
  | nil => simp [adjoinAll]
  | cons item items ih =>
    have := @ih (adjoin set item)
    simp only [adjoinAll, List.foldl_cons] at this ⊢
    simp [this, mem_adjoin, or_assoc]

@[simp] theorem mem_ofList {items : List String} {item : String} :
    item ∈ ofList items ↔ item ∈ items := by
  simp [ofList, mem_adjoinAll]

theorem nodup_adjoin {set : List String} (h : set.Nodup) (item : String) :
    (adjoin set item).Nodup := by
  by_cases hm : item ∈ set
  · simpa [adjoin, hm] using h
  · simp only [adjoin, hm, if_false]
    rw [List.nodup_append]
    exact ⟨h, by simp, fun a ha b hb => by
      simp only [List.mem_singleton] at hb
      subst hb
      exact fun heq => hm (heq ▸ ha)⟩

theorem nodup_adjoinAll {set : List String} (h : set.Nodup) (items : List String) :
    (adjoinAll set items).Nodup := by
  induction items generalizing set with
  | nil => exact h
  | cons item items ih => exact ih (nodup_adjoin h item)

/-- A set has no duplicates. -/
theorem nodup_ofList (items : List String) : (ofList items).Nodup :=
  nodup_adjoinAll List.nodup_nil items

end LocaleBundle.TextSet
