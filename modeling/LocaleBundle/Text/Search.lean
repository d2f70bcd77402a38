/-!
# Searching and replacing in character lists

Every scanner of the library works on the characters of a text. This module
holds the operations they share: taking a fixed lead off a text, splitting a
text at the first occurrence of a pattern, and replacing every occurrence.
-/

namespace LocaleBundle.Text

/-- What follows `lead` in a text that starts with it. -/
def after? : List Char → List Char → Option (List Char)
  | [], s => some s
  | _ :: _, [] => none
  | p :: lead, c :: s => if p = c then after? lead s else none

/-- Whether a text starts with `lead`. -/
def startsWith (lead s : List Char) : Bool := (after? lead s).isSome

/-- The text before the first occurrence of `pat`, and the text from it on. -/
def splitAtFirst (pat : List Char) : List Char → Option (List Char × List Char)
  | [] => if pat = [] then some ([], []) else none
  | c :: s =>
    if startsWith pat (c :: s) then some ([], c :: s)
    else (splitAtFirst pat s).map fun (before, rest) => (c :: before, rest)

/-- Replaces the occurrences of `pat` after the first `skip` characters, which
are dropped: they belong to an occurrence already replaced. -/
def replaceFrom (pat new : List Char) : Nat → List Char → List Char
  | _, [] => []
  | skip + 1, _ :: s => replaceFrom pat new skip s
  | 0, c :: s =>
    if startsWith pat (c :: s) then new ++ replaceFrom pat new (pat.length - 1) s
    else c :: replaceFrom pat new 0 s

/-- Replaces every occurrence of a non-empty pattern, leftmost first and without
overlap. The inserted text is not searched again. -/
def replaceAll (pat new s : List Char) : List Char := replaceFrom pat new 0 s

/-- Whether a text ends with `tail`. -/
def endsWith (tail s : List Char) : Bool := startsWith tail.reverse s.reverse

theorem after?_append (lead rest : List Char) : after? lead (lead ++ rest) = some rest := by
  induction lead with
  | nil => rfl
  | cons p lead ih => simp [after?, ih]

/-- A text with a lead is that lead and what follows it. -/
theorem eq_append_of_after? {lead s rest : List Char} (h : after? lead s = some rest) :
    s = lead ++ rest := by
  induction lead generalizing s with
  | nil => simpa [after?] using h
  | cons p lead ih =>
    cases s with
    | nil => simp [after?] at h
    | cons c s =>
      by_cases hp : p = c
      · subst hp
        simp only [after?, if_true] at h
        simp [ih h]
      · simp [after?, hp] at h

/-- Splitting loses nothing. -/
theorem append_of_splitAtFirst {pat s before rest : List Char}
    (h : splitAtFirst pat s = some (before, rest)) : s = before ++ rest := by
  induction s generalizing before rest with
  | nil =>
    by_cases hp : pat = []
    · simp only [splitAtFirst, hp, if_true, Option.some.injEq, Prod.mk.injEq] at h
      simp [← h.1, ← h.2]
    · simp [splitAtFirst, hp] at h
  | cons c s ih =>
    by_cases hs : startsWith pat (c :: s) = true
    · simp only [splitAtFirst, hs, if_true, Option.some.injEq, Prod.mk.injEq] at h
      simp [← h.1, ← h.2]
    · simp only [splitAtFirst, hs, Bool.false_eq_true, if_false, Option.map_eq_some_iff] at h
      obtain ⟨⟨b, r⟩, hbr, heq⟩ := h
      simp only [Prod.mk.injEq] at heq
      obtain ⟨rfl, rfl⟩ := heq
      simp [ih hbr]

end LocaleBundle.Text
