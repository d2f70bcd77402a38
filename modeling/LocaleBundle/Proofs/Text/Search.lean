import LocaleBundle.Text.Search
import Mathlib.Data.List.Infix

/-!
# What searching a text finds

`after?` and `startsWith` are about prefixes, and `splitAtFirst` cuts a text at the first
occurrence of a pattern. A pattern whose last character stands nowhere else in it cannot overlap
itself, so putting it after a text makes no earlier occurrence. A character that a pattern does not
have keeps the occurrences on its two sides apart. `Replaced` says what replacing every occurrence
means.
-/

namespace LocaleBundle.Text

lemma startsWith_append (lead rest : List Char) : startsWith lead (lead ++ rest) = true := by
  rw [startsWith, after?_append]
  rfl

lemma startsWith_iff {lead s : List Char} : startsWith lead s = true ↔ lead <+: s := by
  constructor
  · intro h
    obtain ⟨rest, hrest⟩ := Option.isSome_iff_exists.mp h
    exact ⟨rest, (eq_append_of_after? hrest).symm⟩
  · rintro ⟨rest, rfl⟩
    exact startsWith_append lead rest

/-- A text does not start with a pattern whose first character is another one. -/
lemma startsWith_cons_of_ne {p c : Char} (h : p ≠ c) (lead s : List Char) :
    startsWith (p :: lead) (c :: s) = false := by
  rw [startsWith, after?, if_neg h]
  rfl

/-! ## The first occurrence -/

/-- A text without the pattern is not cut. -/
lemma splitAtFirst_eq_none {pat s : List Char} (h : ¬ pat <:+: s) : splitAtFirst pat s = none := by
  induction s with
  | nil =>
    have hne : pat ≠ [] := by
      rintro rfl
      exact h List.nil_infix
    unfold splitAtFirst
    rw [if_neg hne]
  | cons c s ih =>
    have hstart : ¬ startsWith pat (c :: s) = true := fun hstart =>
      h (startsWith_iff.mp hstart).isInfix
    have htail : ¬ pat <:+: s := fun htail => h (List.infix_cons htail)
    unfold splitAtFirst
    rw [if_neg hstart, ih htail]
    rfl

/-- A text that is not cut does not have the pattern. -/
lemma not_infix_of_splitAtFirst_eq_none {pat s : List Char} (h : splitAtFirst pat s = none) :
    ¬ pat <:+: s := by
  induction s with
  | nil =>
    intro hinfix
    rw [splitAtFirst, if_pos (List.infix_nil.mp hinfix)] at h
    exact absurd h (by simp)
  | cons c s ih =>
    unfold splitAtFirst at h
    by_cases hstart : startsWith pat (c :: s) = true
    · rw [if_pos hstart] at h
      exact absurd h (by simp)
    · rw [if_neg hstart, Option.map_eq_none_iff] at h
      intro hinfix
      rcases List.infix_cons_iff.mp hinfix with hpre | hinfix
      · exact hstart (startsWith_iff.mpr hpre)
      · exact ih h hinfix

/-- A text is cut where the pattern starts, and the pattern does not stand before. -/
lemma exists_of_splitAtFirst_eq_some {pat s before rest : List Char} (hpat : pat ≠ [])
    (h : splitAtFirst pat s = some (before, rest)) :
    ¬ pat <:+: before ∧ ∃ after, rest = pat ++ after := by
  induction s generalizing before with
  | nil =>
    rw [splitAtFirst, if_neg hpat] at h
    exact absurd h (by simp)
  | cons c s ih =>
    have hwhole := append_of_splitAtFirst h
    unfold splitAtFirst at h
    by_cases hstart : startsWith pat (c :: s) = true
    · rw [if_pos hstart] at h
      obtain ⟨rfl, rfl⟩ := Prod.mk.inj (Option.some.inj h)
      obtain ⟨after, hafter⟩ := startsWith_iff.mp hstart
      exact ⟨fun hinfix => hpat (List.infix_nil.mp hinfix), after, hafter.symm⟩
    · rw [if_neg hstart] at h
      obtain ⟨⟨tail, rest'⟩, htail, hsame⟩ := Option.map_eq_some_iff.mp h
      obtain ⟨rfl, rfl⟩ := Prod.mk.inj hsame
      obtain ⟨hnot, hafter⟩ := ih htail
      refine ⟨fun hinfix => ?_, hafter⟩
      rcases List.infix_cons_iff.mp hinfix with hpre | hinfix
      · -- an occurrence at the start would have been found first
        apply hstart
        rw [hwhole]
        exact startsWith_iff.mpr (hpre.trans (List.prefix_append _ _))
      · exact hnot hinfix

/-- An occurrence that starts before the pattern ends before it. -/
lemma prefix_of_prefix_append {body u s : List Char} {c : Char} (hc : c ∉ body) (hu : u ≠ [])
    (h : body ++ [c] <+: u ++ (body ++ [c] ++ s)) : body ++ [c] <+: u := by
  by_cases hlen : (body ++ [c]).length ≤ u.length
  · exact List.prefix_of_prefix_length_le h (List.prefix_append _ _) hlen
  · -- otherwise the last character of the occurrence is one of the pattern's body
    exfalso
    have hpos : 0 < u.length := List.length_pos_of_ne_nil hu
    rw [List.length_append, List.length_singleton] at hlen
    have hlast : (body ++ [c])[body.length]? = some c := by simp
    have hinside : (u ++ (body ++ [c] ++ s))[body.length]? = body[body.length - u.length]? := by
      rw [List.getElem?_append_right (by omega), List.append_assoc,
        List.getElem?_append_left (by omega)]
    have hsame := List.prefix_iff_getElem?.mp h body.length (by simp)
    rw [hinside, List.getElem_append_right (Nat.le_refl _)] at hsame
    exact hc (List.mem_of_getElem? (by simpa using hsame))

/-- A pattern that does not overlap itself is found right after a text without it. -/
lemma splitAtFirst_append {body t : List Char} {c : Char} (hc : c ∉ body)
    (ht : ¬ body ++ [c] <:+: t) (s : List Char) :
    splitAtFirst (body ++ [c]) (t ++ (body ++ [c] ++ s)) = some (t, body ++ [c] ++ s) := by
  induction t with
  | nil =>
    obtain ⟨d, tail, hcons⟩ : ∃ d tail, body ++ [c] ++ s = d :: tail :=
      List.exists_cons_of_ne_nil (by simp)
    have hstart : startsWith (body ++ [c]) (d :: tail) = true := by
      rw [← hcons]
      exact startsWith_append _ s
    rw [List.nil_append, hcons, splitAtFirst, if_pos hstart]
  | cons d t ih =>
    have hstart : ¬ startsWith (body ++ [c]) (d :: t ++ (body ++ [c] ++ s)) = true := by
      intro hstart
      have hpre := startsWith_iff.mp hstart
      exact ht (prefix_of_prefix_append hc (List.cons_ne_nil d t) hpre).isInfix
    have htail : ¬ body ++ [c] <:+: t := fun htail => ht (List.infix_cons htail)
    rw [List.cons_append] at hstart ⊢
    rw [splitAtFirst, if_neg hstart, ih htail]
    rfl

/-! ## Beside a character -/

/-- An occurrence of a pattern without some character lies before that character or behind it. -/
lemma occurrence_beside {pat u v before after : List Char} {c : Char} (hc : c ∉ pat)
    (h : u ++ c :: v = before ++ (pat ++ after)) :
    (∃ between, u = before ++ (pat ++ between) ∧ after = between ++ c :: v) ∨
      ∃ between, before = u ++ c :: between ∧ v = between ++ (pat ++ after) := by
  rcases List.append_eq_append_iff.mp h with ⟨more, rfl, hmore⟩ | ⟨more, rfl, hmore⟩
  · cases more with
    | nil =>
      cases pat with
      | nil => exact Or.inl ⟨[], by simp, hmore.symm⟩
      | cons d pat =>
        obtain rfl : c = d := (List.cons.inj hmore).1
        exact absurd List.mem_cons_self hc
    | cons d more =>
      obtain ⟨rfl, hv⟩ := List.cons.inj hmore
      exact Or.inr ⟨more, rfl, hv⟩
  · rcases List.append_eq_append_iff.mp hmore with ⟨between, rfl, hafter⟩ | ⟨tail, rfl, htail⟩
    · exact Or.inl ⟨between, rfl, hafter⟩
    · cases tail with
      | nil => exact Or.inl ⟨[], by simp, htail.symm⟩
      | cons d tail =>
        obtain rfl : c = d := (List.cons.inj htail).1
        exact absurd (List.mem_append_right more List.mem_cons_self) hc

lemma infix_beside {pat u v : List Char} {c : Char} (hc : c ∉ pat) (h : pat <:+: u ++ c :: v) :
    pat <:+: u ∨ pat <:+: v := by
  obtain ⟨before, after, h⟩ := h
  rw [List.append_assoc] at h
  rcases occurrence_beside hc h.symm with ⟨between, rfl, -⟩ | ⟨between, -, rfl⟩
  · exact Or.inl (List.infix_append' before pat between)
  · exact Or.inr (List.infix_append' between pat after)

/-! ## Replacing -/

/-- `Replaced pat new s t`: in `t` the occurrences of `pat` in `s` are replaced by `new`, leftmost
first and without overlap. In each step no occurrence ends before the one that is replaced. -/
inductive Replaced (pat new : List Char) : List Char → List Char → Prop
  | rest {s : List Char} (h : ¬ pat <:+: s) : Replaced pat new s s
  | next {before s t : List Char} (hfirst : ¬ pat <:+: before ++ pat.dropLast)
    (hs : Replaced pat new s t) : Replaced pat new (before ++ pat ++ s) (before ++ new ++ t)

/-- A character that starts no occurrence is kept. -/
lemma Replaced.cons {pat new s t : List Char} {c : Char} (hc : ¬ pat <+: c :: s)
    (hs : Replaced pat new s t) : Replaced pat new (c :: s) (c :: t) := by
  cases hs with
  | rest h =>
    refine .rest fun hinfix => ?_
    rcases List.infix_cons_iff.mp hinfix with hpre | hinfix
    · exact hc hpre
    · exact h hinfix
  | @next before s t hfirst hs =>
    have hfirst' : ¬ pat <:+: c :: before ++ pat.dropLast := by
      intro hinfix
      rw [List.cons_append] at hinfix
      rcases List.infix_cons_iff.mp hinfix with hpre | hinfix
      · -- the pattern without its last character is a prefix of the pattern
        have hdrop : c :: (before ++ pat.dropLast) <+: c :: (before ++ pat ++ s) := by
          rw [List.cons_prefix_cons, List.append_assoc, List.prefix_append_right_inj]
          exact ⟨rfl, (List.dropLast_prefix pat).trans (List.prefix_append pat s)⟩
        exact hc (hpre.trans hdrop)
      · exact hfirst hinfix
    exact Replaced.next hfirst' hs

lemma replaceFrom_append (pat new skipped s : List Char) :
    replaceFrom pat new skipped.length (skipped ++ s) = replaceFrom pat new 0 s := by
  induction skipped with
  | nil => rfl
  | cons c skipped ih => exact ih

/-- `replaceAll` replaces every occurrence of a pattern. -/
theorem replaced_replaceAll {pat : List Char} (hpat : pat ≠ []) (new s : List Char) :
    Replaced pat new s (replaceAll pat new s) := by
  unfold replaceAll
  induction hlen : s.length using Nat.strongRecOn generalizing s with
  | ind n ih =>
    cases s with
    | nil =>
      refine .rest fun hinfix => hpat ?_
      exact List.infix_nil.mp hinfix
    | cons c s =>
      rw [List.length_cons] at hlen
      unfold replaceFrom
      by_cases hstart : startsWith pat (c :: s) = true
      · obtain ⟨rest, hrest⟩ := startsWith_iff.mp hstart
        obtain ⟨p, tail, rfl⟩ := List.exists_cons_of_ne_nil hpat
        obtain rfl : p = c := (List.cons.inj hrest).1
        obtain rfl : tail ++ rest = s := (List.cons.inj hrest).2
        have hshort : ¬ p :: tail <:+: [] ++ (p :: tail).dropLast := by
          intro hinfix
          have hle := hinfix.length_le
          rw [List.nil_append, List.length_dropLast, List.length_cons] at hle
          omega
        have hlt : rest.length < n := by
          rw [List.length_append] at hlen
          omega
        have hnext := Replaced.next hshort (ih rest.length hlt rest rfl)
        rw [if_pos hstart, List.length_cons, Nat.add_sub_cancel, replaceFrom_append]
        exact hnext
      · have hkeep := ih s.length (by omega) s rfl
        rw [if_neg hstart]
        exact hkeep.cons fun hpre => hstart (startsWith_iff.mpr hpre)

/-- A text without the pattern stays as it is. -/
lemma replaceAll_of_not_infix {pat s : List Char} (hpat : pat ≠ []) (h : ¬ pat <:+: s)
    (new : List Char) : replaceAll pat new s = s := by
  generalize hresult : replaceAll pat new s = result
  have hreplaced := replaced_replaceAll hpat new s
  rw [hresult] at hreplaced
  cases hreplaced with
  | rest => rfl
  | @next before rest t hfirst hrest =>
    exact absurd (List.infix_append before pat rest) h

/-- What `new` is put in for loses the pattern, and it gains nothing that `new` cannot be part
of. -/
lemma Replaced.not_infix {pat new s t p : List Char} (hs : Replaced pat new s t)
    (hnew : ∀ u v, p <:+: u ++ (new ++ v) → p <:+: u ∨ p <:+: v) (hp : p = pat ∨ ¬ p <:+: s) :
    ¬ p <:+: t := by
  induction hs with
  | rest h =>
    rcases hp with rfl | hp
    · exact h
    · exact hp
  | @next before s t hfirst hrest ih =>
    have hbefore : ¬ p <:+: before := by
      intro hoccurs
      rcases hp with rfl | hp
      · exact hfirst (hoccurs.trans (List.prefix_append _ _).isInfix)
      · apply hp
        rw [List.append_assoc]
        exact hoccurs.trans (List.prefix_append _ _).isInfix
    have hbehind : p = pat ∨ ¬ p <:+: s := by
      refine hp.imp_right fun hp hoccurs => hp ?_
      exact hoccurs.trans (List.suffix_append _ _).isInfix
    intro hoccurs
    rw [List.append_assoc] at hoccurs
    rcases hnew before t hoccurs with hoccurs | hoccurs
    · exact hbefore hoccurs
    · exact ih hbehind hoccurs

end LocaleBundle.Text
