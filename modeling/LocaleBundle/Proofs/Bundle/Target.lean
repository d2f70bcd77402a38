import LocaleBundle.Bundle.Copies
import LocaleBundle.Proofs.Locale.Files
import LocaleBundle.Proofs.Logged
import LocaleBundle.Proofs.Text.Search
import Mathlib.Data.List.Basic

/-!
# Names of copies

A copy is named for its locale and its original, below the assets directory if there is one. A
locale code has no slash, so the name of a copy tells which locale and which original it has. What
lies outside the assets directory has no copies.
-/

namespace LocaleBundle.Bundle

open LocaleBundle.Locale

/-- Whether a file is copied: with an assets directory only what is in it. -/
def InScope : Option String → String → Prop
  | none, _ => True
  | some directory, fileName => directory.toList <+: fileName.toList

instance (directory : Option String) (fileName : String) : Decidable (InScope directory fileName) :=
  match directory with
  | none => inferInstanceAs (Decidable True)
  | some d => inferInstanceAs (Decidable (d.toList <+: fileName.toList))

/-- Whether a name is the one of a locale's copy: a directory named for the locale is put in front of
the file, behind the assets directory if there is one. -/
def IsTarget : Option String → String → String → String → Prop
  | none, fileName, locale, target => target = locale ++ "/" ++ fileName
  | some directory, fileName, locale, target =>
    ∃ rest, fileName = directory ++ rest ∧ target = directory ++ locale ++ "/" ++ rest

variable {plan : Plan} {directory : Option String} {fileName locale target : String}

namespace Plan

lemma target?_eq_some_iff : plan.target? fileName locale = some target ↔
    IsTarget plan.assetsDirectory fileName locale target := by
  unfold target?
  cases plan.assetsDirectory with
  | none => exact ⟨fun h => (Option.some.inj h).symm, fun h => congrArg some h.symm⟩
  | some directory =>
    constructor
    · intro h
      obtain ⟨rest, hrest, rfl⟩ := Option.map_eq_some_iff.mp h
      refine ⟨String.ofList rest, ?_, rfl⟩
      rw [← String.toList_inj, Text.eq_append_of_after? hrest, String.toList_append,
        String.toList_ofList]
    · rintro ⟨rest, rfl, rfl⟩
      simp only [String.toList_append, Text.after?_append, Option.map_some, String.ofList_toList]

lemma target?_eq_none_iff : plan.target? fileName locale = none ↔
    ¬ InScope plan.assetsDirectory fileName := by
  unfold target?
  cases plan.assetsDirectory with
  | none => simp [InScope]
  | some directory =>
    rw [Option.map_eq_none_iff, InScope, ← Text.startsWith_iff, Text.startsWith, Bool.not_eq_true,
      Option.isSome_eq_false_iff, Option.isNone_iff_eq_none]

end Plan

/-! ## What the name of a copy tells -/

/-- A text is cut at its first slash. -/
lemma splitAtFirst_slash {locale : String} (hlocale : Code.isValid locale = true) (rest : String) :
    Text.splitAtFirst ['/'] (locale ++ "/" ++ rest).toList =
      some (locale.toList, '/' :: rest.toList) := by
  have hslash : ¬ [] ++ ['/'] <:+: locale.toList := by
    intro hoccurs
    exact Code.notMem_of_isValid hlocale (by decide) (hoccurs.subset List.mem_cons_self)
  have hcut := Text.splitAtFirst_append List.not_mem_nil hslash rest.toList
  rw [String.toList_append, String.toList_append, List.append_assoc]
  exact hcut

lemma eq_of_slash {locale other : String} (hlocale : Code.isValid locale = true)
    (hother : Code.isValid other = true) {rest rest' : String}
    (h : locale ++ "/" ++ rest = other ++ "/" ++ rest') : locale = other ∧ rest = rest' := by
  have hcut := splitAtFirst_slash hlocale rest
  rw [h, splitAtFirst_slash hother rest'] at hcut
  obtain ⟨hcodes, hrest⟩ := Prod.mk.inj (Option.some.inj hcut)
  exact ⟨(String.toList_inj.mp hcodes).symm, (String.toList_inj.mp (List.cons.inj hrest).2).symm⟩

/-- Two copies with one name are copies of the same file for the same locale. -/
lemma eq_of_isTarget {other fileName' : String} (hlocale : Code.isValid locale = true)
    (hother : Code.isValid other = true) (h : IsTarget directory fileName locale target)
    (h' : IsTarget directory fileName' other target) : fileName = fileName' ∧ locale = other := by
  cases directory with
  | none =>
    obtain ⟨hcode, hfile⟩ := eq_of_slash hlocale hother (Eq.trans h.symm h')
    exact ⟨hfile, hcode⟩
  | some d =>
    obtain ⟨rest, rfl, rfl⟩ := h
    obtain ⟨rest', rfl, hsame⟩ := h'
    simp only [String.append_assoc, String.append_right_inj] at hsame
    obtain ⟨hcode, hrest⟩ := eq_of_slash hlocale hother (by simpa only [String.append_assoc])
    exact ⟨congrArg (d ++ ·) hrest, hcode⟩

/-! ## Copies for some locales -/

namespace Plan

variable [Plural.Cldr] {store : Store} {artifact : Artifact}

/-- An artifact out of scope is not copied. -/
lemma copiesFor_of_not_inScope (hscope : ¬ InScope plan.assetsDirectory artifact.fileName)
    (locales : List String) : plan.copiesFor store artifact locales = Job.ok [] := by
  cases locales with
  | nil => rfl
  | cons locale locales =>
    unfold copiesFor
    rw [target?_eq_none_iff.mpr hscope]

/-- An artifact in scope is copied once for each locale, and copying fails as one of these copies
does. -/
lemma gives_copiesFor {E : Error → Prop} {Q : String → Artifact → Prop} {locales : List String}
    (hscope : InScope plan.assetsDirectory artifact.fileName)
    (h : ∀ locale ∈ locales, ∀ target,
      IsTarget plan.assetsDirectory artifact.fileName locale target →
        Job.Gives E (Q locale) (plan.copyFor store artifact locale target)) :
    Job.Gives E (fun copies => List.Forall₂ Q locales copies)
      (plan.copiesFor store artifact locales) := by
  induction locales with
  | nil => exact Job.gives_ok .nil
  | cons locale locales ih =>
    obtain ⟨hlocale, hrest⟩ := List.forall_mem_cons.mp h
    unfold copiesFor
    cases htarget : plan.target? artifact.fileName locale with
    | none => exact absurd hscope (target?_eq_none_iff.mp htarget)
    | some target =>
      exact (hlocale target (target?_eq_some_iff.mp htarget)).bind fun copy hcopy =>
        (ih hrest).bind fun copies hcopies => Job.gives_ok (.cons hcopy hcopies)

end Plan

end LocaleBundle.Bundle
