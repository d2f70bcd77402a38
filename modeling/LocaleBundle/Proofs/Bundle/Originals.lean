import LocaleBundle.Proofs.Bundle.Copies

/-!
# Which originals a copy can stand in for

Copying makes new names but does not look at the names that are there. An artifact may already be
called what a copy of another artifact is called: then the copy, written beside the originals, takes
its place. That happens only below the directories of the locales.
-/

namespace LocaleBundle.Bundle

open LocaleBundle.Locale

variable {directory : Option String} {fileName locale target : String}

/-! ## Copies lie below the directory of their locale -/

/-- The directory with the copies for a locale. -/
def localeDirectory (directory : Option String) (locale : String) : String :=
  directory.getD "" ++ locale ++ "/"

lemma inScope_of_isTarget (h : IsTarget directory fileName locale target) :
    InScope directory fileName := by
  cases directory with
  | none => trivial
  | some d =>
    obtain ⟨rest, rfl, -⟩ := h
    exact ⟨rest.toList, String.toList_append.symm⟩

lemma localeDirectory_prefix_of_isTarget (h : IsTarget directory fileName locale target) :
    (localeDirectory directory locale).toList <+: target.toList := by
  cases directory with
  | none =>
    obtain rfl : target = locale ++ "/" ++ fileName := h
    exact ⟨fileName.toList, by simp [localeDirectory]⟩
  | some d =>
    obtain ⟨rest, -, rfl⟩ := h
    exact ⟨rest.toList, by simp [localeDirectory]⟩

/-- The name of a copy is longer than that of its original. -/
lemma length_lt_of_isTarget (h : IsTarget directory fileName locale target) :
    fileName.length < target.length := by
  cases directory with
  | none =>
    obtain rfl : target = locale ++ "/" ++ fileName := h
    simp only [String.length_append, show "/".length = 1 from rfl]
    omega
  | some d =>
    obtain ⟨rest, rfl, rfl⟩ := h
    simp only [String.length_append, show "/".length = 1 from rfl]
    omega

namespace Plan

section

variable [Plural.Cldr] {plan : Plan} {store : Store}

/-- The names of the copies are those of the artifacts in scope, for each of the locales. -/
lemma exists_copy_iff {artifacts copies : List Artifact} {warned : Warned} {name : String}
    (h : (plan.copyAll store artifacts warned).result = .ok copies) :
    (∃ copy ∈ copies, copy.fileName = name) ↔
      ∃ artifact ∈ artifacts, ∃ locale ∈ store.locales.codes,
        IsTarget plan.assetsDirectory artifact.fileName locale name := by
  have hnames := target?_of_forall₂ (forall₂_isCopy_of_copyAll h)
  have hmem : (∃ copy ∈ copies, copy.fileName = name) ↔
      some name ∈ copies.map fun copy => some copy.fileName := by simp
  rw [hmem, ← hnames, List.mem_map]
  constructor
  · rintro ⟨⟨artifact, locale⟩, hpair, htarget⟩
    obtain ⟨hartifact, hlocale⟩ := List.pair_mem_product.mp hpair
    exact ⟨artifact, List.mem_of_mem_filter hartifact, locale, hlocale,
      target?_eq_some_iff.mp htarget⟩
  · rintro ⟨artifact, hartifact, locale, hlocale, htarget⟩
    refine ⟨(artifact, locale), List.pair_mem_product.mpr ⟨?_, hlocale⟩,
      target?_eq_some_iff.mpr htarget⟩
    exact List.mem_filter.mpr ⟨hartifact, decide_eq_true (inScope_of_isTarget htarget)⟩

/-- Whether no copy has the name of an artifact that is copied with it. -/
def SparesOriginals (plan : Plan) (store : Store) (artifacts : List Artifact) : Prop :=
  ∀ warned copies, (plan.copyAll store artifacts warned).result = .ok copies →
    ∀ copy ∈ copies, ∀ original ∈ artifacts, copy.fileName ≠ original.fileName

/-- Which originals a copy has the name of, after a load. It is those that are called what a copy of
another artifact, with a shorter name, is called for some configured locale. So if no artifact lies
in the directory of a configured locale, no copy has the name of an original. -/
theorem overwrites_original_iff (w : Workspace) (pluralKeys : List String) (directory : Option String)
    {report : LoadReport} (hload : (Workspace.load w).result = .ok report)
    (artifacts : List Artifact) :
    let store := (Workspace.load w).state.store
    let plan := Plan.make pluralKeys directory
    let scope := directoryName? directory
    (∀ warned copies, (plan.copyAll store artifacts warned).result = .ok copies →
      ∀ original ∈ artifacts, (∃ copy ∈ copies, copy.fileName = original.fileName) ↔
        ∃ other ∈ artifacts, ∃ locale ∈ w.store.locales.codes,
          other.fileName.length < original.fileName.length ∧
          IsTarget scope other.fileName locale original.fileName) ∧
    ((∀ original ∈ artifacts, ∀ locale ∈ w.store.locales.codes,
        ¬ (localeDirectory scope locale).toList <+: original.fileName.toList) →
      plan.SparesOriginals store artifacts) := by
  intro store plan scope
  obtain ⟨-, hlocales⟩ := Workspace.isComplete_load hload
  constructor
  · intro warned copies h original _
    rw [exists_copy_iff h, hlocales]
    constructor
    · rintro ⟨other, hother, locale, hlocale, htarget⟩
      exact ⟨other, hother, locale, hlocale, length_lt_of_isTarget htarget, htarget⟩
    · rintro ⟨other, hother, locale, hlocale, -, htarget⟩
      exact ⟨other, hother, locale, hlocale, htarget⟩
  · intro houtside warned copies h copy hcopy original horiginal hname
    obtain ⟨other, -, locale, hlocale, htarget⟩ := (exists_copy_iff h).mp ⟨copy, hcopy, hname⟩
    rw [hlocales] at hlocale
    exact houtside original horiginal locale hlocale (localeDirectory_prefix_of_isTarget htarget)

end

theorem overwrites_original_iff_unfiled : (∃ report, (Workspace.load unfiled).result = .ok report) ∧
    (Plan.make [] none).SparesOriginals (Workspace.load unfiled).state.store
      [⟨"app.js", .text "app", .chunk⟩, ⟨"lib/en/app.js", .text "lib", .chunk⟩] := by
  obtain ⟨report, hload⟩ : ∃ report, (Workspace.load unfiled).result = .ok report := ⟨_, rfl⟩
  exact ⟨⟨report, hload⟩, (overwrites_original_iff unfiled [] none hload _).2 (by decide)⟩

/-- A file, and what a build of its English copy would be called. -/
def layered : List Artifact :=
  [⟨"app.js", .text "app", .chunk⟩, ⟨"en/app.js", .text "english", .chunk⟩]

/-- The copy of the first file takes the name of the second. -/
theorem not_sparesOriginals_layered : (∃ report, (Workspace.load unfiled).result = .ok report) ∧
    (layered.map Artifact.fileName).Nodup ∧
    ¬ (Plan.make [] none).SparesOriginals (Workspace.load unfiled).state.store layered := by
  have hresult : ((Plan.make [] none).copyAll (Workspace.load unfiled).state.store layered
      []).result.toOption =
        some [⟨"en/app.js", .text "app", .asset⟩, ⟨"en/en/app.js", .text "english", .asset⟩] := by
    decide +kernel
  refine ⟨⟨_, rfl⟩, by decide, fun hspares => ?_⟩
  exact hspares [] _ (Job.ok_of_toOption hresult) _ List.mem_cons_self _
    (List.mem_cons_of_mem _ List.mem_cons_self) rfl

end Plan

end LocaleBundle.Bundle
