import LocaleBundle.Proofs.Bundle.Originals

/-!
# The copies of a locale are its own

A lookup for a locale reads the records of its fallback chain and no others. What is put into the
copies for a locale comes from its lookups, so they are the same whatever the records of the other
locales hold, although all copies are made in one run.
-/

namespace LocaleBundle

open LocaleBundle.Locale

namespace Locale.Store

variable {store other : Store} {locale : String}

/-- A lookup reads the records of the chain. -/
lemma lookup_congr (hchain : store.chain locale = other.chain locale)
    (hrecords : ∀ code ∈ store.chain locale, store.get code = other.get code) (key : String) :
    store.lookup locale key = other.lookup locale key := by
  rw [lookup, lookup, ← hchain]
  apply lookupIn_congr
  intro code hcode
  rw [translationIn, translationIn, hrecords code hcode]

end Locale.Store

namespace Bundle

variable {plan : Plan} {store other : Store} {locale : String} {artifact copy : Artifact}

/-! ## Copies with the same lookups -/

section

variable [Plural.Cldr]

/-- A copy of one store is a copy of another in which the locale has the same lookups. -/
lemma IsCopy.of_lookup (hlookup : ∀ key, store.lookup locale key = other.lookup locale key)
    (h : IsCopy plan store artifact locale copy) : IsCopy plan other artifact locale copy := by
  refine ⟨h.fileName, fun code hcode => ?_, h.kept, h.kind⟩
  obtain ⟨text, hsource, hends⟩ := h.translated code hcode
  exact ⟨text, hsource, plan.localize_congr hlookup code artifact.fileName ▸ hends⟩

/-- An artifact has one copy for a locale. -/
lemma IsCopy.unique {copy' : Artifact} (h : IsCopy plan store artifact locale copy)
    (h' : IsCopy plan store artifact locale copy') : copy = copy' := by
  have hname : copy.fileName = copy'.fileName := by
    have htarget := Plan.target?_eq_some_iff.mpr h.fileName
    exact Option.some.inj (htarget.symm.trans (Plan.target?_eq_some_iff.mpr h'.fileName))
  have hsource : copy.source = copy'.source := by
    cases hcode : artifact.code? with
    | none =>
      have hnot := code?_eq_none_iff.mp hcode
      rw [h.kept hnot, h'.kept hnot]
    | some code =>
      obtain ⟨text, hsource, hends⟩ := h.translated code (code?_eq_some_iff.mp hcode)
      obtain ⟨text', hsource', hends'⟩ := h'.translated code (code?_eq_some_iff.mp hcode)
      rw [hsource, hsource', Except.ok.inj ((hends []).symm.trans (hends' []))]
  have hkind : copy.kind = copy'.kind := h.kind.trans h'.kind.symm
  cases copy
  cases copy'
  simp only at hname hsource hkind
  rw [hname, hsource, hkind]

end

/-! ## The copies of one locale among all -/

/-- Those copies that lie in the directory of a locale. -/
def copiesIn (directory : Option String) (locale : String) (copies : List Artifact) :
    List Artifact :=
  copies.filter fun copy => (localeDirectory directory locale).toList <+: copy.fileName.toList

/-- Every copy lies in the directory of its locale and of no other. -/
lemma prefix_iff_of_isTarget {directory : Option String} {fileName target other : String}
    (hlocale : Code.isValid locale = true) (hother : Code.isValid other = true)
    (h : IsTarget directory fileName other target) :
    (localeDirectory directory locale).toList <+: target.toList ↔ other = locale := by
  constructor
  · rintro ⟨rest, hrest⟩
    -- the rest of the name would be copied to it for this locale, too
    have htarget : IsTarget directory (directory.getD "" ++ String.ofList rest) locale target := by
      cases directory with
      | none =>
        show target = locale ++ "/" ++ ("" ++ String.ofList rest)
        rw [← String.toList_inj, ← hrest]
        simp [localeDirectory]
      | some d =>
        refine ⟨String.ofList rest, rfl, ?_⟩
        rw [← String.toList_inj, ← hrest]
        simp [localeDirectory]
    exact (eq_of_isTarget hother hlocale h htarget).2
  · rintro rfl
    exact localeDirectory_prefix_of_isTarget h

/-- Among all pairs, one item has those with it. -/
lemma filter_product {α β : Type} [DecidableEq β] {as : List α} {bs : List β} {b : β}
    (hnodup : bs.Nodup) (hb : b ∈ bs) :
    ((as ×ˢ bs).filter fun pair => pair.2 = b) = as.map fun a => (a, b) := by
  have hone : bs.filter (fun c => c = b) = [b] := by
    rw [List.filter_eq, List.count_eq_one_of_mem hnodup hb]
    rfl
  induction as with
  | nil => rfl
  | cons a as ih =>
    have hfirst : (bs.map fun c => (a, c)).filter (fun pair => pair.2 = b) = [(a, b)] := by
      rw [List.filter_map]
      exact congrArg (List.map fun c => (a, c)) hone
    rw [List.product_cons, List.filter_append, hfirst, ih]
    rfl

namespace Plan

section

variable [Plural.Cldr]

/-- In the directory of a locale lie the copies for it, one for each artifact in scope. -/
lemma forall₂_isCopy_copiesIn {artifacts copies : List Artifact} {warned : Warned}
    (hlocale : locale ∈ store.locales.codes)
    (h : (plan.copyAll store artifacts warned).result = .ok copies) :
    List.Forall₂ (fun artifact copy => IsCopy plan store artifact locale copy)
      (artifacts.filter fun artifact => InScope plan.assetsDirectory artifact.fileName)
      (copiesIn plan.assetsDirectory locale copies) := by
  have hcodes : ∀ pair ∈ copied plan.assetsDirectory artifacts store.locales.codes,
      pair.2 ∈ store.locales.codes := fun pair hpair => (List.mem_product.mp hpair).2
  have hall := (List.forall₂_and_left _ _).mpr ⟨hcodes, forall₂_isCopy_of_copyAll h⟩
  -- a copy is kept if it is for the locale
  have hkept := List.rel_filter (p := fun pair : Artifact × String => pair.2 = locale)
    (q := fun copy => (localeDirectory plan.assetsDirectory locale).toList <+: copy.fileName.toList)
    (fun pair copy hpair => by
      simp only [decide_eq_true_eq]
      exact (prefix_iff_of_isTarget (store.locales.valid _ hlocale) (store.locales.valid _ hpair.1)
        hpair.2.fileName).symm) hall
  rw [copied, filter_product store.locales.nodup hlocale, List.forall₂_map_left_iff] at hkept
  exact hkept.imp fun _ _ hpair => hpair.2

/-- Copies for a locale do not depend on the other locales. Two stores have the same locales, and one
of these has the same fallback chain in both and the same records along it. If the same artifacts are
copied for both, with the same plural keys and assets directory and whatever was warned of before,
then the copies for this locale are the same, whatever is in the other records. They are those in the
directory of the locale: one copy of each artifact in scope, in order. -/
theorem copiesIn_eq (plan : Plan) {store other : Store} {locale : String}
    (hlocales : store.locales.codes = other.locales.codes) (hlocale : locale ∈ store.locales.codes)
    (hchain : store.chain locale = other.chain locale)
    (hrecords : ∀ code ∈ store.chain locale, store.get code = other.get code)
    {artifacts copies copies' : List Artifact} {warned warned' : Warned}
    (h : (plan.copyAll store artifacts warned).result = .ok copies)
    (h' : (plan.copyAll other artifacts warned').result = .ok copies') :
    copiesIn plan.assetsDirectory locale copies = copiesIn plan.assetsDirectory locale copies' ∧
      List.Forall₂ (fun artifact copy => IsCopy plan store artifact locale copy)
        (artifacts.filter fun artifact => InScope plan.assetsDirectory artifact.fileName)
        (copiesIn plan.assetsDirectory locale copies) := by
  have hcopies := forall₂_isCopy_copiesIn hlocale h
  have hcopies' := forall₂_isCopy_copiesIn (hlocales ▸ hlocale) h'
  have hlookup := Store.lookup_congr hchain hrecords
  have hother := hcopies.imp fun _ _ hcopy => hcopy.of_lookup hlookup
  have hunique : Relator.RightUnique fun artifact copy => IsCopy plan other artifact locale copy :=
    fun _ _ _ hcopy hcopy' => hcopy.unique hcopy'
  exact ⟨hunique.forall₂ hother hcopies', hcopies⟩

end

/-- Two locales, of which the Belgian one greets in some words. -/
def greeting (hello : String) : Store :=
  (Workspace.load bilingual).state.store.putRecord "nl_BE"
    { Store.emptyRecord "nl_BE" with translations := [("Hello", .text hello)] }

/-- Code that greets. -/
def greeter : List Artifact := [⟨"app.js", .text "__$T$__(\"Hello\")", .chunk⟩]

lemma codes_greeting (hello : String) : (greeting hello).locales.codes = ["en", "nl_BE"] := rfl

/-- Whatever the greeting, English has no fallback and an empty record. -/
lemma chain_greeting (hello : String) : (greeting hello).chain "en" = ["en"] := rfl

lemma get_greeting (hello : String) :
    (greeting hello).get "en" = .ok (Store.emptyRecord "en") := rfl

/-- The English copy is the same although the Belgian ones differ. -/
theorem copiesIn_eq_greeting : ∃ copies copies',
    ((Plan.make [] none).copyAll (greeting "Hallo") greeter []).result = .ok copies ∧
    ((Plan.make [] none).copyAll (greeting "Dag") greeter []).result = .ok copies' ∧
    copies ≠ copies' ∧ copiesIn none "en" copies = copiesIn none "en" copies' := by
  have hallo : ((Plan.make [] none).copyAll (greeting "Hallo") greeter []).result.toOption =
      some [⟨"en/app.js", .text "\"Hello\"", .asset⟩,
        ⟨"nl_BE/app.js", .text "\"Hallo\"", .asset⟩] := by decide +kernel
  have dag : ((Plan.make [] none).copyAll (greeting "Dag") greeter []).result.toOption =
      some [⟨"en/app.js", .text "\"Hello\"", .asset⟩,
        ⟨"nl_BE/app.js", .text "\"Dag\"", .asset⟩] := by decide +kernel
  have hchain : (greeting "Hallo").chain "en" = (greeting "Dag").chain "en" := by
    rw [chain_greeting, chain_greeting]
  have hrecords : ∀ code ∈ (greeting "Hallo").chain "en",
      (greeting "Hallo").get code = (greeting "Dag").get code := by
    intro code hcode
    rw [chain_greeting, List.mem_singleton] at hcode
    rw [hcode, get_greeting, get_greeting]
  have hlocales : (greeting "Hallo").locales.codes = (greeting "Dag").locales.codes := by
    rw [codes_greeting, codes_greeting]
  have hlocale : "en" ∈ (greeting "Hallo").locales.codes := by
    rw [codes_greeting]
    exact List.mem_cons_self
  obtain ⟨hsame, -⟩ := copiesIn_eq (Plan.make [] none) hlocales hlocale hchain hrecords
    (Job.ok_of_toOption hallo) (Job.ok_of_toOption dag)
  exact ⟨_, _, Job.ok_of_toOption hallo, Job.ok_of_toOption dag, by decide, hsame⟩

end Plan

end Bundle

end LocaleBundle
