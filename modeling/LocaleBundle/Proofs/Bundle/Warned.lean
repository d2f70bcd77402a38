import LocaleBundle.Bundle.Copies
import LocaleBundle.Proofs.Logged

/-!
# What the copies depend on

Of the store, the copies for a locale depend on its lookups alone.

The warnings made so far decide only which records are logged. What is put in for a call, the code
of a copy and the copies themselves are the same whatever was warned of before.
-/

namespace LocaleBundle

open LocaleBundle.Locale

namespace Token

variable {σ : Type} {R : σ → σ → Prop} {render other : CallToken → Job σ String}

lemma agree_renderSegments (hrender : ∀ token, Job.Agree R (render token) (other token))
    (locale : String) (pieces : List Segment) :
    Job.Agree R (renderSegments locale render pieces) (renderSegments locale other pieces) := by
  induction pieces with
  | nil => exact Job.agree_ok []
  | cons piece pieces ih =>
    cases piece with
    | text cs => exact ih.bind fun after => Job.agree_ok _
    | call token => exact (hrender token).bind fun text => ih.bind fun after => Job.agree_ok _

lemma agree_replace (hrender : ∀ token, Job.Agree R (render token) (other token))
    (code locale fileName : String) :
    Job.Agree R (replace code locale render fileName) (replace code locale other fileName) := by
  unfold replace
  cases segments code fileName with
  | mk pieces fault =>
    apply (agree_renderSegments hrender locale pieces).bind
    intro text
    cases fault with
    | none => exact Job.agree_ok _
    | some f => exact Job.agree_fail _

end Token

namespace Bundle.Plan

/-- Any two lists of warnings. -/
def AnyWarned : Warned → Warned → Prop := fun _ _ => True

lemma ends_warnMissing (locale key : String) : Job.Ends (.ok ()) (warnMissing locale key) := by
  intro warned
  unfold warnMissing
  split
  · rfl
  · rfl

lemma agree_warnMissing (locale key : String) :
    Job.Agree AnyWarned (warnMissing locale key) (warnMissing locale key) := by
  have hends := ends_warnMissing locale key
  intro warned other _
  exact ⟨trivial, (hends warned).trans (hends other).symm⟩

lemma agree_found (store : Store) (locale key : String) :
    Job.Agree AnyWarned (Plan.found store locale key) (Plan.found store locale key) := by
  unfold Plan.found
  apply (Job.agree_ofExcept _).bind
  intro resolved
  cases resolved with
  | some resolved => exact Job.agree_ok _
  | none => exact (agree_warnMissing locale key).bind fun _ => Job.agree_ok _

variable [Plural.Cldr] (plan : Plan)

/-! ## The store -/

section

variable {store other : Store} {locale : String}
  (hlookup : ∀ key, store.lookup locale key = other.lookup locale key)

include hlookup

lemma literalFor_congr (key : String) (args : List Value) :
    plan.literalFor store locale key args = plan.literalFor other locale key args := by
  unfold literalFor Plan.found
  rw [hlookup]

lemma localize_congr (code fileName : String) :
    plan.localize store code locale fileName = plan.localize other code locale fileName := by
  unfold localize
  simp only [plan.literalFor_congr hlookup]

lemma copyFor_congr (artifact : Artifact) (target : String) :
    plan.copyFor store artifact locale target = plan.copyFor other artifact locale target := by
  unfold copyFor
  simp only [plan.localize_congr hlookup]

end

section

variable {store other : Store}
  (hlookup : ∀ locale key, store.lookup locale key = other.lookup locale key)

include hlookup

lemma copiesFor_congr (artifact : Artifact) (locales : List String) :
    plan.copiesFor store artifact locales = plan.copiesFor other artifact locales := by
  induction locales with
  | nil => rfl
  | cons locale locales ih =>
    unfold copiesFor
    simp only [plan.copyFor_congr (hlookup locale), ih]

/-- Of a store, its locales and its lookups are all that copying looks at. -/
theorem copyAll_congr (hlocales : store.locales = other.locales) (artifacts : List Artifact) :
    plan.copyAll store artifacts = plan.copyAll other artifacts := by
  have hcopies : plan.copies store = plan.copies other := by
    funext artifact
    rw [copies, copies, hlocales, plan.copiesFor_congr hlookup]
  unfold copyAll
  rw [hcopies, hlocales]

end

/-! ## The warnings -/

variable (store : Store) (locale : String)

lemma agree_literalFor (key : String) (args : List Value) :
    Job.Agree AnyWarned (plan.literalFor store locale key args)
      (plan.literalFor store locale key args) := by
  unfold literalFor
  apply (agree_found store locale key).bind
  intro translation
  split
  · exact Job.agree_ofExcept _
  · have hsettled : Job.Agree AnyWarned
        (Job.ofLogged (settledText translation args key locale))
        (Job.ofLogged (settledText translation args key locale)) := fun _ _ h => ⟨h, rfl⟩
    exact hsettled.bind fun text => Job.agree_ofExcept _

lemma agree_localize (code fileName : String) :
    Job.Agree AnyWarned (plan.localize store code locale fileName)
      (plan.localize store code locale fileName) :=
  Token.agree_replace (fun token => plan.agree_literalFor store locale token.key token.args) code
    locale fileName

lemma agree_copyFor (artifact : Artifact) (target : String) :
    Job.Agree AnyWarned (plan.copyFor store artifact locale target)
      (plan.copyFor store artifact locale target) := by
  unfold copyFor
  cases artifact.code? with
  | none => exact (Job.agree_record _ _).bind fun _ => Job.agree_ok _
  | some code =>
    apply (plan.agree_localize store locale code artifact.fileName).bind
    intro translated
    exact (Job.agree_record _ _).bind fun _ => Job.agree_ok _

lemma agree_copiesFor (artifact : Artifact) (locales : List String) :
    Job.Agree AnyWarned (plan.copiesFor store artifact locales)
      (plan.copiesFor store artifact locales) := by
  induction locales with
  | nil => exact Job.agree_ok []
  | cons locale locales ih =>
    unfold copiesFor
    cases plan.target? artifact.fileName locale with
    | none => exact Job.agree_ok []
    | some target =>
      apply (plan.agree_copyFor store locale artifact target).bind
      intro copy
      exact ih.bind fun copies => Job.agree_ok _

/-- What is copied of each artifact, before the copies are put together. -/
lemma agree_forEach_copies (artifacts : List Artifact) :
    Job.Agree AnyWarned (Job.forEach artifacts (plan.copies store))
      (Job.forEach artifacts (plan.copies store)) :=
  Job.agree_forEach fun artifact _ => plan.agree_copiesFor store artifact _

theorem agree_copyAll (artifacts : List Artifact) :
    Job.Agree AnyWarned (plan.copyAll store artifacts) (plan.copyAll store artifacts) := by
  unfold copyAll
  apply (plan.agree_forEach_copies store artifacts).bind
  intro copies
  exact (Job.agree_record _ _).bind fun _ => Job.agree_ok _

end Bundle.Plan

end LocaleBundle
