import LocaleBundle.Proofs.Bundle.Tables
import LocaleBundle.Proofs.Bundle.Target
import LocaleBundle.Proofs.Bundle.Warned
import LocaleBundle.Proofs.Locale.Complete
import Mathlib.Data.List.ProdSigma

/-!
# Which copies are made

Every artifact in scope is copied once for each locale, in order, and nothing else is made. Code has
its placeholders replaced; everything else is copied as it is. If the plural keys have those of all
tables, then only a call token that cannot be read keeps copies from being made, and the first such
token of the first artifact that has one is reported.
-/

namespace LocaleBundle.Bundle

open LocaleBundle.Locale

/-- Whether an artifact is code: the text of a chunk, or of a file whose name ends in `js`. -/
def IsCode (artifact : Artifact) (code : String) : Prop :=
  artifact.source = .text code ∧
    (artifact.kind = .chunk ∨ "js".toList <:+ artifact.fileName.toList)

lemma code?_eq_some_iff {artifact : Artifact} {code : String} :
    artifact.code? = some code ↔ IsCode artifact code := by
  unfold Artifact.code? IsCode
  have hends : Text.endsWith "js".toList artifact.fileName.toList = true ↔
      "js".toList <:+ artifact.fileName.toList := by
    rw [Text.endsWith, Text.startsWith_iff, List.reverse_prefix]
  cases artifact.source with
  | bytes b => simp
  | text s =>
    simp only [Bool.or_eq_true, decide_eq_true_eq, Option.ite_none_right_eq_some, hends,
      Source.text.injEq, Option.some.injEq]
    exact and_comm

lemma code?_eq_none_iff {artifact : Artifact} :
    artifact.code? = none ↔ ∀ code, ¬ IsCode artifact code := by
  rw [Option.eq_none_iff_forall_ne_some]
  exact forall_congr' fun code => not_congr code?_eq_some_iff

lemma IsCode.unique {artifact : Artifact} {code other : String} (h : IsCode artifact code)
    (h' : IsCode artifact other) : code = other := Source.text.inj (h.1.symm.trans h'.1)

/-- Whether an artifact is a locale's copy of another. -/
structure IsCopy [Plural.Cldr] (plan : Plan) (store : Store) (original : Artifact) (locale : String)
    (copy : Artifact) : Prop where
  fileName : IsTarget plan.assetsDirectory original.fileName locale copy.fileName
  translated : ∀ code, IsCode original code → ∃ text, copy.source = .text text ∧
    Job.Ends (.ok text) (plan.localize store code locale original.fileName)
  kept : (∀ code, ¬ IsCode original code) → copy.source = original.source
  kind : copy.kind = .asset

/-- The artifacts in scope, each with every locale. -/
def copied (directory : Option String) (artifacts : List Artifact) (locales : List String) :
    List (Artifact × String) :=
  (artifacts.filter fun artifact => InScope directory artifact.fileName) ×ˢ locales

namespace Plan

variable [Plural.Cldr] {plan : Plan} {store : Store}

/-! ## The copies of one artifact -/

lemma gives_copyFor_isCopy {artifact : Artifact} {locale target : String}
    (htarget : IsTarget plan.assetsDirectory artifact.fileName locale target) :
    Job.Gives (fun _ => True) (IsCopy plan store artifact locale)
      (plan.copyFor store artifact locale target) := by
  unfold copyFor
  cases hcode : artifact.code? with
  | none =>
    have hnot := code?_eq_none_iff.mp hcode
    have hcopy : IsCopy plan store artifact locale { fileName := target, source := artifact.source } :=
      ⟨htarget, fun code h => absurd h (hnot code), fun _ => rfl, rfl⟩
    exact (Job.gives_ok hcopy).after_record _ _
  | some code =>
    refine Job.Gives.bind ((plan.agree_localize store locale code artifact.fileName).gives.imp
      (fun _ _ => trivial) fun _ hends => hends) fun text htext => ?_
    have hcopy : IsCopy plan store artifact locale { fileName := target, source := .text text } := by
      refine ⟨htarget, fun other hother => ?_, fun hnot => ?_, rfl⟩
      · obtain rfl := (code?_eq_some_iff.mp hcode).unique hother
        exact ⟨text, rfl, htext⟩
      · exact absurd (code?_eq_some_iff.mp hcode) (hnot code)
    exact (Job.gives_ok hcopy).after_record _ _

/-- Whether some artifacts are the copies of one: one for each locale if it is in scope, and none if
it is not. -/
def AreCopies (plan : Plan) (store : Store) (artifact : Artifact) (group : List Artifact) : Prop :=
  if InScope plan.assetsDirectory artifact.fileName then
    List.Forall₂ (IsCopy plan store artifact) store.locales.codes group
  else group = []

lemma gives_copies_areCopies (artifact : Artifact) :
    Job.Gives (fun _ => True) (AreCopies plan store artifact) (plan.copies store artifact) := by
  unfold AreCopies
  by_cases hscope : InScope plan.assetsDirectory artifact.fileName
  · simp only [hscope, if_true]
    exact gives_copiesFor hscope fun locale _ target htarget => gives_copyFor_isCopy htarget
  · simp only [hscope, if_false]
    rw [copies, copiesFor_of_not_inScope hscope]
    exact Job.gives_ok rfl

/-- The copies of each artifact make up the copies of all, in order. -/
lemma forall₂_copied {artifacts : List Artifact} {groups : List (List Artifact)}
    (h : List.Forall₂ (AreCopies plan store) artifacts groups) :
    List.Forall₂ (fun pair copy => IsCopy plan store pair.1 pair.2 copy)
      (copied plan.assetsDirectory artifacts store.locales.codes) groups.flatten := by
  unfold copied
  induction h with
  | nil => exact .nil
  | @cons artifact group artifacts groups hartifact _ ih =>
    unfold AreCopies at hartifact
    rw [List.flatten_cons]
    by_cases hscope : InScope plan.assetsDirectory artifact.fileName
    · rw [if_pos hscope] at hartifact
      have hfirst : List.Forall₂ (fun pair copy => IsCopy plan store pair.1 pair.2 copy)
          (store.locales.codes.map fun locale => (artifact, locale)) group :=
        List.forall₂_map_left_iff.mpr hartifact
      rw [List.filter_cons_of_pos (by simpa using hscope), List.product_cons]
      exact List.rel_append hfirst ih
    · -- out of scope, and nothing is copied
      rw [if_neg hscope] at hartifact
      rw [List.filter_cons_of_neg (by simpa using hscope), hartifact]
      exact ih

/-! ## The copies of all artifacts -/

lemma copyAll_eq_ok_iff {artifacts copies : List Artifact} {warned : Warned} :
    (plan.copyAll store artifacts warned).result = .ok copies ↔
      ∃ groups, Job.Ends (.ok groups) (Job.forEach artifacts (plan.copies store)) ∧
        copies = groups.flatten := by
  constructor
  · intro h
    unfold copyAll at h
    obtain ⟨groups, hgroups, hrest⟩ := Job.exists_of_bind_result h
    exact ⟨groups, (plan.agree_forEach_copies store artifacts).ends hgroups,
      (Except.ok.inj hrest).symm⟩
  · rintro ⟨groups, hgroups, rfl⟩
    have hends : Job.Ends (.ok groups.flatten) (plan.copyAll store artifacts) := by
      unfold copyAll
      exact hgroups.bind fun _ => rfl
    exact hends warned

/-- One copy is made for each artifact in scope and each locale, in this order. -/
lemma forall₂_isCopy_of_copyAll {artifacts copies : List Artifact} {warned : Warned}
    (h : (plan.copyAll store artifacts warned).result = .ok copies) :
    List.Forall₂ (fun pair copy => IsCopy plan store pair.1 pair.2 copy)
      (copied plan.assetsDirectory artifacts store.locales.codes) copies := by
  obtain ⟨groups, hends, rfl⟩ := copyAll_eq_ok_iff.mp h
  have hgroups : Job.Gives (fun _ => True) (List.Forall₂ (AreCopies plan store) artifacts)
      (Job.forEach artifacts (plan.copies store)) :=
    Job.gives_forEach fun artifact _ => gives_copies_areCopies artifact
  exact forall₂_copied ((hgroups warned).2 groups (hends warned))

/-- What is copied of artifacts in two parts is copied of one part and then of the other. -/
lemma copyAll_append_eq_ok_iff (artifacts more : List Artifact) {copies : List Artifact}
    (warned before after : Warned) :
    (plan.copyAll store (artifacts ++ more) warned).result = .ok copies ↔
      ∃ left right, (plan.copyAll store artifacts before).result = .ok left ∧
        (plan.copyAll store more after).result = .ok right ∧ copies = left ++ right := by
  constructor
  · intro h
    obtain ⟨groups, hgroups, rfl⟩ := copyAll_eq_ok_iff.mp h
    have hresult := hgroups warned
    rw [Job.forEach_append] at hresult
    obtain ⟨bs, hbs, hrest⟩ := Job.exists_of_bind_result hresult
    obtain ⟨cs, hcs, hsame⟩ := Job.exists_of_bind_result hrest
    obtain rfl : bs ++ cs = groups := Except.ok.inj hsame
    have hleft := (plan.agree_forEach_copies store artifacts).ends hbs
    have hright := (plan.agree_forEach_copies store more).ends hcs
    exact ⟨bs.flatten, cs.flatten, copyAll_eq_ok_iff.mpr ⟨bs, hleft, rfl⟩,
      copyAll_eq_ok_iff.mpr ⟨cs, hright, rfl⟩, List.flatten_append⟩
  · rintro ⟨left, right, hleft, hright, rfl⟩
    obtain ⟨bs, hbs, rfl⟩ := copyAll_eq_ok_iff.mp hleft
    obtain ⟨cs, hcs, rfl⟩ := copyAll_eq_ok_iff.mp hright
    refine copyAll_eq_ok_iff.mpr ⟨bs ++ cs, ?_, List.flatten_append.symm⟩
    rw [Job.forEach_append]
    exact hbs.bind (hcs.bind (Job.ends_ok (bs ++ cs)))

/-! ## Names -/

lemma target?_of_forall₂ {pairs : List (Artifact × String)} {copies : List Artifact}
    (h : List.Forall₂ (fun pair copy => IsCopy plan store pair.1 pair.2 copy) pairs copies) :
    pairs.map (fun pair => plan.target? pair.1.fileName pair.2) =
      copies.map fun copy => some copy.fileName := by
  induction h with
  | nil => rfl
  | cons hcopy _ ih =>
    rw [List.map_cons, List.map_cons, ih, target?_eq_some_iff.mpr hcopy.fileName]

/-- Artifacts with different names have copies with different names. -/
lemma nodup_fileName {artifacts copies : List Artifact}
    (h : List.Forall₂ (fun pair copy => IsCopy plan store pair.1 pair.2 copy)
      (copied plan.assetsDirectory artifacts store.locales.codes) copies)
    (hnames : (artifacts.map Artifact.fileName).Nodup) : (copies.map Artifact.fileName).Nodup := by
  have hpairs : (copied plan.assetsDirectory artifacts store.locales.codes).Nodup :=
    (hnames.of_map.filter _).product store.locales.nodup
  apply List.Nodup.of_map some
  rw [List.map_map]
  show (copies.map fun copy => some copy.fileName).Nodup
  rw [← target?_of_forall₂ h]
  -- a name tells the locale and the file, and the file tells the artifact
  refine hpairs.map_on ?_
  rintro ⟨artifact, locale⟩ hpair ⟨other, locale'⟩ hother hsame
  obtain ⟨hinScope, hlocale⟩ := List.pair_mem_product.mp hpair
  obtain ⟨hotherScope, hlocale'⟩ := List.pair_mem_product.mp hother
  obtain ⟨hartifact, hscope⟩ := List.mem_filter.mp hinScope
  cases htarget : plan.target? artifact.fileName locale with
  | none => exact absurd (of_decide_eq_true hscope) (target?_eq_none_iff.mp htarget)
  | some target =>
    have htarget' : plan.target? other.fileName locale' = some target := hsame.symm.trans htarget
    obtain ⟨hfile, rfl⟩ := eq_of_isTarget (store.locales.valid _ hlocale)
      (store.locales.valid _ hlocale') (target?_eq_some_iff.mp htarget)
      (target?_eq_some_iff.mp htarget')
    rw [List.inj_on_of_nodup_map hnames hartifact (List.mem_of_mem_filter hotherScope) hfile]

end Plan

/-! ## What keeps copies from being made -/

/-- Whether an artifact is code with a token that cannot be read, and a fault is that of the first
such token. -/
def Spoils (artifact : Artifact) (f : Fault) : Prop :=
  ∃ code offset reason, IsCode artifact code ∧ Token.Malformed code offset reason ∧
    f = .badPlaceholder artifact.fileName offset reason

lemma spoils_unique {artifact : Artifact} {f g : Fault} (hf : Spoils artifact f)
    (hg : Spoils artifact g) : f = g := by
  obtain ⟨code, offset, reason, hcode, ⟨pieces, hcut⟩, rfl⟩ := hf
  obtain ⟨code', offset', reason', hcode', ⟨pieces', hcut'⟩, rfl⟩ := hg
  obtain rfl := hcode.unique hcode'
  obtain ⟨rfl, rfl⟩ := Prod.mk.inj (Option.some.inj (Token.bad_unique hcut hcut'))
  rfl

/-- Whether an artifact that is to be copied cannot be, and a fault says why. -/
def IsRefused (directory : Option String) (artifact : Artifact) (f : Fault) : Prop :=
  InScope directory artifact.fileName ∧ Spoils artifact f

namespace Plan

section

variable [Plural.Cldr] {plan : Plan} {store : Store} {locale : String}

section

variable (hcomplete : store.IsComplete) (hlists : ∀ key ∈ store.tableKeys, key ∈ plan.pluralKeys)

include hcomplete hlists

/-- Every call has a literal. -/
lemma gives_literalFor_complete (hlocale : locale ∈ store.locales.codes) (key : String)
    (args : List Value) :
    Job.Gives (fun _ => False) (fun _ => True) (plan.literalFor store locale key args) := by
  unfold literalFor
  have hfound : Job.Gives (fun _ => False) (fun v => v.IsJson ∧ Record.IsTranslation v ∧
      ∀ table, v = .map table → key ∈ store.tableKeys) (Plan.found store locale key) := by
    apply gives_found
    · intro e he
      obtain ⟨resolved, hlookup⟩ := hcomplete.exists_lookup hlocale key
      exact absurd (he.symm.trans hlookup) (by simp)
    · intro resolved hlookup
      exact ⟨isJson_orKey hcomplete.holdsJson hlookup,
        orKey_of_lookup .text hcomplete.areTranslations hlookup,
        fun table htable => mem_tableKeys_of_lookup hlookup htable⟩
  refine hfound.bind fun translation htranslation => ?_
  obtain ⟨hjson, htranslation, htable⟩ := htranslation
  by_cases hplural : key ∈ plan.pluralKeys
  · rw [if_pos (List.contains_iff_mem.mpr hplural), literal_of_isJson hjson]
    exact Job.gives_ok trivial
  · rw [if_neg (by simpa using hplural)]
    cases htranslation with
    -- a table has its key among the plural keys
    | table hcases => exact absurd (hlists key (htable _ rfl)) hplural
    | text template =>
      rw [settledText_text]
      show Job.Gives _ _ (Job.bind (Job.ok _) fun text => Job.ofExcept (literal (.text text)))
      rw [Job.bind_of_ok, literal_of_isJson (.text _)]
      exact Job.gives_ok trivial

/-- Code is translated unless it has a token that cannot be read. -/
lemma gives_localize (hlocale : locale ∈ store.locales.codes) (code fileName : String) :
    Job.Gives (fun e => ∃ offset reason, Token.Malformed code offset reason ∧
        e = .fault (.badPlaceholder fileName offset reason))
      (fun _ => ∀ offset reason, ¬ Token.Malformed code offset reason)
      (plan.localize store code locale fileName) := by
  have hliteral : ∀ token : CallToken, Job.Gives
      (fun e => ∃ offset reason, Token.Malformed code offset reason ∧
        e = .fault (.badPlaceholder fileName offset reason))
      (fun _ => True) (plan.literalFor store locale token.key token.args) := by
    intro token
    exact (gives_literalFor_complete hcomplete hlists hlocale token.key token.args).imp
      (fun _ h => h.elim) fun _ h => h
  refine (Token.gives_replace code locale fileName hliteral
    fun offset reason h => ⟨offset, reason, h, rfl⟩).imp (fun _ h => h) ?_
  rintro out ⟨rendered, hmade⟩ offset reason ⟨pieces, hcut⟩
  exact absurd (Token.bad_unique hmade.cut hcut) (by simp)

lemma gives_copyFor_spoils (hlocale : locale ∈ store.locales.codes) (artifact : Artifact)
    (target : String) :
    Job.Gives (fun e => ∃ f, Spoils artifact f ∧ e = .fault f) (fun _ => ∀ f, ¬ Spoils artifact f)
      (plan.copyFor store artifact locale target) := by
  unfold copyFor
  cases hcode : artifact.code? with
  | none =>
    refine (Job.gives_ok ?_).after_record _ _
    rintro f ⟨code, offset, reason, hother, -, -⟩
    exact code?_eq_none_iff.mp hcode code hother
  | some code =>
    have hlocalize : Job.Gives (fun e => ∃ f, Spoils artifact f ∧ e = .fault f)
        (fun _ => ∀ f, ¬ Spoils artifact f)
        (plan.localize store code locale artifact.fileName) := by
      refine (gives_localize hcomplete hlists hlocale code artifact.fileName).imp ?_ ?_
      · rintro e ⟨offset, reason, hbad, rfl⟩
        exact ⟨_, ⟨code, offset, reason, code?_eq_some_iff.mp hcode, hbad, rfl⟩, rfl⟩
      · rintro text hread f ⟨other, offset, reason, hother, hbad, -⟩
        obtain rfl := (code?_eq_some_iff.mp hcode).unique hother
        exact hread offset reason hbad
    apply hlocalize.bind
    intro text hgood
    apply Job.Gives.after_record
    exact Job.gives_ok hgood

/-- An artifact is copied unless it is in scope and has a token that cannot be read. -/
lemma gives_copies_isRefused (artifact : Artifact) :
    Job.Gives (fun e => ∃ f, IsRefused plan.assetsDirectory artifact f ∧ e = .fault f)
      (fun _ => ∀ f, ¬ IsRefused plan.assetsDirectory artifact f) (plan.copies store artifact) := by
  by_cases hscope : InScope plan.assetsDirectory artifact.fileName
  · refine (gives_copiesFor hscope fun locale hlocale target _ =>
      gives_copyFor_spoils hcomplete hlists hlocale artifact target).imp ?_ ?_
    · rintro e ⟨f, hf, rfl⟩
      exact ⟨f, ⟨hscope, hf⟩, rfl⟩
    · -- there is at least one locale, and its copy was made
      rintro copies hgood f ⟨-, hf⟩
      obtain ⟨first, others, hcodes⟩ :=
        List.exists_cons_of_ne_nil (List.ne_nil_of_mem store.locales.default_mem)
      rw [hcodes] at hgood
      obtain ⟨copy, more, hnot, -⟩ := List.forall₂_cons_left_iff.mp hgood
      exact hnot f hf
  · rw [copies, copiesFor_of_not_inScope hscope]
    exact Job.gives_ok fun f hf => hscope hf.1

lemma ends_copies {artifact : Artifact} (h : ∀ f, ¬ IsRefused plan.assetsDirectory artifact f) :
    ∃ group, Job.Ends (.ok group) (plan.copies store artifact) := by
  have hgives := gives_copies_isRefused hcomplete hlists artifact []
  cases hresult : (plan.copies store artifact []).result with
  | error e =>
    obtain ⟨f, hf, -⟩ := hgives.1 e hresult
    exact absurd hf (h f)
  | ok group => exact ⟨group, (plan.agree_copiesFor store artifact _).ends hresult⟩

lemma ends_copies_error {artifact : Artifact} {f : Fault}
    (h : IsRefused plan.assetsDirectory artifact f) :
    Job.Ends (.error (.fault f)) (plan.copies store artifact) := by
  have hgives := gives_copies_isRefused hcomplete hlists artifact []
  cases hresult : (plan.copies store artifact []).result with
  | error e =>
    obtain ⟨g, hg, rfl⟩ := hgives.1 e hresult
    rw [spoils_unique h.2 hg.2]
    exact (plan.agree_copiesFor store artifact _).ends hresult
  | ok group =>
    -- copies are only made of artifacts that are not refused
    exact absurd h (hgives.2 group hresult f)

/-- Copying ends with the fault of the first artifact that is refused. -/
lemma ends_copyAll_error {before after : List Artifact} {artifact : Artifact} {f : Fault}
    (hbefore : ∀ b ∈ before, ∀ g, ¬ IsRefused plan.assetsDirectory b g)
    (h : IsRefused plan.assetsDirectory artifact f) :
    Job.Ends (.error (.fault f)) (plan.copyAll store (before ++ artifact :: after)) := by
  have hfirst : Job.Ends (.error (.fault f))
      (Job.forEach (before ++ artifact :: after) (plan.copies store)) :=
    Job.ends_forEach_error (fun b hb => ends_copies hcomplete hlists (hbefore b hb))
      (ends_copies_error hcomplete hlists h)
  unfold copyAll
  exact hfirst.bind_error

/-- Copying fails for the first artifact that is refused, if there is one, and for no other reason. -/
lemma copyAll_eq_error_iff {artifacts : List Artifact} {warned : Warned} {e : Error} :
    (plan.copyAll store artifacts warned).result = .error e ↔
      ∃ before artifact after f, artifacts = before ++ artifact :: after ∧
        (∀ b ∈ before, ∀ g, ¬ IsRefused plan.assetsDirectory b g) ∧
        IsRefused plan.assetsDirectory artifact f ∧ e = .fault f := by
  constructor
  · intro herror
    rcases forall_or_first (fun a => ∀ f, ¬ IsRefused plan.assetsDirectory a f) artifacts with
      hall | ⟨before, artifact, after, rfl, hbefore, hrefused⟩
    · obtain ⟨groups, hgroups⟩ := Job.ends_forEach fun a ha =>
        ends_copies hcomplete hlists (hall a ha)
      have hok : (plan.copyAll store artifacts warned).result = .ok groups.flatten :=
        copyAll_eq_ok_iff.mpr ⟨groups, hgroups, rfl⟩
      exact absurd (herror.symm.trans hok) (by simp)
    · push Not at hrefused
      obtain ⟨f, hf⟩ := hrefused
      have hends : Job.Ends (.error (.fault f)) (plan.copyAll store (before ++ artifact :: after)) :=
        ends_copyAll_error hcomplete hlists hbefore hf
      exact ⟨before, artifact, after, f, rfl, hbefore, hf,
        Except.error.inj (herror.symm.trans (hends warned))⟩
  · rintro ⟨before, artifact, after, f, rfl, hbefore, hf, rfl⟩
    exact ends_copyAll_error hcomplete hlists hbefore hf warned

/-- Copying fails exactly if some artifact is refused. -/
lemma exists_error_iff {artifacts : List Artifact} {warned : Warned} :
    (∃ e, (plan.copyAll store artifacts warned).result = .error e) ↔
      ∃ artifact ∈ artifacts, ∃ f, IsRefused plan.assetsDirectory artifact f := by
  constructor
  · rintro ⟨e, herror⟩
    obtain ⟨before, artifact, after, f, rfl, -, hf, -⟩ :=
      (copyAll_eq_error_iff hcomplete hlists).mp herror
    exact ⟨artifact, List.mem_append_right before List.mem_cons_self, f, hf⟩
  · rintro ⟨artifact, hmem, f, hf⟩
    rcases forall_or_first (fun a => ∀ g, ¬ IsRefused plan.assetsDirectory a g) artifacts with
      hall | ⟨before, first, after, rfl, hbefore, hrefused⟩
    · exact absurd hf (hall artifact hmem f)
    · push Not at hrefused
      obtain ⟨g, hg⟩ := hrefused
      exact ⟨_, ends_copyAll_error hcomplete hlists hbefore hg warned⟩

end

/-- Copying artifacts for the locales of a store that was loaded, whichever keys are plural and
whatever was warned of before. What is made is one copy for each artifact in scope and each
configured locale, in the order of the artifacts and then of the locales, and copies of artifacts
with different names have different names. Artifacts in two parts are copied one part after the
other. If the plural keys have those of all tables in the store, then copying fails exactly if some
artifact in scope is code with a token that cannot be read, and it fails with the first such token
of the first such artifact. The literals of the tokens are assumed to keep to the limits of a decoder
that `Json.readDocument` leaves out. -/
theorem copyAll_load (w : Workspace) (pluralKeys : List String) (directory : Option String)
    {report : LoadReport} (hload : (Workspace.load w).result = .ok report) :
    let store := (Workspace.load w).state.store
    let plan := Plan.make pluralKeys directory
    let scope := directoryName? directory
    (∀ artifacts warned copies, (plan.copyAll store artifacts warned).result = .ok copies →
      List.Forall₂ (fun pair copy => IsCopy plan store pair.1 pair.2 copy)
        (copied scope artifacts w.store.locales.codes) copies ∧
      ((artifacts.map Artifact.fileName).Nodup → (copies.map Artifact.fileName).Nodup)) ∧
    (∀ artifacts more warned before after copies,
      (plan.copyAll store (artifacts ++ more) warned).result = .ok copies ↔
        ∃ left right, (plan.copyAll store artifacts before).result = .ok left ∧
          (plan.copyAll store more after).result = .ok right ∧ copies = left ++ right) ∧
    ((∀ key ∈ store.tableKeys, key ∈ pluralKeys) → ∀ artifacts warned,
      ((∃ e, (plan.copyAll store artifacts warned).result = .error e) ↔
        ∃ artifact ∈ artifacts, ∃ f, IsRefused scope artifact f) ∧
      ∀ e, (plan.copyAll store artifacts warned).result = .error e ↔
        ∃ before artifact after f, artifacts = before ++ artifact :: after ∧
          (∀ b ∈ before, ∀ g, ¬ IsRefused scope b g) ∧ IsRefused scope artifact f ∧
          e = .fault f) := by
  intro store plan scope
  obtain ⟨hcomplete, hlocales⟩ := Workspace.isComplete_load hload
  refine ⟨fun artifacts warned copies h => ?_, ?_, fun hlists artifacts warned => ⟨?_, ?_⟩⟩
  · have hcopies := forall₂_isCopy_of_copyAll h
    rw [← hlocales]
    exact ⟨hcopies, nodup_fileName hcopies⟩
  · intro artifacts more warned before after copies
    exact copyAll_append_eq_ok_iff artifacts more warned before after
  · exact exists_error_iff hcomplete hlists
  · intro e
    exact copyAll_eq_error_iff hcomplete hlists

end

/-- Two locales, which have no files. -/
def bilingual : Workspace where
  tree := {}
  store := { locales := ⟨["en", "nl_BE"], "en", by decide, by decide, by decide⟩,
             files := ⟨⟨"", ["locales"]⟩⟩, addMissing := false }
  ledger := {}

theorem copyAll_load_bilingual : (∃ report, (Workspace.load bilingual).result = .ok report) ∧
    ((Plan.make [] (some "assets")).copyAll (Workspace.load bilingual).state.store
      [⟨"page.js", .text "__$T$__(", .chunk⟩, ⟨"assets/app.js", .text "let __$T$__(1)", .chunk⟩]
      []).result =
        .error (.fault (.badPlaceholder "assets/app.js" 4 "key is not a JSON string")) := by
  obtain ⟨report, hload⟩ : ∃ report, (Workspace.load bilingual).result = .ok report := ⟨_, rfl⟩
  refine ⟨⟨report, hload⟩, ?_⟩
  obtain ⟨-, -, hfails⟩ := copyAll_load bilingual [] (some "assets") hload
  have htables : (Workspace.load bilingual).state.store.tableKeys = [] := rfl
  have hlists : ∀ key ∈ (Workspace.load bilingual).state.store.tableKeys, key ∈ [] := by
    intro key hkey
    rwa [htables] at hkey
  refine ((hfails hlists _ []).2 _).mpr ⟨[_], _, [], _, rfl, ?_, ?_, rfl⟩
  · -- the first artifact is out of scope
    intro artifact hartifact f hf
    rw [List.mem_singleton.mp hartifact] at hf
    exact absurd hf.1 (by decide)
  · have hcut : Token.Cut 0 ("let ".toList ++ (callMark.toList ++ "1)".toList))
        [.text "let ".toList] (some (4, "key is not a JSON string")) :=
      .malformed (by decide) rfl
    exact ⟨by decide, _, 4, _, ⟨rfl, Or.inl rfl⟩, ⟨_, hcut⟩, rfl⟩

end Plan

end LocaleBundle.Bundle
