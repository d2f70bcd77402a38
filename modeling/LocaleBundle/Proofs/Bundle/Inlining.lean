import LocaleBundle.Plural.Rules
import LocaleBundle.Proofs.Bundle.Warned
import LocaleBundle.Proofs.Json.RoundTrip
import LocaleBundle.Proofs.Locale.Loaded
import LocaleBundle.Proofs.Locale.Search

/-!
# What stands for a call means the call

A literal that is put in for a call is the JSON of one value. If the call is left for run time,
because its key is plural or its arguments do not suffice, that value is resolved as the
translation itself would be; else it is the text that the translation gives for the captured
arguments.
-/

namespace LocaleBundle

open LocaleBundle.Locale

namespace Locale.Store

/-! ## Looking up -/

/-- A translation that a lookup finds stands in a record, and it is not an empty one. -/
lemma exists_of_lookupIn {store : Store} {requested key : String} {chain : List String}
    {resolved : Resolved} (h : store.lookupIn requested key chain = .ok (some resolved)) :
    ∃ record, (resolved.locale, record) ∈ store.records ∧
      (key, resolved.value) ∈ record.translations ∧ resolved.value.isTruthy = true := by
  obtain ⟨-, front, back, -, -, hfound⟩ := lookupIn_eq_some_iff.mp h
  obtain ⟨record, hrecord, hvalue, htruthy⟩ := translationIn_eq_some_iff.mp hfound
  exact ⟨record, Entries.mem_of_get? (get_eq_ok_iff.mp hrecord), Entries.mem_of_get? hvalue, htruthy⟩

end Locale.Store

namespace Bundle

/-- The value that a lookup found; null stands for a missing translation. -/
def foundValue (resolved : Option Resolved) : Value := (resolved.map Resolved.value).getD .null

/-- What is put in for a translation: a missing one is the key's own text. -/
def orKey (found : Value) (key : String) : Value :=
  match found with
  | .null => .text key
  | v => v

/-- The template of a translation; a plural table is none. -/
def template? (found : Value) (key : String) : Option String := (orKey found key).asText?

lemma orKey_of_template? {found : Value} {key template : String}
    (h : template? found key = some template) : orKey found key = .text template := by
  unfold template? at h
  cases htranslation : orKey found key with
  | text t =>
    rw [htranslation] at h
    exact congrArg Value.text (Option.some.inj h)
  | _ =>
    rw [htranslation] at h
    exact absurd h (by simp [Value.asText?])

lemma translate_orKey [Plural.Cldr] (found : Value) (key : String) (args : List Value) (locale : Option String) :
    (orKey found key).translate args key locale = found.translate args key locale := by
  cases found <;> rfl

namespace Plan

/-! ## The parts of a literal -/

/-- What a lookup finds is not null. -/
lemma orKey_value {store : Store} {locale key : String} {resolved : Resolved}
    (h : store.lookup locale key = .ok (some resolved)) : orKey resolved.value key = resolved.value := by
  obtain ⟨record, -, -, htruthy⟩ := Store.exists_of_lookupIn h
  cases hvalue : resolved.value with
  | null =>
    rw [hvalue] at htruthy
    exact absurd htruthy (by decide)
  | _ => rfl

section

variable {store : Store} {locale key : String}

/-- What is found for a key is the translation that the lookup gives, or the key. -/
lemma ends_found {resolved : Option Resolved} (hlookup : store.lookup locale key = .ok resolved) :
    Job.Ends (.ok (orKey (foundValue resolved) key)) (Plan.found store locale key) := by
  unfold Plan.found
  rw [hlookup]
  cases resolved with
  | none => exact (ends_warnMissing locale key).bind (Job.ends_ok _)
  | some resolved =>
    have hself : orKey (foundValue (some resolved)) key = resolved.value := orKey_value hlookup
    rw [hself]
    exact Job.ends_ok resolved.value

lemma ends_found_error {e : Error} (hlookup : store.lookup locale key = .error e) :
    Job.Ends (.error e) (Plan.found store locale key) := by
  unfold Plan.found
  rw [hlookup]
  exact (Job.ends_ofExcept (.error e)).bind_error

lemma exists_of_found {warned : Warned} {v : Value}
    (h : (Plan.found store locale key warned).result = .ok v) :
    ∃ resolved, store.lookup locale key = .ok resolved ∧ v = orKey (foundValue resolved) key := by
  cases hlookup : store.lookup locale key with
  | error e => exact absurd ((ends_found_error hlookup).unique h) (by simp)
  | ok resolved => exact ⟨resolved, rfl, (Except.ok.inj ((ends_found hlookup).unique h)).symm⟩

/-- What is found is a translation that the lookup gives, or the key; it fails as the lookup does. -/
lemma gives_found {E : Error → Prop} {Q : Value → Prop}
    (herror : ∀ e, store.lookup locale key = .error e → E e)
    (hvalue : ∀ resolved, store.lookup locale key = .ok resolved →
      Q (orKey (foundValue resolved) key)) : Job.Gives E Q (Plan.found store locale key) := by
  cases hlookup : store.lookup locale key with
  | error e => exact (ends_found_error hlookup).gives_error (herror e hlookup)
  | ok resolved => exact (ends_found hlookup).gives_ok (hvalue resolved hlookup)

end

/-- What holds of texts and of the translations in the records holds of what a call stands for. -/
lemma orKey_of_lookup {P : Value → Prop} (htext : ∀ s, P (.text s)) {store : Store}
    (hstore : ∀ e ∈ store.records, ∀ t ∈ e.2.translations, P t.2) {locale key : String}
    {resolved : Option Resolved} (h : store.lookup locale key = .ok resolved) :
    P (orKey (foundValue resolved) key) := by
  cases resolved with
  | none => exact htext key
  | some resolved =>
    obtain ⟨record, hrecord, hvalue, -⟩ := Store.exists_of_lookupIn h
    have hfound : P resolved.value := hstore _ hrecord _ hvalue
    show P (orKey resolved.value key)
    cases hnull : resolved.value with
    | null => exact htext key
    | _ =>
      rw [hnull] at hfound
      exact hfound

/-- A value that a call stands for is a JSON value. -/
lemma isJson_orKey {store : Store} (hstore : store.HoldsJson) {locale key : String}
    {resolved : Option Resolved} (h : store.lookup locale key = .ok resolved) :
    (orKey (foundValue resolved) key).IsJson :=
  orKey_of_lookup (fun s => .text s) hstore h

lemma literal_of_isJson {v : Value} (hv : v.IsJson) :
    literal v = .ok (String.ofList (Json.write .compact 0 v)) := by
  unfold literal
  rw [Json.encode_of_isJson .compact hv]

lemma readDocument_literal {v : Value} {text : String} (hv : v.IsJson)
    (h : literal v = .ok text) : Json.readDocument text.toList = .ok v := by
  rw [literal_of_isJson hv] at h
  rw [← Except.ok.inj h, String.toList_ofList]
  exact Json.readDocument_write .compact 0 hv

section

variable [Plural.Cldr]

/-- A template always has a text: filled if the arguments serve its slots, or as it is. -/
lemma settledText_text (template : String) (args : List Value) (key locale : String) :
    settledText (.text template) args key locale = Logged.ok
      (if Template.isServed template args.length then Template.fill template args else template) := by
  simp only [settledText]
  split
  · rfl
  · rfl

/-- Any other translation is resolved as at run time, with the categories of the locale. -/
lemma settledText_eq_translate {found : Value} {key : String} {args : List Value}
    (hserved : ∀ template, template? found key = some template →
      Template.isServed template args.length = true) (locale : String) :
    settledText (orKey found key) args key locale = found.translate args key (some locale) := by
  rw [← translate_orKey found key args (some locale)]
  unfold template? at hserved
  cases htranslation : orKey found key with
  | text t =>
    have ht : Template.isServed t args.length = true := hserved t (by rw [htranslation]; rfl)
    simp [settledText, Value.translate, ht]
  | null =>
    -- a missing translation has become the key's text
    exact absurd htranslation (by cases found <;> simp [orKey])
  | _ => rfl

/-- A call of a template that is settled at build time gets the JSON of its text. -/
lemma ends_literalFor_of_template {plan : Plan} {store : Store} {locale key template : String}
    {resolved : Option Resolved} (hplural : key ∉ plan.pluralKeys)
    (hlookup : store.lookup locale key = .ok resolved)
    (htemplate : template? (foundValue resolved) key = some template) (args : List Value) :
    Job.Ends (literal (.text
        (if Template.isServed template args.length then Template.fill template args else template)))
      (plan.literalFor store locale key args) := by
  have hsettled : Job.Ends (.ok
      (if Template.isServed template args.length then Template.fill template args else template))
      (Job.ofLogged (settledText (.text template) args key locale) : Job Warned String) := by
    rw [settledText_text]
    exact fun _ => rfl
  have hraw : ¬ plan.pluralKeys.contains key = true := by simpa using hplural
  have hfound := ends_found hlookup
  rw [orKey_of_template? htemplate] at hfound
  unfold literalFor
  refine hfound.bind ?_
  rw [if_neg hraw]
  exact hsettled.bind fun _ => rfl

/-- The literal for a call in a store that was loaded, whatever is loaded and whichever keys are
plural: its text is one JSON value. If the key is plural, or else if the template has a slot that
the captured arguments do not serve, resolving that value for any arguments is resolving the
translation for them. In every other case it is the text that the translation gives for the
captured arguments in the locale. -/
theorem literalFor_load (w : Workspace) (plan : Plan) (locale key : String) (args : List Value)
    (warned : Warned) {text : String}
    (h : (plan.literalFor (Workspace.load w).state.store locale key args warned).result
      = .ok text) :
    ∃ v resolved, Json.readDocument text.toList = .ok v ∧
      (Workspace.load w).state.store.lookup locale key = .ok resolved ∧
      (key ∈ plan.pluralKeys → ∀ r,
        v.translate r key none = (foundValue resolved).translate r key none) ∧
      (key ∉ plan.pluralKeys → ∀ template, template? (foundValue resolved) key = some template →
        Template.isServed template args.length = false → ∀ r,
        v.translate r key none = (foundValue resolved).translate r key none) ∧
      (key ∉ plan.pluralKeys → (∀ template, template? (foundValue resolved) key = some template →
        Template.isServed template args.length = true) →
        ∃ t, v = .text t ∧
          ((foundValue resolved).translate args key (some locale)).result = .ok t) := by
  have hstore : (Workspace.load w).state.store.HoldsJson := Workspace.holdsJson_load w
  unfold literalFor at h
  obtain ⟨translation, hfound, hliteral⟩ := Job.exists_of_bind_result h
  obtain ⟨resolved, hlookup, rfl⟩ := exists_of_found hfound
  have hjson := isJson_orKey hstore hlookup
  by_cases hplural : key ∈ plan.pluralKeys
  · -- the raw translation is put in
    rw [if_pos (List.contains_iff_mem.mpr hplural)] at hliteral
    refine ⟨_, resolved, readDocument_literal hjson hliteral, hlookup, ?_, ?_, ?_⟩
    · intro _ r
      exact translate_orKey _ key r none
    · exact fun hkey => absurd hplural hkey
    · exact fun hkey => absurd hplural hkey
  · -- the text that was settled is put in
    rw [if_neg (by simpa using hplural)] at hliteral
    obtain ⟨t, hsettled, htext⟩ := Job.exists_of_bind_result hliteral
    have hread := readDocument_literal (.text t) htext
    refine ⟨.text t, resolved, hread, hlookup, fun hkey => absurd hkey hplural, ?_, ?_⟩
    · intro _ template htemplate hserved r
      have hsettled' : (settledText (orKey (foundValue resolved) key) args key locale).result
          = .ok t := hsettled
      rw [orKey_of_template? htemplate, settledText_text, if_neg (by simp [hserved])] at hsettled'
      obtain rfl : template = t := Except.ok.inj hsettled'
      rw [← orKey_of_template? htemplate, translate_orKey]
    · intro _ hserved
      refine ⟨t, rfl, ?_⟩
      rw [← settledText_eq_translate hserved locale]
      exact hsettled

end

/-- One locale, which has no file. -/
def unfiled : Workspace where
  tree := {}
  store := { locales := ⟨["en"], "en", by decide, by decide, by decide⟩,
             files := ⟨⟨"", ["locales"]⟩⟩, addMissing := false }
  ledger := {}

theorem literalFor_load_unfiled : ∃ t,
    Json.readDocument "\"3 items\"".toList = .ok (.text t) ∧
    (Value.null.translate [.int 3] "$1 items" (some "en")).result = .ok t := by
  have hresult : (Plan.literalFor ⟨[], none⟩ (Workspace.load unfiled).state.store "en" "$1 items"
      [.int 3] []).result = .ok "\"3 items\"" := rfl
  have hlookup : (Workspace.load unfiled).state.store.lookup "en" "$1 items" = .ok none := rfl
  obtain ⟨v, resolved, hread, hfound, -, -, hsettled⟩ := literalFor_load unfiled ⟨[], none⟩ "en"
    "$1 items" [.int 3] [] hresult
  obtain rfl : none = resolved := Except.ok.inj (hlookup.symm.trans hfound)
  have hserved : ∀ template, template? (foundValue none) "$1 items" = some template →
      Template.isServed template [Value.int 3].length = true := by
    intro template htemplate
    rw [← Option.some.inj htemplate]
    decide
  obtain ⟨t, rfl, ht⟩ := hsettled (by decide) hserved
  exact ⟨t, hread, ht⟩

end Plan

end Bundle

end LocaleBundle
