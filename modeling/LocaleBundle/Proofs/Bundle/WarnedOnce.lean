import LocaleBundle.Proofs.Bundle.Events
import LocaleBundle.Proofs.Plural.Log
import LocaleBundle.Proofs.Text.Search

/-!
# Missing translations are warned of once

Requests to copy are answered one after the other, and only the warnings made so far pass from one to
the next. They change no answer. Over a whole history, failed requests included, there is one warning
for each locale and key of a call without a translation, and it stands where such a call comes first.
-/

namespace LocaleBundle.Bundle

open LocaleBundle.Locale

/-! ## Requests -/

/-- What can be asked of a plan: the literal for a call, the code for a locale, or the copies of one
artifact or of all. -/
inductive Request where
  | call (locale key : String) (args : List Value)
  | code (code locale fileName : String)
  | copies (artifact : Artifact)
  | copyAll (artifacts : List Artifact)

/-- What is returned: literals and code as text, and copies. -/
inductive Answer where
  | text (s : String)
  | copies (artifacts : List Artifact)

namespace Plan

/-! ## Warnings -/

/-- Whether a record warns of a missing translation. -/
def warnsMissing (record : LogRecord) : Bool :=
  record.level = .warning &&
    Text.startsWith "Missing translation for '".toList record.text.toList

lemma warnsMissing_missingRecord (pair : String × String) :
    warnsMissing (missingRecord pair) = true := by
  have htext : (missingRecord pair).text.toList =
      "Missing translation for '".toList ++ (pair.2 ++ ("' in " ++ pair.1)).toList := by
    simp only [missingRecord, Diagnostic.missingTranslation, String.append_assoc,
      String.toList_append]
  rw [warnsMissing, htext, Text.startsWith_append]
  rfl

/-- Plural tables warn of other things. -/
lemma not_warnsMissing_of_isPluralRecord {record : LogRecord} (h : Plural.IsPluralRecord record) :
    warnsMissing record = false := by
  have hother : ∀ {lead rest : String} {c : Char}, lead.toList.head? = some c → c ≠ 'M' →
      Text.startsWith "Missing translation for '".toList (lead ++ rest).toList = false := by
    intro lead rest c hlead hc
    obtain ⟨tail, htail⟩ := List.head?_eq_some_iff.mp hlead
    rw [String.toList_append, htail]
    exact Text.startsWith_cons_of_ne hc.symm _ _
  cases h with
  | unknownLocale locale =>
    rw [warnsMissing, String.append_assoc, hother (c := 'L') rfl (by decide), Bool.and_false]
  | redirect => rfl
  | noCase key v =>
    have hmessage : (Diagnostic.noPluralCase key v).message =
        "No plural case for " ++ (v.quoted ++ (" in '" ++ (key ++ "' and no '*' entry"))) := by
      simp only [Diagnostic.noPluralCase, String.append_assoc]
    rw [warnsMissing, hmessage, hother (c := 'N') rfl (by decide), Bool.and_false]

/-- What stands in a list for the first time, and was not there earlier. -/
def firsts (earlier pairs : List (String × String)) : List (String × String) :=
  (pairs.removeAll earlier).eraseDups

lemma firsts_append (earlier pairs more : List (String × String)) :
    firsts earlier (pairs ++ more) = firsts earlier pairs ++ firsts (earlier ++ pairs) more := by
  have hboth : (pairs ++ more).removeAll earlier =
      pairs.removeAll earlier ++ more.removeAll earlier := List.filter_append _ _
  have hmore : (more.removeAll earlier).removeAll (pairs.removeAll earlier) =
      more.removeAll (earlier ++ pairs) := by
    refine List.filter_removeAll_filter.trans (List.filter_filter.trans ?_)
    refine List.filter_congr fun p _ => ?_
    show (!pairs.contains p && !earlier.contains p) = !(earlier ++ pairs).contains p
    rw [List.contains_append, Bool.not_or, Bool.and_comm]
  rw [firsts, hboth, List.eraseDups_append, hmore, firsts, firsts]

/-- A step has at most one call. -/
lemma firsts_missing (earlier : List (String × String)) (e : Event) :
    firsts earlier (e.missing store) = (e.missing store).removeAll earlier := by
  have hlength : ((e.missing store).removeAll earlier).length ≤ 1 := by
    refine (List.length_filter_le _ _).trans ?_
    cases e with
    | call locale key args =>
      rw [Event.missing]
      split
      · exact le_rfl
      · exact Nat.zero_le 1
    | _ => exact Nat.zero_le 1
  rw [firsts]
  cases hnew : (e.missing store).removeAll earlier with
  | nil => rfl
  | cons p rest =>
    rw [hnew, List.length_cons] at hlength
    obtain rfl : rest = [] := List.length_eq_zero_iff.mp (by omega)
    rfl

/-! ## Answers -/

variable [Plural.Cldr]

/-- Answers a request from a store. -/
def answer (plan : Plan) (store : Store) : Request → Job Warned Answer
  | .call locale key args => do return .text (← plan.literalFor store locale key args)
  | .code code locale fileName => do return .text (← plan.localize store code locale fileName)
  | .copies artifact => do return .copies (← plan.copies store artifact)
  | .copyAll artifacts => do return .copies (← plan.copyAll store artifacts)

/-- Answers requests one after the other, each from the store as it is then. A request that fails keeps
the warnings that it made. -/
def answers (plan : Plan) : Warned → List (Store × Request) → List (Step Warned Answer)
  | _, [] => []
  | warned, (store, request) :: rest =>
    let step := plan.answer store request warned
    step :: answers plan step.state rest

/-- The steps of a request. -/
def events (plan : Plan) (store : Store) : Request → List Event
  | .call locale key args => [.call locale key args]
  | .code code locale fileName => codeEvents code locale fileName
  | .copies artifact => store.locales.codes.flatMap (plan.copyEvents artifact)
  | .copyAll artifacts => plan.copyAllEvents store artifacts

/-- The steps that are done in a history, each with its store. -/
def doneIn (plan : Plan) (history : List (Store × Request)) : List (Store × Event) :=
  history.flatMap fun (store, request) => plan.done store (plan.events store request)

variable (plan : Plan) (store : Store)

lemma does_answer (request : Request) :
    Does plan store (plan.events store request) (plan.answer store request) := by
  cases request with
  | call locale key args => exact (does_literalFor locale key args).map Answer.text
  | code code locale fileName => exact (does_localize code locale fileName).map Answer.text
  | copies artifact => exact (does_copiesFor artifact _).map Answer.copies
  | copyAll artifacts => exact (does_copyAll artifacts).map Answer.copies

/-- The warnings made before change no answer. -/
lemma agree_answer (request : Request) :
    Job.Agree AnyWarned (plan.answer store request) (plan.answer store request) := by
  cases request with
  | call locale key args =>
    exact (plan.agree_literalFor store locale key args).bind fun text => Job.agree_ok _
  | code code locale fileName =>
    exact (plan.agree_localize store locale code fileName).bind fun text => Job.agree_ok _
  | copies artifact =>
    exact (plan.agree_copiesFor store artifact store.locales.codes).bind fun copies =>
      Job.agree_ok _
  | copyAll artifacts =>
    exact (plan.agree_copyAll store artifacts).bind fun copies => Job.agree_ok _

/-! ## Histories -/

variable {plan store}

lemma result_answers (warned : Warned) (history : List (Store × Request)) :
    (plan.answers warned history).map Step.result =
      history.map fun (store, request) => (plan.answer store request []).result := by
  induction history generalizing warned with
  | nil => rfl
  | cons next rest ih =>
    obtain ⟨store, request⟩ := next
    rw [answers, List.map_cons, List.map_cons, ih]
    exact congrArg (· :: _) (plan.agree_answer store request warned [] trivial).2

/-- The records of a history are those of the steps that are done. -/
lemma log_answers (warned : Warned) (history : List (Store × Request)) :
    (plan.answers warned history).flatMap Step.log = plan.records warned (plan.doneIn history) := by
  induction history generalizing warned with
  | nil => rfl
  | cons next rest ih =>
    obtain ⟨store, request⟩ := next
    have hdoes := plan.does_answer store request
    have hdone : plan.doneIn ((store, request) :: rest) =
        plan.done store (plan.events store request) ++ plan.doneIn rest := List.flatMap_cons
    rw [answers, List.flatMap_cons, ih, hdone, records_append, hdoes.log]
    exact congrArg _ (records_congr (hdoes.warns warned) _)

/-! ## Warnings among the records -/

lemma isPluralRecord_of_mem_resolutionLog {locale key : String} {args : List Value}
    {record : LogRecord} (h : record ∈ plan.resolutionLog store locale key args) :
    Plural.IsPluralRecord record := by
  unfold resolutionLog at h
  cases hlookup : store.lookup locale key with
  | error e =>
    simp only [hlookup] at h
    exact absurd h List.not_mem_nil
  | ok resolved =>
    simp only [hlookup] at h
    split at h
    · exact absurd h List.not_mem_nil
    · cases hfound : orKey (foundValue resolved) key with
      | map table =>
        rw [hfound] at h
        exact Plural.Table.writesPlural_resolve table args key (some locale) record h
      | text template =>
        rw [hfound, settledText_text] at h
        exact absurd h List.not_mem_nil
      | _ =>
        rw [hfound] at h
        exact absurd h List.not_mem_nil

/-- A step warns of a call without a translation that did not come before, and of nothing else. -/
lemma filter_eventLog (earlier : List (String × String)) (e : Event) :
    (plan.eventLog store earlier e).filter warnsMissing =
      ((e.missing store).removeAll earlier).map missingRecord := by
  cases e with
  | call locale key args =>
    have hquiet : (plan.resolutionLog store locale key args).filter warnsMissing = [] := by
      refine List.filter_eq_nil_iff.mpr fun record hrecord => ?_
      rw [not_warnsMissing_of_isPluralRecord (isPluralRecord_of_mem_resolutionLog hrecord)]
      exact Bool.false_ne_true
    rw [eventLog, List.filter_append, hquiet, List.append_nil, List.filter_eq_self]
    intro record hrecord
    obtain ⟨pair, -, rfl⟩ := List.mem_map.mp hrecord
    exact warnsMissing_missingRecord pair
  | _ => rfl

/-- The steps warn once of each locale and key, where a call without a translation comes first. -/
lemma filter_records (earlier : List (String × String)) (steps : List (Store × Event)) :
    (plan.records earlier steps).filter warnsMissing =
      (firsts earlier (missingIn steps)).map missingRecord := by
  induction steps generalizing earlier with
  | nil => rfl
  | cons step rest ih =>
    obtain ⟨store, e⟩ := step
    rw [records, List.filter_append, filter_eventLog, ih, missingIn_cons, firsts_append,
      firsts_missing, List.map_append]

/-- Over a history of requests, each is answered as if it were the first, and the records are those of
the steps that are done: a call writes a warning if it has no translation and no call before it had
none in that locale for that key. So there is one warning for each of these locales and keys, in the
order in which they come first. Keys are texts, so they have no lone surrogates: code with an escape of
one in a key is not covered. -/
theorem answers_warn_once (plan : Plan) (history : List (Store × Request)) :
    let answered := plan.answers [] history
    answered.map Step.result =
      history.map (fun (store, request) => (plan.answer store request []).result) ∧
    answered.flatMap Step.log = plan.records [] (plan.doneIn history) ∧
    (answered.flatMap Step.log).filter warnsMissing =
      (missingIn (plan.doneIn history)).eraseDups.map missingRecord := by
  intro answered
  have hlog : answered.flatMap Step.log = plan.records [] (plan.doneIn history) :=
    log_answers [] history
  refine ⟨result_answers [] history, hlog, ?_⟩
  rw [hlog, filter_records, firsts, List.removeAll_nil]

example :
    let store := (Workspace.load unfiled).state.store
    ((answers ⟨[], none⟩ [] [(store, .call "en" "Hello" []), (store, .call "en" "Bye" []),
      (store, .call "en" "Hello" [])]).flatMap Step.log).map LogRecord.line =
    ["WARNING Missing translation for 'Hello' in en", "WARNING Missing translation for 'Bye' in en"] :=
  rfl

end Plan

end LocaleBundle.Bundle
