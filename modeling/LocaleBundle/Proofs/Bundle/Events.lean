import LocaleBundle.Proofs.Bundle.Inlining
import LocaleBundle.Proofs.Bundle.Target

/-!
# What copying does, step by step

Copying renders the calls of the code in order, up to a token that cannot be read or a call that fails,
and writes a record for each copy and one for all of them. `Plan.Does` says that a job does the steps
of a list: its records are those of the steps, with a warning for each call without a translation whose
locale and key were not warned of before.
-/

namespace LocaleBundle.Bundle

open LocaleBundle.Locale

/-- A step of copying. -/
inductive Event where
  | call (locale key : String) (args : List Value)
  | unreadable
  | translated (fileName target : String)
  | copied (fileName target : String)
  | replicated (artifacts locales files : ℕ)

/-- Whether a lookup finds nothing. -/
def isMissing (store : Store) (locale key : String) : Bool :=
  match store.lookup locale key with
  | .ok none => true
  | _ => false

/-- The warning for a key without a translation in a locale. -/
def missingRecord (pair : String × String) : LogRecord :=
  ⟨.warning, (Diagnostic.missingTranslation pair.2 pair.1).message⟩

/-- The locale and the key of a call, if the lookup finds nothing. -/
def Event.missing (store : Store) : Event → List (String × String)
  | .call locale key _ => if isMissing store locale key then [(locale, key)] else []
  | _ => []

namespace Plan

/-! ## Calls without a translation -/

section

variable {store : Store} {locale key : String} {warned : Warned}

/-- The locales and keys of the calls without a translation among steps. -/
def missingIn (steps : List (Store × Event)) : List (String × String) :=
  steps.flatMap fun (store, e) => e.missing store

lemma missingIn_cons (e : Event) (rest : List (Store × Event)) :
    missingIn ((store, e) :: rest) = e.missing store ++ missingIn rest := List.flatMap_cons

lemma missingIn_append (steps more : List (Store × Event)) :
    missingIn (steps ++ more) = missingIn steps ++ missingIn more := List.flatMap_append

lemma removeAll_congr {earlier earlier' : List (String × String)}
    (h : ∀ p, p ∈ earlier ↔ p ∈ earlier') (pairs : List (String × String)) :
    pairs.removeAll earlier = pairs.removeAll earlier' := by
  refine List.filter_congr fun p _ => congrArg (! ·) (Bool.eq_iff_iff.mpr ?_)
  rw [List.elem_iff, List.elem_iff, h]

lemma warnMissing_of_mem (h : (locale, key) ∈ warned) :
    warnMissing locale key warned = ⟨warned, .ok (), []⟩ := if_pos h

lemma warnMissing_of_notMem (h : (locale, key) ∉ warned) : warnMissing locale key warned =
    ⟨warned ++ [(locale, key)], .ok (), [missingRecord (locale, key)]⟩ := if_neg h

/-- Looking a translation up warns if there is none and this was not said before. -/
lemma found_records {resolved : Option Resolved} (hlookup : store.lookup locale key = .ok resolved)
    (args : List Value) (warned : Warned) :
    (Plan.found store locale key warned).log =
      (((Event.call locale key args).missing store).removeAll warned).map missingRecord ∧
    ∀ p, p ∈ (Plan.found store locale key warned).state ↔
      p ∈ warned ++ (Event.call locale key args).missing store := by
  unfold Plan.found
  simp only [Event.missing, isMissing, hlookup]
  cases resolved with
  | some resolved => exact ⟨rfl, fun p => by rw [if_neg Bool.false_ne_true, List.append_nil]; rfl⟩
  | none =>
    show (Job.bind (warnMissing locale key) (fun _ => Job.ok (Value.text key)) warned).log = _ ∧
      ∀ p, p ∈ (Job.bind (warnMissing locale key) (fun _ => Job.ok (Value.text key)) warned).state ↔ _
    by_cases hold : (locale, key) ∈ warned
    · rw [Job.bind_of_step_ok (warnMissing_of_mem hold), if_pos rfl,
        List.cons_removeAll, if_neg (by simpa using hold)]
      refine ⟨rfl, fun p => ?_⟩
      rw [List.mem_append, List.mem_singleton]
      exact ⟨Or.inl, fun h => h.elim id fun heq => heq ▸ hold⟩
    · rw [Job.bind_of_result_ok (a := ()) (by rw [warnMissing_of_notMem hold]),
        warnMissing_of_notMem hold, if_pos rfl, List.cons_removeAll, if_pos (by simpa using hold)]
      exact ⟨rfl, fun p => Iff.rfl⟩

end

/-! ## Steps and their records -/

variable [Plural.Cldr] (plan : Plan) (store : Store)

/-- The records of resolving a call at build time. -/
def resolutionLog (locale key : String) (args : List Value) : List LogRecord :=
  match store.lookup locale key with
  | .error _ => []
  | .ok resolved =>
    if plan.pluralKeys.contains key then []
    else (settledText (orKey (foundValue resolved) key) args key locale).log

/-- The records of a step, after some calls without a translation. -/
def eventLog (earlier : List (String × String)) : Event → List LogRecord
  | .call locale key args =>
    (((Event.call locale key args).missing store).removeAll earlier).map missingRecord ++
      plan.resolutionLog store locale key args
  | .unreadable => []
  | .translated fileName target => [⟨.debug, "translated " ++ fileName ++ " -> " ++ target⟩]
  | .copied fileName target => [⟨.debug, "copied " ++ fileName ++ " -> " ++ target⟩]
  | .replicated artifacts locales files =>
    [⟨.info, "Replicated " ++ toString artifacts ++ " artifacts into " ++ toString locales
      ++ " locales (" ++ toString files ++ " files)"⟩]

/-- Whether the next step is done after this one: it is not a token that cannot be read, and not a call
that fails. -/
def goesOn : Event → Bool
  | .call locale key args => (plan.literalFor store locale key args []).result.isOk
  | .unreadable => false
  | _ => true

/-- The steps that are done: those up to the first that stops, each with the store. -/
def done : List Event → List (Store × Event)
  | [] => []
  | e :: rest => (store, e) :: if plan.goesOn store e then done rest else []

/-- The records of steps, after some calls without a translation. -/
def records (plan : Plan) : (earlier : List (String × String)) → List (Store × Event) → List LogRecord
  | _, [] => []
  | earlier, (store, e) :: rest =>
    plan.eventLog store earlier e ++ records plan (earlier ++ e.missing store) rest

/-- Whether a job does the steps of a list: it returns if none stops, and the warnings that it makes and
its records are those of the steps that are done. -/
structure Does {α : Type} (events : List Event) (job : Job Warned α) : Prop where
  returns : ∀ warned, (job warned).result.isOk = events.all (plan.goesOn store)
  warns : ∀ warned p, p ∈ (job warned).state ↔ p ∈ warned ++ missingIn (plan.done store events)
  log : ∀ warned, (job warned).log = plan.records warned (plan.done store events)

variable {plan store}

/-! ## Steps one after the other -/

lemma done_append (events more : List Event) : plan.done store (events ++ more) =
    plan.done store events ++
      if events.all (plan.goesOn store) then plan.done store more else [] := by
  induction events with
  | nil => rfl
  | cons e rest ih =>
    rw [List.cons_append, done, done, ih, List.all_cons]
    cases plan.goesOn store e with
    | true => rfl
    | false => rfl

lemma eventLog_congr {earlier earlier' : List (String × String)}
    (h : ∀ p, p ∈ earlier ↔ p ∈ earlier') (e : Event) :
    plan.eventLog store earlier e = plan.eventLog store earlier' e := by
  cases e with
  | call locale key args => rw [eventLog, eventLog, removeAll_congr h]
  | _ => rfl

/-- Of the calls before, it matters only which they were. -/
lemma records_congr {earlier earlier' : List (String × String)} (h : ∀ p, p ∈ earlier ↔ p ∈ earlier')
    (steps : List (Store × Event)) : plan.records earlier steps = plan.records earlier' steps := by
  induction steps generalizing earlier earlier' with
  | nil => rfl
  | cons step rest ih =>
    obtain ⟨store, e⟩ := step
    rw [records, records, eventLog_congr h]
    exact congrArg _ (ih fun p => by rw [List.mem_append, List.mem_append, h])

lemma records_append (earlier : List (String × String)) (steps more : List (Store × Event)) :
    plan.records earlier (steps ++ more) = plan.records earlier steps ++
      plan.records (earlier ++ missingIn steps) more := by
  induction steps generalizing earlier with
  | nil =>
    rw [List.nil_append, missingIn, List.flatMap_nil, List.append_nil, records, List.nil_append]
  | cons step rest ih =>
    obtain ⟨store, e⟩ := step
    rw [List.cons_append, records, records, ih, missingIn_cons, List.append_assoc, List.append_assoc]

namespace Does

variable {α β : Type} {events more : List Event}

lemma ok (a : α) : Does plan store [] (Job.ok a) where
  returns _ := rfl
  warns warned p := by
    have hnone : missingIn (plan.done store []) = [] := rfl
    rw [hnone, List.append_nil]
    rfl
  log _ := rfl

/-- A job of one step. -/
lemma single {e : Event} {job : Job Warned α}
    (hreturns : ∀ warned, (job warned).result.isOk = plan.goesOn store e)
    (hwarns : ∀ warned p, p ∈ (job warned).state ↔ p ∈ warned ++ e.missing store)
    (hlog : ∀ warned, (job warned).log = plan.eventLog store warned e) :
    Does plan store [e] job := by
  have hdone : plan.done store [e] = [(store, e)] := by rw [done, done, ite_self]
  refine ⟨fun warned => ?_, fun warned p => ?_, fun warned => ?_⟩
  · rw [hreturns, List.all_cons, List.all_nil, Bool.and_true]
  · rw [hwarns, hdone, missingIn_cons, missingIn, List.flatMap_nil, List.append_nil]
  · rw [hlog, hdone, records, records, List.append_nil]

lemma fail (e : Error) : Does plan store [.unreadable] (Job.fail e : Job Warned α) :=
  .single (fun _ => rfl) (fun warned _ => (List.append_nil warned).symm ▸ Iff.rfl) fun _ => rfl

/-- A record of copying. -/
lemma record {e : Event} {level : LogLevel} {text : String} (hgoes : plan.goesOn store e = true)
    (hmissing : e.missing store = [])
    (hlog : ∀ earlier, plan.eventLog store earlier e = [⟨level, text⟩]) :
    Does plan store [e] (Job.record level text) := by
  refine .single (fun _ => hgoes.symm) (fun warned p => ?_) fun warned => (hlog warned).symm
  rw [hmissing, List.append_nil]
  rfl

/-- The steps of a job and then those of the next, which may depend on the value as long as its steps
do not. -/
lemma bind {job : Job Warned α} {next : α → Job Warned β} (hjob : Does plan store events job)
    (hnext : ∀ s a, (job s).result = .ok a → Does plan store more (next a)) :
    Does plan store (events ++ more) (Job.bind job next) := by
  -- what the job as a whole does, by how its first part ends
  have hends : ∀ warned,
      ((Job.bind job next warned).result.isOk = (events ++ more).all (plan.goesOn store)) ∧
      (∀ p, p ∈ (Job.bind job next warned).state ↔
        p ∈ warned ++ missingIn (plan.done store (events ++ more))) ∧
      (Job.bind job next warned).log = plan.records warned (plan.done store (events ++ more)) := by
    intro warned
    have hreturns := hjob.returns warned
    have hwarns := hjob.warns warned
    have hlog := hjob.log warned
    cases hresult : (job warned).result with
    | error e =>
      rw [hresult] at hreturns
      have hstops : events.all (plan.goesOn store) = false := hreturns.symm
      rw [Job.bind_of_result_error hresult, List.all_append, done_append, hstops,
        if_neg Bool.false_ne_true, List.append_nil, Bool.false_and]
      exact ⟨rfl, hwarns, hlog⟩
    | ok a =>
      rw [hresult] at hreturns
      have hgoes : events.all (plan.goesOn store) = true := hreturns.symm
      have hmore := hnext warned a hresult
      rw [Job.bind_of_result_ok hresult, List.all_append, done_append, hgoes, if_pos rfl,
        Bool.true_and, missingIn_append, records_append]
      refine ⟨hmore.returns _, fun p => ?_, ?_⟩
      · rw [hmore.warns, List.mem_append, hwarns, ← List.append_assoc, ← List.mem_append]
      · rw [hlog, hmore.log]
        exact congrArg _ (records_congr hwarns _)
  exact ⟨fun warned => (hends warned).1, fun warned => (hends warned).2.1,
    fun warned => (hends warned).2.2⟩

/-- What is made of the value is no step. -/
lemma map {job : Job Warned α} (h : Does plan store events job) (f : α → β) :
    Does plan store events (Job.bind job fun a => Job.ok (f a)) := by
  rw [← List.append_nil events]
  exact h.bind fun _ a _ => .ok (f a)

lemma forEach {items : List α} {job : α → Job Warned β} {steps : α → List Event}
    (h : ∀ a ∈ items, Does plan store (steps a) (job a)) :
    Does plan store (items.flatMap steps) (Job.forEach items job) := by
  induction items with
  | nil => exact .ok []
  | cons a items ih =>
    obtain ⟨ha, hrest⟩ := List.forall_mem_cons.mp h
    rw [List.flatMap_cons, Job.forEach]
    exact ha.bind fun _ b _ => (ih hrest).map (b :: ·)

end Does

/-! ## Calls -/

section

variable {locale key : String}

/-- Behind the lookup only the records of plural tables are written, and nothing is warned of. -/
lemma literalFor_records {resolved : Option Resolved}
    (hlookup : store.lookup locale key = .ok resolved) (args : List Value) (warned : Warned) :
    (plan.literalFor store locale key args warned).state =
      (Plan.found store locale key warned).state ∧
    (plan.literalFor store locale key args warned).log =
      (Plan.found store locale key warned).log ++ plan.resolutionLog store locale key args := by
  unfold literalFor
  simp only [Job.bind_eq]
  rw [Job.bind_of_result_ok (ends_found hlookup warned)]
  simp only [resolutionLog, hlookup]
  by_cases hraw : plan.pluralKeys.contains key = true
  · rw [if_pos hraw, if_pos hraw]
    exact ⟨rfl, rfl⟩
  · rw [if_neg hraw, if_neg hraw, Job.bind_ofLogged_ofExcept]
    exact ⟨rfl, rfl⟩

/-- A call is one step, which goes on if the call is rendered. -/
lemma does_literalFor (locale key : String) (args : List Value) :
    Does plan store [.call locale key args] (plan.literalFor store locale key args) := by
  have hreturns : ∀ warned, (plan.literalFor store locale key args warned).result.isOk =
      plan.goesOn store (.call locale key args) := by
    intro warned
    rw [(plan.agree_literalFor store locale key args warned [] trivial).2]
    rfl
  cases hlookup : store.lookup locale key with
  | error e =>
    have hstep : ∀ warned,
        plan.literalFor store locale key args warned = ⟨warned, .error e, []⟩ := by
      intro warned
      have hfound : Plan.found store locale key warned = ⟨warned, .error e, []⟩ := by
        unfold Plan.found
        rw [hlookup]
        rfl
      unfold literalFor
      exact Job.bind_of_step_error hfound
    refine .single hreturns (fun warned p => ?_) fun warned => ?_
    · rw [hstep, Event.missing, isMissing, hlookup, if_neg Bool.false_ne_true, List.append_nil]
    · rw [hstep, eventLog, Event.missing, isMissing, resolutionLog, hlookup]
      rfl
  | ok resolved =>
    refine .single hreturns (fun warned p => ?_) fun warned => ?_
    · rw [(literalFor_records hlookup args warned).1]
      exact (found_records hlookup args warned).2 p
    · rw [(literalFor_records hlookup args warned).2, (found_records hlookup args warned).1, eventLog]

end

/-! ## Code -/

/-- The steps of code: its calls in order, up to a token that cannot be read. -/
def codeEvents (code locale fileName : String) : List Event :=
  let (tokens, fault) := Token.scan code fileName
  tokens.map (fun token => .call locale token.key token.args) ++
    if fault.isSome then [.unreadable] else []

lemma does_renderSegments (locale : String) (pieces : List Token.Segment) :
    Does plan store
      ((pieces.filterMap fun
        | .call token => some token
        | .text _ => none).map fun token => .call locale token.key token.args)
      (Token.renderSegments locale
        (fun token => plan.literalFor store locale token.key token.args) pieces) := by
  induction pieces with
  | nil => exact .ok []
  | cons piece pieces ih =>
    cases piece with
    | text cs => exact ih.map (Token.replaceSentinel locale cs ++ ·)
    | call token =>
      exact (does_literalFor locale token.key token.args).bind fun _ text _ =>
        ih.map (text.toList ++ ·)

lemma does_localize (code locale fileName : String) :
    Does plan store (codeEvents code locale fileName) (plan.localize store code locale fileName) := by
  unfold localize Token.replace codeEvents Token.scan
  cases Token.segments code fileName with
  | mk pieces fault =>
    refine (does_renderSegments locale pieces).bind fun _ text _ => ?_
    cases fault with
    | none => exact .ok (String.ofList text)
    | some fault => exact .fail (.fault fault)

/-! ## Copies -/

/-- The steps of a copy for a locale; none if the artifact is out of scope. -/
def copyEvents (plan : Plan) (artifact : Artifact) (locale : String) : List Event :=
  match plan.target? artifact.fileName locale with
  | none => []
  | some target =>
    match artifact.code? with
    | some code =>
      codeEvents code locale artifact.fileName ++ [.translated artifact.fileName target]
    | none => [.copied artifact.fileName target]

lemma does_copyFor {artifact : Artifact} {locale target : String}
    (htarget : plan.target? artifact.fileName locale = some target) :
    Does plan store (plan.copyEvents artifact locale) (plan.copyFor store artifact locale target) := by
  unfold copyFor
  simp only [copyEvents, htarget]
  cases artifact.code? with
  | none =>
    have hcopied : Does plan store [.copied artifact.fileName target] (Job.record .debug
        ("copied " ++ artifact.fileName ++ " -> " ++ target)) := .record rfl rfl fun _ => rfl
    exact hcopied.map fun _ => _
  | some code =>
    have htranslated : Does plan store [.translated artifact.fileName target] (Job.record .debug
        ("translated " ++ artifact.fileName ++ " -> " ++ target)) := .record rfl rfl fun _ => rfl
    exact (does_localize code locale artifact.fileName).bind fun _ translated _ =>
      htranslated.map fun _ => _

lemma does_copiesFor (artifact : Artifact) (locales : List String) :
    Does plan store (locales.flatMap (plan.copyEvents artifact))
      (plan.copiesFor store artifact locales) := by
  by_cases hscope : InScope plan.assetsDirectory artifact.fileName
  · induction locales with
    | nil => exact .ok []
    | cons locale locales ih =>
      rw [List.flatMap_cons, copiesFor]
      cases htarget : plan.target? artifact.fileName locale with
      | none => exact absurd hscope (target?_eq_none_iff.mp htarget)
      | some target =>
        exact (does_copyFor htarget).bind fun _ copy _ => ih.map (copy :: ·)
  · have hnone : locales.flatMap (plan.copyEvents artifact) = [] := by
      refine List.flatMap_eq_nil_iff.mpr fun locale _ => ?_
      rw [copyEvents, target?_eq_none_iff.mpr hscope]
    rw [hnone, copiesFor_of_not_inScope hscope]
    exact .ok []

/-- The artifacts in scope. -/
def inScope (plan : Plan) (artifacts : List Artifact) : List Artifact :=
  artifacts.filter fun artifact => InScope plan.assetsDirectory artifact.fileName

/-- The steps of copying artifacts: each in its order, and a record at the end. -/
def copyAllEvents (plan : Plan) (store : Store) (artifacts : List Artifact) : List Event :=
  let locales := store.locales.codes
  artifacts.flatMap (fun artifact => locales.flatMap (plan.copyEvents artifact)) ++
    [.replicated (plan.inScope artifacts).length locales.length
      ((plan.inScope artifacts).length * locales.length)]

/-- An artifact has a copy for each locale, or none. -/
lemma gives_copies_length (artifact : Artifact) :
    Job.Gives (fun _ => True)
      (fun copies => copies.length = if InScope plan.assetsDirectory artifact.fileName
        then store.locales.codes.length else 0)
      (plan.copies store artifact) := by
  unfold copies
  by_cases hscope : InScope plan.assetsDirectory artifact.fileName
  · rw [if_pos hscope]
    have hcopies : Job.Gives (fun _ => True)
        (fun copies => List.Forall₂ (fun _ _ => True) store.locales.codes copies)
        (plan.copiesFor store artifact store.locales.codes) :=
      gives_copiesFor hscope fun _ _ _ _ _ => ⟨fun _ _ => trivial, fun _ _ => trivial⟩
    exact hcopies.imp (fun _ _ => trivial) fun _ h => h.length_eq.symm
  · rw [if_neg hscope, copiesFor_of_not_inScope hscope]
    exact Job.gives_ok rfl

omit [Plural.Cldr] in
/-- So many artifacts were copied, to so many files. -/
lemma length_copies {artifacts : List Artifact} {groups : List (List Artifact)} {count : ℕ}
    (hcount : count ≠ 0) (h : List.Forall₂ (fun artifact group => group.length =
      if InScope plan.assetsDirectory artifact.fileName then count else 0) artifacts groups) :
    (groups.filter fun group => !group.isEmpty).length = (plan.inScope artifacts).length ∧
      groups.flatten.length = (plan.inScope artifacts).length * count := by
  induction h with
  | nil => exact ⟨rfl, (Nat.zero_mul count).symm⟩
  | @cons artifact group artifacts groups hgroup _ ih =>
    obtain ⟨hnumber, hfiles⟩ := ih
    rw [List.flatten_cons, List.length_append, hfiles, hgroup]
    unfold inScope at hnumber ⊢
    by_cases hscope : InScope plan.assetsDirectory artifact.fileName
    · rw [if_pos hscope] at hgroup
      have hfull : group.isEmpty = false := by
        rw [List.isEmpty_eq_false_iff, ← List.length_pos_iff, hgroup]
        exact Nat.pos_of_ne_zero hcount
      simp only [List.filter_cons, hfull, hscope, Bool.not_false, decide_true, if_true,
        List.length_cons, hnumber, true_and]
      ring
    · rw [if_neg hscope] at hgroup
      obtain rfl := List.length_eq_zero_iff.mp hgroup
      simp only [List.filter_cons, List.isEmpty_nil, hscope, Bool.not_true, decide_false,
        Bool.false_eq_true, if_false, hnumber, Nat.zero_add, and_self]

lemma does_copyAll (artifacts : List Artifact) :
    Does plan store (plan.copyAllEvents store artifacts) (plan.copyAll store artifacts) := by
  have hlocales : store.locales.codes.length ≠ 0 :=
    (List.length_pos_of_mem store.locales.default_mem).ne'
  have hgroups : Job.Gives (fun _ => True) (fun groups => List.Forall₂ (fun artifact group =>
      group.length = if InScope plan.assetsDirectory artifact.fileName
        then store.locales.codes.length else 0) artifacts groups)
      (Job.forEach artifacts (plan.copies store)) :=
    Job.gives_forEach fun artifact _ => gives_copies_length artifact
  unfold copyAll copyAllEvents
  refine (Does.forEach fun artifact _ => does_copiesFor artifact _).bind fun s groups hresult => ?_
  obtain ⟨hnumber, hfiles⟩ := length_copies hlocales ((hgroups s).2 groups hresult)
  rw [← hfiles, ← hnumber]
  exact (Does.record rfl rfl fun _ => rfl).map fun _ => groups.flatten

end Plan

end LocaleBundle.Bundle
