import LocaleBundle.Proofs.Bundle.Inlining
import LocaleBundle.Proofs.Bundle.Target
import LocaleBundle.Proofs.Locale.Load
import LocaleBundle.Proofs.Token.Replacing

/-!
# Plural tables in copies

If the keys that are left for run time are known to hold those of all plural tables in the store,
then no table is ever resolved while copies are made: a call that finds one is replaced by its JSON.
Making copies can then fail for no fault but a placeholder that cannot be read.
-/

namespace LocaleBundle

/-- Whether an error is no fault, or that of a placeholder that cannot be read. -/
def Error.OnlyPlaceholder (e : Error) : Prop :=
  ∀ f, e = .fault f → ∃ fileName offset reason, f = .badPlaceholder fileName offset reason

namespace Locale.Store

/-- A lookup fails only where no record is loaded. -/
lemma lookupIn_error {store : Store} {requested key : String} {chain : List String} {e : Error}
    (h : store.lookupIn requested key chain = .error e) : ∃ locale, e = .notLoaded locale := by
  obtain ⟨front, code, back, -, -, hcode⟩ := lookupIn_eq_error_iff.mp h
  unfold get at hcode
  split at hcode
  · exact ⟨code, (Except.error.inj hcode).symm⟩
  · exact absurd hcode (by simp)

end Locale.Store

namespace Bundle.Plan

open Locale

variable {plan : Plan} {store : Store} {locale key : String} {warned : Warned}

lemma eq_map_of_orKey {v : Value} {table : Entries Value} (h : orKey v key = .map table) :
    v = .map table := by
  cases v with
  | null => exact absurd h (by simp [orKey])
  | _ => exact h

/-- A table that is found for a key stands in some record. -/
lemma mem_tableKeys_of_lookup {resolved : Option Resolved} {table : Entries Value}
    (hlookup : store.lookup locale key = .ok resolved)
    (hvalue : orKey (foundValue resolved) key = .map table) : key ∈ store.tableKeys := by
  have hmap : foundValue resolved = .map table := eq_map_of_orKey hvalue
  cases resolved with
  | none => exact absurd hmap (by simp [foundValue])
  | some resolved =>
    obtain ⟨record, hrecord, hentry, -⟩ := Store.exists_of_lookupIn hlookup
    have hvalue : resolved.value = .map table := hmap
    rw [hvalue] at hentry
    exact Workspace.mem_tableKeys_iff.mpr ⟨_, hrecord, table, hentry⟩

lemma mem_tableKeys_of_found {table : Entries Value}
    (h : (Plan.found store locale key warned).result = .ok (.map table)) :
    key ∈ store.tableKeys := by
  obtain ⟨resolved, hlookup, hvalue⟩ := exists_of_found h
  exact mem_tableKeys_of_lookup hlookup hvalue.symm

/-- A table that is found is put in as it is, if its key is left for run time. -/
lemma literalFor_of_found_table [Plural.Cldr] {args : List Value} {table : Entries Value}
    (h : (Plan.found store locale key warned).result = .ok (.map table))
    (hkey : key ∈ plan.pluralKeys) :
    (plan.literalFor store locale key args warned).result = literal (.map table) := by
  have hliteral : Job.outcome (plan.literalFor store locale key args) warned =
      ((Plan.found store locale key warned).state, literal (.map table)) := by
    unfold literalFor
    rw [Job.bind_eq, Job.outcome_bind_ok (Job.outcome_of_result h),
      if_pos (List.contains_iff_mem.mpr hkey)]
    rfl
  exact congrArg Prod.snd hliteral

/-! ## Errors -/

lemma onlyPlaceholder_of_literal {v : Value} {e : Error} (h : literal v = .error e) :
    e.OnlyPlaceholder := by
  intro f hf
  rw [hf] at h
  unfold literal at h
  split at h
  · exact absurd (Except.error.inj h) (by simp)
  · exact absurd h (by simp)

lemma onlyPlaceholder_of_settledText [Plural.Cldr] {v : Value} {args : List Value} {e : Error}
    (hv : ∀ table, v ≠ .map table) (h : (settledText v args key locale).result = .error e) :
    e.OnlyPlaceholder := by
  intro f hf
  rw [hf] at h
  cases v with
  | map table => exact absurd rfl (hv table)
  | text template =>
    rw [settledText_text] at h
    exact absurd h (by simp [Logged.ok])
  | _ => exact absurd (Except.error.inj h) (by simp)

/-- What is found for a key is no table, or some record has a table for the key. -/
lemma gives_found_table (store : Store) (locale key : String) :
    Job.Gives Error.OnlyPlaceholder (fun v => ∀ table, v = .map table → key ∈ store.tableKeys)
      (Plan.found store locale key) := by
  apply gives_found
  · intro e he
    obtain ⟨missing, rfl⟩ := Store.lookupIn_error he
    intro f hf
    exact absurd hf (by simp)
  · exact fun resolved hlookup table htable => mem_tableKeys_of_lookup hlookup htable

variable [Plural.Cldr] (hlists : ∀ key ∈ store.tableKeys, key ∈ plan.pluralKeys)

include hlists

/-- No table is resolved for a literal. -/
lemma gives_literalFor (locale key : String) (args : List Value) :
    Job.Gives Error.OnlyPlaceholder (fun _ => True) (plan.literalFor store locale key args) := by
  unfold literalFor
  refine (gives_found_table store locale key).bind fun translation htable => ?_
  by_cases hplural : key ∈ plan.pluralKeys
  · rw [if_pos (List.contains_iff_mem.mpr hplural)]
    exact Job.gives_ofExcept (fun _ => onlyPlaceholder_of_literal) fun _ _ => trivial
  · -- a table would have its key among the plural keys
    have hno : ∀ table, translation ≠ .map table :=
      fun table hmap => hplural (hlists key (htable table hmap))
    rw [if_neg (by simpa using hplural)]
    refine Job.Gives.bind (Q := fun _ => True) (fun warned => ⟨fun e he => ?_, fun _ _ => trivial⟩)
      fun text _ => ?_
    · exact onlyPlaceholder_of_settledText hno he
    · exact Job.gives_ofExcept (fun _ => onlyPlaceholder_of_literal) fun _ _ => trivial

lemma gives_copyFor (artifact : Artifact) (locale target : String) :
    Job.Gives Error.OnlyPlaceholder (fun _ => True) (plan.copyFor store artifact locale target) := by
  unfold copyFor
  cases artifact.code? with
  | none => exact (Job.gives_ok trivial).after_record _ _
  | some code =>
    have hlocalize := Token.gives_replace (E := Error.OnlyPlaceholder) code locale artifact.fileName
      (fun token => gives_literalFor hlists locale token.key token.args)
      (fun offset reason _ f hf => ⟨_, offset, reason, (Error.fault.inj hf).symm⟩)
    exact hlocalize.bind fun _ _ => (Job.gives_ok trivial).after_record _ _

lemma gives_copies (artifact : Artifact) :
    Job.Gives Error.OnlyPlaceholder (fun _ => True) (plan.copies store artifact) := by
  unfold copies
  by_cases hscope : InScope plan.assetsDirectory artifact.fileName
  · exact (gives_copiesFor hscope fun locale _ target _ =>
      gives_copyFor hlists artifact locale target).imp (fun _ h => h) fun _ _ => trivial
  · rw [copiesFor_of_not_inScope hscope]
    exact Job.gives_ok trivial

/-- If the plural keys have those of all tables, making copies fails for no fault but a placeholder
that cannot be read. -/
theorem gives_copyAll (artifacts : List Artifact) :
    Job.Gives Error.OnlyPlaceholder (fun _ => True) (plan.copyAll store artifacts) := by
  unfold copyAll
  refine (Job.gives_forEach fun artifact _ => gives_copies hlists artifact).bind fun copies _ => ?_
  exact (Job.gives_ok trivial).after_record _ _

end Bundle.Plan

end LocaleBundle
