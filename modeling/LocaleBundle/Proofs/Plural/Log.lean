import LocaleBundle.Plural.Table
import LocaleBundle.Proofs.Logged

/-!
# What resolving a plural table writes to the log

The search for a category may meet an unknown locale, each redirect that is followed is written
down, and so is a value for which no case is there.
-/

namespace LocaleBundle.Plural

/-- A record that is written when a plural table is resolved. -/
inductive IsPluralRecord : LogRecord → Prop
  | unknownLocale (locale : String) : IsPluralRecord
    ⟨.warning, "Locale '" ++ locale ++ "' unknown to CLDR, using one/other plural rule"⟩
  | redirect (key target : String) : IsPluralRecord
    ⟨.debug, "Plural redirect " ++ key ++ " -> " ++ target⟩
  | noCase (key : String) (v : Value) : IsPluralRecord
    ⟨.warning, (Diagnostic.noPluralCase key v).message⟩

/-- Whether a computation writes no other records. -/
def WritesPlural {α : Type} (x : Logged α) : Prop := ∀ record ∈ x.log, IsPluralRecord record

section

variable {α β : Type}

lemma writesPlural_ok (a : α) : WritesPlural (Logged.ok a) := fun _ h => absurd h List.not_mem_nil

lemma writesPlural_fail (e : Error) : WritesPlural (Logged.fail e : Logged α) :=
  fun _ h => absurd h List.not_mem_nil

lemma writesPlural_ofExcept (x : Except Error α) : WritesPlural (Logged.ofExcept x) := by
  cases x with
  | error e => exact writesPlural_fail e
  | ok a => exact writesPlural_ok a

lemma writesPlural_record {level : LogLevel} {text : String} (h : IsPluralRecord ⟨level, text⟩) :
    WritesPlural (Logged.record level text) :=
  fun _ hmem => List.mem_singleton.mp hmem ▸ h

lemma WritesPlural.bind {x : Logged α} {next : α → Logged β} (hx : WritesPlural x)
    (hnext : ∀ a, WritesPlural (next a)) : WritesPlural (x >>= next) := by
  intro record hrecord
  simp only [Bind.bind, Logged.bind] at hrecord
  cases hresult : x.result with
  | error e =>
    simp only [hresult] at hrecord
    exact hx record hrecord
  | ok a =>
    simp only [hresult] at hrecord
    exact (List.mem_append.mp hrecord).elim (hx record) (hnext a record)

end

lemma writesPlural_fillSelected (selected : Option String) (args : List Value) (key : String) :
    WritesPlural (fillSelected selected args key) := by
  cases selected with
  | some template => exact writesPlural_ok _
  | none => exact (writesPlural_record (.noCase key _)).bind fun _ => writesPlural_ok _

lemma Table.writesPlural_follow (table : Table) (fuel : ℕ) (visited : List String) (current : String) :
    WritesPlural (table.follow fuel visited current) := by
  induction fuel generalizing visited current with
  | zero => exact writesPlural_ok _
  | succ fuel ih =>
    rw [Table.follow]
    split
    · exact writesPlural_fail _
    · split
      · exact writesPlural_ok _
      · exact writesPlural_ok _
      · -- a redirect goes on at its target, at the wildcard or nowhere
        refine (writesPlural_record (.redirect current _)).bind fun _ => ?_
        split
        · exact ih _ _
        · split
          · exact ih _ _
          · exact writesPlural_ok _
      · exact writesPlural_fail _

variable [Cldr]

lemma writesPlural_categoryIn (v : Value) (locale : String) : WritesPlural (categoryIn v locale) := by
  unfold categoryIn
  cases formOf? locale with
  | some form => exact writesPlural_ofExcept _
  | none =>
    exact (writesPlural_record (.unknownLocale locale)).bind fun _ => writesPlural_ofExcept _

lemma writesPlural_startAmong (isThere : String → Bool) (v : Value) (locale : Option String) :
    WritesPlural (startAmong isThere v locale) := by
  simp only [startAmong]
  -- null, a match key of the table, no locale, a number and its category, and no number
  split
  · exact writesPlural_ok _
  · split
    · exact writesPlural_ok _
    · split
      · exact writesPlural_ok _
      · split
        · exact (writesPlural_categoryIn v _).bind fun _ => writesPlural_ok _
        · exact writesPlural_ok _

namespace Table

variable (table : Table)

lemma writesPlural_select (v : Value) (locale : Option String) :
    WritesPlural (table.select v locale) := by
  refine (writesPlural_startAmong _ v locale).bind fun start? => ?_
  cases start? with
  | none => exact writesPlural_ok _
  | some key => exact table.writesPlural_follow _ _ _

lemma writesPlural_resolve (args : List Value) (key : String) (locale : Option String) :
    WritesPlural (table.resolve args key locale) :=
  (table.writesPlural_select _ locale).bind fun selected => writesPlural_fillSelected selected args key

end Table

end LocaleBundle.Plural
