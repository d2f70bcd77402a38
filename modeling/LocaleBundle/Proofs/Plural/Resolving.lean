import LocaleBundle.Proofs.Locale.Record
import LocaleBundle.Proofs.Plural.Category
import LocaleBundle.Proofs.Plural.Walk

/-!
# Tables with a template under the wildcard

A table whose wildcard has a template has one for every value, so a call resolves to a text unless
redirects come back. The search starts before that with the value's match key or its category, and
there a number that is not finite fails if the locale is known.
-/

namespace LocaleBundle.Plural.Table

open Locale

variable {table : Table} {v : Value} {args : List Value} {key s template : String}
  {locale : Option String} {e : Error}

/-- The tables of a record have templates and redirects only. -/
lemma hasCases_of_ofValue? {file : Value} {record : Record} {name : String}
    (hfile : Record.ofValue? file = .ok record) (htable : (name, .map table) ∈ record.translations) :
    table.HasCases := by
  obtain ⟨fields, -, hrecord⟩ := Record.ofValue?_eq_ok_iff.mp hfile
  have htranslation : Record.IsTranslation (.map table) := hrecord.areTranslations _ htable
  cases htranslation with
  | table hcases => exact hcases

/-! ## Failures -/

section

variable [Cldr]

/-- A search fails to start exactly if it is for a number that has no category, its match key is not
there and a locale is given. -/
lemma startAmong_eq_error_iff {isThere : String → Bool} :
    (startAmong isThere v locale).result = .error e ↔ v.isNumber = true ∧
      isThere v.matchKey = false ∧ ∃ code ∈ locale, (categoryIn v code).result = .error e := by
  constructor
  · intro hstart
    simp only [startAmong] at hstart
    -- null, a match key of the table, no locale, a number and its category, and no number
    split at hstart
    · exact absurd hstart (by simp [Logged.ok])
    · split at hstart
      · exact absurd hstart (by simp [Logged.ok])
      · rename_i habsent
        split at hstart
        · exact absurd hstart (by simp [Logged.ok])
        · rename_i code
          split at hstart
          · rename_i hnumber
            rw [Logged.result_bind] at hstart
            cases hcategory : (categoryIn v code).result with
            | ok c =>
              rw [hcategory] at hstart
              exact absurd hstart (by simp [Bind.bind, Except.bind, Logged.ok])
            | error other =>
              rw [hcategory] at hstart
              obtain rfl := Except.error.inj hstart
              exact ⟨hnumber, Bool.eq_false_iff.mpr habsent, code, rfl, hcategory⟩
          · exact absurd hstart (by simp [Logged.ok])
  · rintro ⟨hnumber, habsent, code, rfl, hcategory⟩
    cases v with
    | null => exact absurd hnumber (by simp [Value.isNumber])
    | _ =>
      simp only [startAmong, habsent, Bool.false_eq_true, if_false, if_pos hnumber,
        Logged.result_bind, hcategory]
      rfl

/-- A search for a literal fails to start exactly if it is a number that is not finite, the table does
not have its match key and a locale is given that is known. -/
lemma start_eq_error_iff (hforms : Cldr.ConvertsNumbers) (h : v.IsLiteral) :
    (table.start v locale).result = .error e ↔ ∃ err, e = .quantity err ∧ NotFinite v err ∧
      v.matchKey ∉ Entries.keys table ∧ ∃ code ∈ locale, (formOf? code).isSome = true := by
  rw [start, startAmong_eq_error_iff, ← Bool.not_eq_true, Entries.contains_iff_mem_keys]
  constructor
  · rintro ⟨hnumber, habsent, code, hcode, hcategory⟩
    obtain ⟨hknown, err, rfl, hnot⟩ := (categoryIn_eq_error_iff hforms h hnumber).mp hcategory
    exact ⟨err, rfl, hnot, habsent, code, hcode, hknown⟩
  · rintro ⟨err, rfl, hnot, habsent, code, hcode, hknown⟩
    exact ⟨hnot.isNumber, habsent, code, hcode,
      (categoryIn_eq_error_iff hforms h hnot.isNumber).mpr ⟨hknown, err, rfl, hnot⟩⟩

lemma select_of_start_error (h : (table.start v locale).result = .error e) :
    (table.select v locale).result = .error e := by
  rw [select, Logged.result_bind, h]
  rfl

/-- A search in a table of templates and redirects fails for a number without a category, or because
redirects come back. -/
lemma error_of_select (hcases : table.HasCases) (h : (table.select v locale).result = .error e) :
    (∃ err, e = .quantity err) ∨ ∃ path, e = .fault (.redirectCycle path) := by
  cases hstart : (table.start v locale).result with
  | error other =>
    obtain rfl := Except.error.inj ((select_of_start_error hstart).symm.trans h)
    obtain ⟨-, -, code, -, hcategory⟩ := startAmong_eq_error_iff.mp hstart
    exact Or.inl (exists_quantity_of_categoryIn hcategory)
  | ok start? =>
    obtain ⟨read, result, hends⟩ := exists_ends hcases hstart
    obtain rfl := (select_of_ends hstart hends).1.symm.trans h
    cases hends with
    | cycle => exact Or.inr ⟨_, rfl⟩

lemma resolve_of_select_error (h : (table.select (args.head?.getD .null) locale).result = .error e) :
    (table.resolve args key locale).result = .error e := by
  rw [resolve, Logged.result_bind, h]
  rfl

lemma resolve_of_select_some
    (h : (table.select (args.head?.getD .null) locale).result = .ok (some s)) :
    (table.resolve args key locale).result = .ok (Template.fill s args) := by
  rw [resolve, Logged.result_bind, h]
  rfl

/-! ## The text of a call -/

/-- A search that starts comes to a template or comes back. -/
lemma resolve_of_start {start? : Option String} (key : String) (hcases : table.HasCases)
    (hwild : Entries.get? wildcard table = some (.text template))
    (hstart : (table.start (args.head?.getD .null) locale).result = .ok start?) :
    (∃ match? s, (match?, .text s) ∈ table ∧
      (table.resolve args key locale).result = .ok (Template.fill s args)) ∨
    ∃ path, (table.resolve args key locale).result = .error (.fault (.redirectCycle path)) := by
  obtain ⟨read, result, hends⟩ := exists_ends hcases hstart
  have hselect := (select_of_ends hstart hends).1
  have hnone := hends.result_ne_none hstart hwild
  cases hends with
  | noStart => exact absurd rfl hnone
  | lost => exact absurd rfl hnone
  | template _ _ hentry =>
    exact Or.inl ⟨_, _, Entries.mem_of_get? hentry, resolve_of_select_some hselect⟩
  | cycle => exact Or.inr ⟨_, resolve_of_select_error hselect⟩

lemma resolve_eq_quantity_iff {err : QuantityError} (key : String) (hcases : table.HasCases)
    (hwild : Entries.get? wildcard table = some (.text template)) :
    (table.resolve args key locale).result = .error (.quantity err) ↔
      (table.start (args.head?.getD .null) locale).result = .error (.quantity err) := by
  cases hstart : (table.start (args.head?.getD .null) locale).result with
  | error e =>
    rw [resolve_of_select_error (select_of_start_error hstart), Except.error.injEq,
      Except.error.injEq]
  | ok start? =>
    refine iff_of_false (fun h => ?_) (by simp)
    rcases resolve_of_start key hcases hwild hstart with ⟨_, s, -, hs⟩ | ⟨path, hpath⟩
    · exact absurd (hs.symm.trans h) (by simp)
    · exact absurd (hpath.symm.trans h) (by simp)

/-- With a template under the wildcard, a table of a record resolves every call with literals to one of
its templates with the arguments put in, unless redirects come back or the first argument is not
finite. The latter is a failure only if the table does not have its match key and a locale is given
that is known. So it is under all plural data whose forms convert numbers. Integers are assumed to have
no more digits than are written (see `Value.argumentText`). -/
theorem resolve_of_wildcard (hforms : Cldr.ConvertsNumbers) {file : Value} {record : Record} {name : String}
    (hfile : Record.ofValue? file = .ok record) (htable : (name, .map table) ∈ record.translations)
    (hwild : Entries.get? wildcard table = some (.text template))
    (hargs : ∀ v ∈ args, v.IsLiteral) (key : String) (locale : Option String) :
    ((∃ match? s, (match?, .text s) ∈ table ∧
        (table.resolve args key locale).result = .ok (Template.fill s args)) ∨
      (∃ path, (table.resolve args key locale).result = .error (.fault (.redirectCycle path))) ∨
      ∃ err, (table.resolve args key locale).result = .error (.quantity err)) ∧
    ∀ err, (table.resolve args key locale).result = .error (.quantity err) ↔
      ∃ v ∈ args.head?, NotFinite v err ∧ v.matchKey ∉ Entries.keys table ∧
        ∃ code ∈ locale, (formOf? code).isSome = true := by
  have hcases := hasCases_of_ofValue? hfile htable
  have hliteral : (args.head?.getD .null).IsLiteral := by
    cases hhead : args.head? with
    | none => exact .null
    | some v => exact hargs v (List.mem_of_mem_head? hhead)
  refine ⟨?_, fun err => ?_⟩
  · cases hstart : (table.start (args.head?.getD .null) locale).result with
    | error e =>
      obtain ⟨err, rfl, -⟩ := (start_eq_error_iff hforms hliteral).mp hstart
      exact Or.inr (Or.inr ⟨err, resolve_of_select_error (select_of_start_error hstart)⟩)
    | ok start? => exact (resolve_of_start key hcases hwild hstart).imp_right Or.inl
  · rw [resolve_eq_quantity_iff key hcases hwild, start_eq_error_iff hforms hliteral]
    cases args.head? with
    | none =>
      -- null is finite
      refine iff_of_false ?_ (by simp)
      rintro ⟨_, -, hnot, -⟩
      cases hnot
    | some v => simp

end

/-- A template for one and a template under the wildcard. -/
def stocked : Table := [("1", .text "one item"), ("*", .text "$1 items")]

/-- The record with this table, and the value that it is read from. -/
def stock : Record :=
  { locale := .text "en", name := "", translations := [("$1 items", .map stocked)] }

def stockFile : Value :=
  .map [("locale", .text "en"), ("translations", .map [("$1 items", .map stocked)])]

theorem resolve_of_wildcard_stocked : Record.ofValue? stockFile = .ok stock ∧
    ("$1 items", .map stocked) ∈ stock.translations ∧
    Entries.get? wildcard stocked = some (.text "$1 items") ∧
    (stocked.resolve [.float .nan] "$1 items" (some "en")).result =
      .error (.quantity .nanDouble) := by
  have hfile : Record.ofValue? stockFile = .ok stock := rfl
  have htable : ("$1 items", .map stocked) ∈ stock.translations := List.mem_cons_self
  have hwild : Entries.get? wildcard stocked = some (.text "$1 items") := rfl
  have hargs : ∀ v ∈ [Value.float .nan], v.IsLiteral := List.forall_mem_singleton.mpr (.float _)
  have hfails := (resolve_of_wildcard listed_convertsNumbers hfile htable hwild hargs "$1 items" (some "en")).2 .nanDouble
  exact ⟨hfile, htable, hwild, hfails.mpr ⟨_, rfl, .nan, by decide, "en", rfl, rfl⟩⟩

/-- A double that is not finite fails where the locale is known, and is put in where it is not. -/
theorem resolve_not_finite : Record.ofValue? stockFile = .ok stock ∧
    (stocked.resolve [.float .nan] "$1 items" (some "en")).result =
      .error (.quantity .nanDouble) ∧
    (stocked.resolve [.float (.infinity false)] "$1 items" (some "en")).result =
      .error (.quantity .infiniteDouble) ∧
    (stocked.resolve [.float .nan] "$1 items" (some "qq")).result = .ok "nan items" ∧
    (stocked.resolve [.float .nan] "$1 items" none).result = .ok "nan items" := by
  exact ⟨rfl, rfl, rfl, rfl, rfl⟩

end LocaleBundle.Plural.Table
