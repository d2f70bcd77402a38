import LocaleBundle.Proofs.Plural.Resolving

/-!
# Values that are no records

A value that has not the shape of a record is refused for the first check that it does not pass: it is
an object, its translations are one, each of them is a text or a table of texts and redirects, and the
name is a text. What passes is a record with tables that no search refuses for their entries.
-/

namespace LocaleBundle.Locale.Record

variable {key reason : String} {v : Value} {translations : Entries Value}

/-! ## What is wrong with a value -/

/-- What is wrong with the translation of a key: it is a table with an entry that is no template and no
redirect, or no table and no text. -/
inductive IsBadTranslation (key : String) : Value → String → Prop
  | case {before rest : Entries Value} {matchKey : String} {entry : Value}
    (hbefore : ∀ e ∈ before, isCase e.2 = true) (hentry : isCase entry = false) :
    IsBadTranslation key (.map (before ++ (matchKey, entry) :: rest))
      ("plural case " ++ Text.quoted matchKey ++ " of " ++ Text.quoted key
        ++ " must be a string or integer")
  | type {v : Value} (htext : ∀ s, v ≠ .text s) (htable : ∀ table, v ≠ .map table) :
    IsBadTranslation key v
      ("translation for " ++ Text.quoted key ++ " must be a string or plural object")

/-- What is wrong with a value that is no record: the first of the checks that it does not pass. -/
inductive IsBad : Value → String → Prop
  | type {v : Value} (h : ∀ fields, v ≠ .map fields) :
    IsBad v ("expected a JSON object, got " ++ v.typeName)
  | translations {fields : Entries Value} {v : Value}
    (hfield : Entries.get? "translations" fields = some v) (h : ∀ table, v ≠ .map table) :
    IsBad (.map fields) "\"translations\" must be an object"
  | translation {fields before rest : Entries Value} {key reason : String} {v : Value}
    (hfield : Entries.get? "translations" fields = some (.map (before ++ (key, v) :: rest)))
    (hbefore : ∀ e ∈ before, IsTranslation e.2) (h : IsBadTranslation key v reason) :
    IsBad (.map fields) reason
  | name {fields : Entries Value}
    (htranslations : ∀ v, Entries.get? "translations" fields = some v →
      ∃ table, v = .map table ∧ ∀ e ∈ table, IsTranslation e.2)
    (htruthy : (field "name" fields).isTruthy = true) (h : ∀ s, field "name" fields ≠ .text s) :
    IsBad (.map fields) "\"name\" must be a string"

lemma translationFlaw?_eq_some_iff :
    translationFlaw? key v = some reason ↔ IsBadTranslation key v reason := by
  constructor
  · intro h
    cases v with
    | text s => exact absurd h (by simp [translationFlaw?])
    | map table =>
      obtain ⟨⟨matchKey, entry⟩, hfind, rfl⟩ := Option.map_eq_some_iff.mp h
      obtain ⟨hentry, before, rest, rfl, hbefore⟩ := List.find?_eq_some_iff_append.mp hfind
      exact .case (by simpa using hbefore) (by simpa using hentry)
    | _ =>
      obtain rfl := Option.some.inj h
      exact .type (by simp) (by simp)
  · intro h
    cases h with
    | @case before rest matchKey entry hbefore hentry =>
      refine Option.map_eq_some_iff.mpr ⟨(matchKey, entry), ?_, rfl⟩
      exact List.find?_eq_some_iff_append.mpr ⟨by simp [hentry], before, rest, rfl, by simpa using hbefore⟩
    | type htext htable =>
      cases v with
      | text s => exact absurd rfl (htext s)
      | map table => exact absurd rfl (htable table)
      | _ => rfl

/-- The first translation that is wrong is the one that is named. -/
lemma translationsFlaw?_eq_some_iff : translationsFlaw? translations = some reason ↔
    ∃ before key v rest, translations = before ++ (key, v) :: rest ∧
      (∀ e ∈ before, IsTranslation e.2) ∧ IsBadTranslation key v reason := by
  rw [translationsFlaw?, List.findSome?_eq_some_iff]
  constructor
  · rintro ⟨before, ⟨key, v⟩, rest, hsplit, hflaw, hbefore⟩
    exact ⟨before, key, v, rest, hsplit, fun e he => translationFlaw?_eq_none_iff.mp (hbefore e he),
      translationFlaw?_eq_some_iff.mp hflaw⟩
  · rintro ⟨before, key, v, rest, hsplit, hbefore, hbad⟩
    exact ⟨before, (key, v), rest, hsplit, translationFlaw?_eq_some_iff.mpr hbad,
      fun e he => translationFlaw?_eq_none_iff.mpr (hbefore e he)⟩

/-- What is wrong with a value is what it is refused for. -/
lemma ofValue?_of_isBad (h : IsBad v reason) : ofValue? v = .error reason := by
  cases h with
  | type h =>
    cases v with
    | map fields => exact absurd rfl (h fields)
    | _ => rfl
  | @translations fields v hfield h =>
    cases v with
    | map table => exact absurd rfl (h table)
    | _ => simp only [ofValue?, hfield, Option.getD_some]
  | @translation fields before rest key _ w hfield hbefore h =>
    have hflaw : translationsFlaw? (before ++ (key, w) :: rest) = some reason :=
      translationsFlaw?_eq_some_iff.mpr ⟨before, key, w, rest, rfl, hbefore, h⟩
    simp only [ofValue?, hfield, Option.getD_some, hflaw]
  | @name fields htranslations htruthy h =>
    obtain ⟨table, htable, hare⟩ : ∃ table,
        (Entries.get? "translations" fields).getD (.map []) = .map table ∧
          ∀ e ∈ table, IsTranslation e.2 := by
      cases hget : Entries.get? "translations" fields with
      | none => exact ⟨[], rfl, List.forall_mem_nil _⟩
      | some v => exact htranslations v hget
    have hname : (field "name" fields).asText? = none := by
      cases hfield : field "name" fields with
      | text s => exact absurd hfield (h s)
      | _ => rfl
    simp only [ofValue?, htable, translationsFlaw?_eq_none_iff.mpr hare, htruthy, if_true, hname]

/-- The translations of an object are in order, or something is wrong with them. -/
lemma areTranslations_or_isBad (fields : Entries Value) :
    (∀ v, Entries.get? "translations" fields = some v →
      ∃ table, v = .map table ∧ ∀ e ∈ table, IsTranslation e.2) ∨ ∃ reason, IsBad (.map fields) reason := by
  cases hfield : Entries.get? "translations" fields with
  | none => exact Or.inl (by simp)
  | some v =>
    cases v with
    | map table =>
      cases hflaw : translationsFlaw? table with
      | none =>
        refine Or.inl fun v hv => ⟨table, (Option.some.inj hv).symm, ?_⟩
        exact translationsFlaw?_eq_none_iff.mp hflaw
      | some reason =>
        obtain ⟨before, key, v, rest, rfl, hbefore, hbad⟩ := translationsFlaw?_eq_some_iff.mp hflaw
        exact Or.inr ⟨reason, .translation hfield hbefore hbad⟩
    | _ => exact Or.inr ⟨_, .translations hfield (by simp)⟩

/-- Every value has the shape of a record, or something is wrong with it. -/
lemma hasShape_or_isBad (v : Value) :
    (∃ fields, v = .map fields ∧ HasShape fields) ∨ ∃ reason, IsBad v reason := by
  cases v with
  | map fields =>
    rcases areTranslations_or_isBad fields with htranslations | hbad
    · by_cases hname : (field "name" fields).isTruthy = true → ∃ s, field "name" fields = .text s
      · exact Or.inl ⟨fields, rfl, htranslations, hname⟩
      · push Not at hname
        exact Or.inr ⟨_, .name htranslations hname.1 hname.2⟩
    · exact Or.inr hbad
  | _ => exact Or.inr ⟨_, .type (by simp)⟩

/-- A value is refused exactly for what is wrong with it. -/
theorem ofValue?_eq_error_iff : ofValue? v = .error reason ↔ IsBad v reason := by
  refine ⟨fun h => ?_, ofValue?_of_isBad⟩
  rcases hasShape_or_isBad v with ⟨fields, rfl, hshape⟩ | ⟨other, hbad⟩
  · obtain ⟨record, hrecord⟩ := hasShape_iff.mp hshape
    have hok := ofValue?_eq_ok_iff.mpr ⟨fields, rfl, hrecord⟩
    exact absurd (hok.symm.trans h) (by simp)
  · obtain rfl := Except.error.inj ((ofValue?_of_isBad hbad).symm.trans h)
    exact hbad

variable [Plural.Cldr]

/-- Reading a record accepts the values that have its shape and no others. A value that has not is
refused with the path of the file and what is wrong. A record that is returned is the one that the
fields make, and has every other field with its value; a search in one of its tables never fails for an
entry, but for a number without a category or for redirects that come back. -/
theorem ofValue_exact (v : Value) (filePath locale : String) :
    ((∃ record, ofValue v filePath locale = .ok record) ↔
      ∃ fields, v = .map fields ∧ HasShape fields) ∧
    (∀ e, ofValue v filePath locale = .error e ↔
      ∃ reason, IsBad v reason ∧ e = .fault (.badLocaleFile filePath locale reason)) ∧
    ∀ record, ofValue v filePath locale = .ok record →
      ∃ fields, v = .map fields ∧ IsRecordOf fields record ∧
        (∀ name ∉ fieldNames, Entries.get? name record.extra = Entries.get? name fields) ∧
        ∀ key table, (key, .map table) ∈ record.translations → ∀ value code e,
          (Plural.Table.select table value code).result = .error e →
            (∀ fault, e = .fault fault → fault.kind ≠ .badPluralCase) ∧
            ((∃ err, e = .quantity err) ∨ ∃ path, e = .fault (.redirectCycle path)) := by
  have hok : ∀ record, ofValue v filePath locale = .ok record ↔ ofValue? v = .ok record := by
    intro record
    unfold ofValue
    cases ofValue? v <;> simp [Except.mapError]
  refine ⟨?_, fun e => ?_, fun record hrecord => ?_⟩
  · simp only [hok, ofValue?_eq_ok_iff, hasShape_iff]
    exact ⟨fun ⟨record, fields, hv, h⟩ => ⟨fields, hv, record, h⟩,
      fun ⟨fields, hv, record, h⟩ => ⟨record, fields, hv, h⟩⟩
  · simp only [← ofValue?_eq_error_iff]
    unfold ofValue
    cases ofValue? v <;> simp [Except.mapError, eq_comm]
  · have hvalue := (hok record).mp hrecord
    obtain ⟨fields, rfl, h⟩ := ofValue?_eq_ok_iff.mp hvalue
    refine ⟨fields, rfl, h, fun name hname => ?_, fun key table htable value code e he => ?_⟩
    · rw [h.extra, Entries.get?_without hname]
    · have herror := Plural.Table.error_of_select (Plural.Table.hasCases_of_ofValue? hvalue htable) he
      refine ⟨?_, herror⟩
      rintro fault rfl
      rcases herror with ⟨err, herr⟩ | ⟨path, hpath⟩
      · exact absurd herr (by simp)
      · obtain rfl := Error.fault.inj hpath
        exact fun hkind => absurd hkind (by simp [Fault.redirectCycle])

end LocaleBundle.Locale.Record
