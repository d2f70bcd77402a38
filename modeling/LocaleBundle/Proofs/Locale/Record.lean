import LocaleBundle.Locale.Record
import LocaleBundle.Proofs.Json.IsJson

/-!
# The shape of a record

An object is a record if its translations are texts or plural tables and its name, if it has one,
is a text: `ofValue?` accepts these objects and no others. What a record is written as has that
shape, and the record read from it is the same one.
-/

namespace LocaleBundle.Locale.Record

/-! ## Shapes -/

/-- The values that translate a key: a text, or a table of texts and redirects. -/
inductive IsTranslation : Value → Prop
  | text (s : String) : IsTranslation (.text s)
  | table {cases : Entries Value}
    (hcases : ∀ e ∈ cases, (∃ s, e.2 = .text s) ∨ ∃ n, e.2 = .int n) : IsTranslation (.map cases)

/-- Whether the fields of an object make a record. -/
structure HasShape (fields : Entries Value) : Prop where
  translations : ∀ v, Entries.get? "translations" fields = some v →
    ∃ table, v = .map table ∧ ∀ e ∈ table, IsTranslation e.2
  name : (field "name" fields).isTruthy = true → ∃ s, field "name" fields = .text s

/-- Whether a record is the one that the fields of an object make. -/
structure IsRecordOf (fields : Entries Value) (record : Record) : Prop where
  translations : (Entries.get? "translations" fields).getD (.map []) = .map record.translations
  areTranslations : ∀ e ∈ record.translations, IsTranslation e.2
  name : (field "name" fields = .text record.name ∧ record.name ≠ "") ∨
    (field "name" fields).isTruthy = false ∧ record.name = ""
  locale : record.locale = field "locale" fields
  fallback : record.fallback =
    if (field "fallback" fields).isTruthy then field "fallback" fields else .null
  extra : record.extra = Entries.without fieldNames fields

lemma isCase_iff {v : Value} : isCase v = true ↔ (∃ s, v = .text s) ∨ ∃ n, v = .int n := by
  cases v <;> simp [isCase]

lemma translationFlaw?_eq_none_iff {key : String} {v : Value} :
    translationFlaw? key v = none ↔ IsTranslation v := by
  constructor
  · intro h
    cases v with
    | text s => exact .text s
    | map cases =>
      refine .table fun e he => isCase_iff.mp ?_
      have hfind := List.find?_eq_none.mp (Option.map_eq_none_iff.mp h) e he
      simpa using hfind
    | _ => exact absurd h (by simp [translationFlaw?])
  · intro h
    cases h with
    | text s => rfl
    | table hcases =>
      refine Option.map_eq_none_iff.mpr (List.find?_eq_none.mpr fun e he => ?_)
      simpa using isCase_iff.mpr (hcases e he)

lemma translationsFlaw?_eq_none_iff {translations : Entries Value} :
    translationsFlaw? translations = none ↔ ∀ e ∈ translations, IsTranslation e.2 := by
  rw [translationsFlaw?, List.findSome?_eq_none_iff]
  exact forall₂_congr fun e _ => translationFlaw?_eq_none_iff

/-- The name of a record as `ofValue?` reads it. -/
lemma name_eq_some_iff {v : Value} {name : String} :
    (if v.isTruthy then v.asText? else some "") = some name ↔
      (v = .text name ∧ name ≠ "") ∨ v.isTruthy = false ∧ name = "" := by
  by_cases h : v.isTruthy = true
  · rw [if_pos h]
    cases v with
    | text s =>
      have hs : s ≠ "" := by simpa [Value.isTruthy] using h
      constructor
      · rintro hsome
        obtain rfl := Option.some.inj hsome
        exact Or.inl ⟨rfl, hs⟩
      · rintro (⟨hsame, -⟩ | ⟨hfalse, -⟩)
        · exact congrArg some (Value.text.inj hsame)
        · exact absurd (h.symm.trans hfalse) (by simp)
    | _ => simp [Value.asText?, h]
  · rw [if_neg h]
    rw [Bool.not_eq_true] at h
    constructor
    · rintro hsome
      exact Or.inr ⟨h, (Option.some.inj hsome).symm⟩
    · rintro (⟨rfl, hne⟩ | ⟨-, rfl⟩)
      · exact absurd h (by simpa [Value.isTruthy] using hne)
      · rfl

/-- A value is read as a record exactly when it is an object whose fields make that record. -/
theorem ofValue?_eq_ok_iff {v : Value} {record : Record} :
    ofValue? v = .ok record ↔ ∃ fields, v = .map fields ∧ IsRecordOf fields record := by
  constructor
  · intro h
    cases v with
    | map fields =>
      refine ⟨fields, rfl, ?_⟩
      simp only [ofValue?] at h
      split at h
      · rename_i translations htranslations
        split at h
        · exact absurd h (by simp)
        · rename_i hflaw
          split at h
          · exact absurd h (by simp)
          · rename_i name hname
            obtain rfl := Except.ok.inj h
            exact ⟨htranslations, translationsFlaw?_eq_none_iff.mp hflaw, name_eq_some_iff.mp hname,
              rfl, rfl, rfl⟩
      · exact absurd h (by simp)
    | _ => exact absurd h (by simp [ofValue?])
  · rintro ⟨fields, rfl, h⟩
    simp only [ofValue?, h.translations, translationsFlaw?_eq_none_iff.mpr h.areTranslations,
      name_eq_some_iff.mpr h.name, ← h.locale, ← h.fallback, ← h.extra]

lemma hasShape_iff {fields : Entries Value} :
    HasShape fields ↔ ∃ record, IsRecordOf fields record := by
  constructor
  · intro h
    obtain ⟨translations, htranslations, hare⟩ : ∃ translations,
        (Entries.get? "translations" fields).getD (.map []) = .map translations ∧
          ∀ e ∈ translations, IsTranslation e.2 := by
      cases hget : Entries.get? "translations" fields with
      | none => exact ⟨[], rfl, by simp⟩
      | some v => exact h.translations v hget
    obtain ⟨name, hname⟩ : ∃ name, (field "name" fields = .text name ∧ name ≠ "") ∨
        (field "name" fields).isTruthy = false ∧ name = "" := by
      by_cases htruthy : (field "name" fields).isTruthy = true
      · obtain ⟨name, hname⟩ := h.name htruthy
        rw [hname] at htruthy
        exact ⟨name, Or.inl ⟨hname, by simpa [Value.isTruthy] using htruthy⟩⟩
      · exact ⟨"", Or.inr ⟨by simpa using htruthy, rfl⟩⟩
    exact ⟨{ locale := field "locale" fields, name := name, translations := translations,
             fallback := if (field "fallback" fields).isTruthy then field "fallback" fields else .null,
             extra := Entries.without fieldNames fields },
      htranslations, hare, hname, rfl, rfl, rfl⟩
  · rintro ⟨record, h⟩
    refine ⟨fun v hv => ⟨record.translations, ?_, h.areTranslations⟩, fun htruthy => ?_⟩
    · have htranslations := h.translations
      rwa [hv] at htranslations
    · rcases h.name with ⟨hname, -⟩ | ⟨hfalse, -⟩
      · exact ⟨_, hname⟩
      · exact absurd (htruthy.symm.trans hfalse) (by simp)

/-! ## The value that is written -/

/-- Whether a record can be written and read again: it consists of JSON values, its translations
have their shape, its fallback is none or not an empty value, and no other field has a name with a
meaning of its own. -/
structure IsWritable (record : Record) : Prop where
  locale : record.locale.IsJson
  fallback : record.fallback = .null ∨ record.fallback.isTruthy = true
  fallbackJson : record.fallback.IsJson
  areTranslations : ∀ e ∈ record.translations, IsTranslation e.2
  translationsJson : (Value.map record.translations).IsJson
  extraNames : ∀ e ∈ record.extra, e.1 ∉ fieldNames
  extraJson : (Value.map record.extra).IsJson

/-- The fields that a record is written with, before the other fields. -/
def headFields (record : Record) : Entries Value :=
  [("locale", record.locale), ("name", .text record.name)] ++
    match record.fallback with
    | .null => []
    | v => [("fallback", v)]

/-- All fields that a record is written with. -/
def fields (record : Record) : Entries Value :=
  record.headFields ++ record.extra ++ [("translations", .map record.translations)]

variable {record : Record}

lemma mem_fieldNames_of_mem_headFields {key : String} (h : key ∈ record.headFields.keys) :
    key ∈ fieldNames ∧ key ≠ "translations" := by
  rw [headFields] at h
  cases hfallback : record.fallback with
  | null =>
    rw [hfallback] at h
    simp only [Entries.keys, List.append_nil, List.map_cons, List.map_nil, List.mem_cons,
      List.not_mem_nil, or_false] at h
    rcases h with rfl | rfl <;> decide
  | _ =>
    rw [hfallback] at h
    simp only [Entries.keys, List.cons_append, List.nil_append, List.map_cons, List.map_nil,
      List.mem_cons, List.not_mem_nil, or_false] at h
    rcases h with rfl | rfl | rfl <;> decide

lemma nodup_keys_headFields : record.headFields.keys.Nodup := by
  rw [headFields]
  cases record.fallback <;> simp [Entries.keys]

namespace IsWritable

variable (h : record.IsWritable)

include h

lemma notMem_extra {key : String} (hkey : key ∈ fieldNames) : key ∉ record.extra.keys := by
  intro hmem
  obtain ⟨e, he, rfl⟩ := List.mem_map.mp hmem
  exact h.extraNames e he hkey

lemma nodup_keys_translations : record.translations.keys.Nodup := by
  cases h.translationsJson with
  | map hkeys _ => exact hkeys

lemma nodup_keys_extra : record.extra.keys.Nodup := by
  cases h.extraJson with
  | map hkeys _ => exact hkeys

lemma nodup_keys_fields : record.fields.keys.Nodup := by
  have hextra := h.nodup_keys_extra
  have hnames : "translations" ∉ record.extra.keys := h.notMem_extra (by decide)
  simp only [fields, Entries.keys, List.map_append] at hextra hnames ⊢
  rw [List.nodup_append, List.nodup_append]
  refine ⟨⟨nodup_keys_headFields, hextra, ?_⟩, by simp, ?_⟩
  · rintro a ha b hb rfl
    exact h.notMem_extra (mem_fieldNames_of_mem_headFields ha).1 hb
  · rintro a ha b hb rfl
    obtain rfl := List.mem_singleton.mp hb
    rcases List.mem_append.mp ha with hhead | hextra
    · exact (mem_fieldNames_of_mem_headFields hhead).2 rfl
    · exact hnames hextra

/-- The fields stand in the file one after the other, each once. -/
lemma toValue_eq : record.toValue = .map record.fields := by
  have hnodup := h.nodup_keys_fields
  simp only [fields, Entries.keys, List.map_append, List.map_cons, List.map_nil] at hnodup
  rw [List.nodup_append] at hnodup
  obtain ⟨hbefore, -, hlast⟩ := hnodup
  have hinsert : Entries.insertAll record.headFields record.extra =
      record.headFields ++ record.extra := by
    refine Entries.insertAll_of_nodup _ ?_
    simpa only [Entries.keys, List.map_append] using hbefore
  have hnew : "translations" ∉ Entries.keys (record.headFields ++ record.extra) := by
    intro hmem
    simp only [Entries.keys, List.map_append] at hmem
    exact hlast _ hmem "translations" List.mem_cons_self rfl
  have htoValue : record.toValue = .map (Entries.insert "translations" (.map record.translations)
      (Entries.insertAll record.headFields record.extra)) := by
    unfold toValue headFields
    cases record.fallback <;> rfl
  rw [htoValue, hinsert, Entries.insert_of_notMem hnew]
  rfl

lemma isJson_toValue : record.toValue.IsJson := by
  rw [h.toValue_eq]
  refine .map h.nodup_keys_fields fun e he => ?_
  simp only [fields, List.mem_append, List.mem_singleton] at he
  rcases he with (hhead | hextra) | rfl
  · rw [headFields] at hhead
    cases hfallback : record.fallback with
    | null =>
      rw [hfallback] at hhead
      simp only [List.append_nil, List.mem_cons, List.not_mem_nil, or_false] at hhead
      rcases hhead with rfl | rfl
      · exact h.locale
      · exact .text _
    | _ =>
      have hjson := h.fallbackJson
      rw [hfallback] at hhead hjson
      simp only [List.cons_append, List.nil_append, List.mem_cons, List.not_mem_nil, or_false]
        at hhead
      rcases hhead with rfl | rfl | rfl
      · exact h.locale
      · exact .text _
      · exact hjson
  · cases h.extraJson with
    | map _ hvalues => exact hvalues e hextra
  · exact h.translationsJson

lemma get?_fields_of_mem {key : String} {v : Value} (hmem : (key, v) ∈ record.fields) :
    Entries.get? key record.fields = some v :=
  Entries.get?_of_mem h.nodup_keys_fields hmem

/-- A record without a fallback is written without one. -/
lemma field_fallback : field "fallback" record.fields = record.fallback := by
  cases hfallback : record.fallback with
  | null =>
    have hnone : Entries.get? "fallback" record.fields = none := by
      rw [Entries.get?_eq_none_iff]
      have hextra : "fallback" ∉ record.extra.keys := h.notMem_extra (by decide)
      simp only [Entries.keys] at hextra
      simp [fields, headFields, Entries.keys, hfallback, hextra]
    rw [field, hnone]
    rfl
  | _ =>
    rw [field, h.get?_fields_of_mem]
    · rfl
    · simp [fields, headFields, hfallback]

lemma without_fields : Entries.without fieldNames record.fields = record.extra := by
  have hhead : record.headFields.filter (fun e => !fieldNames.contains e.1) = [] := by
    rw [List.filter_eq_nil_iff]
    intro e he
    have hname := (mem_fieldNames_of_mem_headFields (List.mem_map_of_mem he)).1
    simpa using hname
  have hextra : record.extra.filter (fun e => !fieldNames.contains e.1) = record.extra := by
    rw [List.filter_eq_self]
    intro e he
    simpa using h.extraNames e he
  have hlast : ("translations" ∈ fieldNames) := by decide
  rw [Entries.without, fields, List.filter_append, List.filter_append, hhead, hextra]
  simp [hlast]

/-- What a record is written as is read as that record. -/
theorem ofValue?_toValue : ofValue? record.toValue = .ok record := by
  rw [h.toValue_eq, ofValue?_eq_ok_iff]
  have htranslations : Entries.get? "translations" record.fields =
      some (.map record.translations) := h.get?_fields_of_mem (by simp [fields])
  have hname : field "name" record.fields = .text record.name := by
    rw [field, h.get?_fields_of_mem (v := .text record.name) (by simp [fields, headFields])]
    rfl
  have hlocale : field "locale" record.fields = record.locale := by
    rw [field, h.get?_fields_of_mem (v := record.locale) (by simp [fields, headFields])]
    rfl
  refine ⟨record.fields, rfl, by rw [htranslations]; rfl, h.areTranslations, ?_, hlocale.symm, ?_,
    h.without_fields.symm⟩
  · rw [hname]
    by_cases hempty : record.name = ""
    · exact Or.inr ⟨by simp [hempty, Value.isTruthy], hempty⟩
    · exact Or.inl ⟨rfl, hempty⟩
  · rw [h.field_fallback]
    rcases h.fallback with hnull | htruthy
    · simp [hnull, Value.isTruthy]
    · rw [if_pos htruthy]

end IsWritable

/-! ## Records that were read -/

lemma isJson_field {fields : Entries Value} (h : (Value.map fields).IsJson) (name : String) :
    (field name fields).IsJson := by
  rw [field]
  cases hget : Entries.get? name fields with
  | none => exact .null
  | some v =>
    cases h with
    | map _ hvalues => exact hvalues _ (Entries.mem_of_get? hget)

/-- A record that was read from JSON can be written. -/
theorem IsRecordOf.isWritable {fields : Entries Value} {record : Record}
    (h : IsRecordOf fields record) (hjson : (Value.map fields).IsJson) : record.IsWritable where
  locale := h.locale ▸ isJson_field hjson "locale"
  fallback := by
    rw [h.fallback]
    split
    · exact Or.inr ‹_›
    · exact Or.inl rfl
  fallbackJson := by
    rw [h.fallback]
    split
    · exact isJson_field hjson "fallback"
    · exact .null
  areTranslations := h.areTranslations
  translationsJson := by
    rw [← h.translations]
    cases hget : Entries.get? "translations" fields with
    | none => exact .map List.nodup_nil (by simp)
    | some v =>
      cases hjson with
      | map _ hvalues => exact hvalues _ (Entries.mem_of_get? hget)
  extraNames := by
    rw [h.extra]
    intro e he
    have hname := (List.mem_filter.mp he).2
    simpa using hname
  extraJson := by
    rw [h.extra]
    cases hjson with
    | map hkeys hvalues =>
      refine .map ?_ fun e he => hvalues e (List.mem_of_mem_filter he)
      exact hkeys.sublist (List.filter_sublist.map Prod.fst)

end LocaleBundle.Locale.Record
