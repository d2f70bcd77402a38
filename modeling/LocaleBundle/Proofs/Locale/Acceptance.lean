import LocaleBundle.Proofs.Locale.Loading

/-!
# Which locale files are accepted

The text of a locale's file is accepted if it is a JSON object in the shape of a record that
declares the locale and names a configured fallback, or none. For every other text there is one
reason why it is refused: the checks come in a fixed order.
-/

namespace LocaleBundle.Locale.Store

open Record Files

/-- Whether the fields of an object make the record of a locale. -/
structure AcceptsFields (store : Store) (code : String) (fields : Entries Value) : Prop where
  shape : HasShape fields
  locale : field "locale" fields = .text code
  fallback : (field "fallback" fields).isTruthy = true →
    ∃ other ∈ store.locales.codes, field "fallback" fields = .text other

/-- Whether the text of a locale's file is accepted. -/
def Accepts (store : Store) (code text : String) : Prop :=
  ∃ fields, parse text = .ok (.map fields) ∧ store.AcceptsFields code fields

/-- Why the text of a locale's file is refused: the first of four checks that it does not pass. -/
inductive Refuses (store : Store) (code text : String) : Error → Prop
  | json {e : Json.ReadError} (h : parse text = .error e) :
    Refuses store code text (.fault (.badLocaleFile (store.files.path code) code
      ("invalid JSON: " ++ e.describe (unifyLineEnds text.toList))))
  | shape {v : Value} {reason : String} (hparse : parse text = .ok v)
    (hshape : ¬ ∃ fields, v = .map fields ∧ HasShape fields) (h : ofValue? v = .error reason) :
    Refuses store code text (.fault (.badLocaleFile (store.files.path code) code reason))
  | locale {fields : Entries Value} (hparse : parse text = .ok (.map fields))
    (hshape : HasShape fields) (h : field "locale" fields ≠ .text code) :
    Refuses store code text
      (.fault (.wrongLocale (store.files.path code) (field "locale" fields) code))
  | fallback {fields : Entries Value} (hparse : parse text = .ok (.map fields))
    (hshape : HasShape fields) (hlocale : field "locale" fields = .text code)
    (htruthy : (field "fallback" fields).isTruthy = true)
    (h : ∀ other ∈ store.locales.codes, field "fallback" fields ≠ .text other) :
    Refuses store code text
      (.fault (.unknownFallback (store.files.path code) code (field "fallback" fields)))

/-- A record under the name that is shown for its locale, if it gives none. -/
def named (code : String) (record : Record) : Record :=
  if record.name = "" then { record with name := nameFor code } else record

@[simp] lemma named_fallback (code : String) (record : Record) :
    (named code record).fallback = record.fallback := by
  unfold named
  split <;> rfl

/-- The record that the text of a locale's file gives. -/
def recordFrom (store : Store) (code text : String) : Except Error Record :=
  match parse text with
  | .error e => .error (.fault (.badLocaleFile (store.files.path code) code
      ("invalid JSON: " ++ e.describe (unifyLineEnds text.toList))))
  | .ok v => store.accept code v

variable {store : Store} {code text : String}

/-! ## The checks -/

lemma asText?_eq_some_iff {v : Value} {s : String} : v.asText? = some s ↔ v = .text s := by
  cases v <;> simp [Value.asText?]

/-- A record in its shape passes if it is for the locale and its fallback is configured. -/
lemma accept_ok {v : Value} {record : Record} (h : ofValue? v = .ok record)
    (hlocale : record.locale = .text code) (hfallback : record.fallback = .null ∨
      ∃ other ∈ store.locales.codes, record.fallback = .text other) :
    store.accept code v = .ok (named code record) := by
  obtain ⟨locale, name, translations, fallback, extra⟩ := record
  simp only at hlocale hfallback
  subst hlocale
  simp only [accept, ofValue, h, Except.mapError, Value.asText?, ne_eq, not_true, if_false]
  rcases hfallback with rfl | ⟨other, hother, rfl⟩
  · rfl
  · simp only [hother, if_true]
    rfl

lemma accept_wrongLocale {v : Value} {record : Record} (h : ofValue? v = .ok record)
    (hlocale : record.locale ≠ .text code) : store.accept code v =
      .error (.fault (.wrongLocale (store.files.path code) record.locale code)) := by
  have htext : record.locale.asText? ≠ some code := mt asText?_eq_some_iff.mp hlocale
  simp only [accept, ofValue, h, Except.mapError, ne_eq, htext, not_false_eq_true, if_true]

lemma accept_unknownFallback {v : Value} {record : Record} (h : ofValue? v = .ok record)
    (hlocale : record.locale = .text code) (hnull : record.fallback ≠ .null)
    (hother : ∀ other ∈ store.locales.codes, record.fallback ≠ .text other) : store.accept code v =
      .error (.fault (.unknownFallback (store.files.path code) code record.fallback)) := by
  simp only [accept, ofValue, h, Except.mapError, hlocale, Value.asText?, ne_eq, not_true, if_false]
  cases hfallback : record.fallback with
  | null => exact absurd hfallback hnull
  | text other =>
    have hnot : other ∉ store.locales.codes := fun hmem => hother other hmem hfallback
    simp only [hnot, if_false]
  | _ => rfl

/-- An accepted record has passed all checks. -/
lemma exists_of_accept {v : Value} {record : Record} (h : store.accept code v = .ok record) :
    ∃ original, ofValue? v = .ok original ∧ original.locale = .text code ∧
      (original.fallback = .null ∨ ∃ other ∈ store.locales.codes, original.fallback = .text other) ∧
      record = named code original := by
  cases hvalue : ofValue? v with
  | error reason =>
    simp only [accept, ofValue, hvalue, Except.mapError] at h
    exact absurd h (by simp)
  | ok original =>
    by_cases hlocale : original.locale = .text code
    · by_cases hfallback : original.fallback = .null ∨
          ∃ other ∈ store.locales.codes, original.fallback = .text other
      · rw [accept_ok hvalue hlocale hfallback] at h
        exact ⟨original, rfl, hlocale, hfallback, (Except.ok.inj h).symm⟩
      · simp only [not_or, not_exists, not_and] at hfallback
        rw [accept_unknownFallback hvalue hlocale hfallback.1 hfallback.2] at h
        exact absurd h (by simp)
    · rw [accept_wrongLocale hvalue hlocale] at h
      exact absurd h (by simp)

/-- The fallback of a record is the field, if it is not empty. -/
lemma fallback_eq {fields : Entries Value} {record : Record} (h : IsRecordOf fields record)
    (htruthy : (field "fallback" fields).isTruthy = true) :
    record.fallback = field "fallback" fields := by
  rw [h.fallback, if_pos htruthy]

lemma fallback_eq_null {fields : Entries Value} {record : Record} (h : IsRecordOf fields record)
    (hfalsy : ¬ (field "fallback" fields).isTruthy = true) : record.fallback = .null := by
  rw [h.fallback, if_neg hfalsy]

/-- The record that an accepted text gives. -/
lemma recordFrom_of_accepts {fields : Entries Value} {record : Record}
    (hparse : parse text = .ok (.map fields)) (hrecord : IsRecordOf fields record)
    (h : store.AcceptsFields code fields) :
    store.recordFrom code text = .ok (named code record) := by
  rw [recordFrom, hparse]
  refine accept_ok (ofValue?_eq_ok_iff.mpr ⟨fields, rfl, hrecord⟩) (hrecord.locale.trans h.locale) ?_
  by_cases htruthy : (field "fallback" fields).isTruthy = true
  · obtain ⟨other, hother, htext⟩ := h.fallback htruthy
    exact Or.inr ⟨other, hother, (fallback_eq hrecord htruthy).trans htext⟩
  · exact Or.inl (fallback_eq_null hrecord htruthy)

/-- A text that is not accepted is refused for what the first failing check says. -/
lemma refuses_of_not_accepts (h : ¬ store.Accepts code text) :
    ∃ e, store.recordFrom code text = .error e ∧ store.Refuses code text e := by
  unfold recordFrom
  cases hparse : parse text with
  | error e => exact ⟨_, rfl, .json hparse⟩
  | ok v =>
    simp only
    cases hvalue : ofValue? v with
    | error reason =>
      have hshape : ¬ ∃ fields, v = .map fields ∧ HasShape fields := by
        rintro ⟨fields, hmap, hfields⟩
        obtain ⟨record, hrecord⟩ := hasShape_iff.mp hfields
        rw [ofValue?_eq_ok_iff.mpr ⟨fields, hmap, hrecord⟩] at hvalue
        exact absurd hvalue (by simp)
      refine ⟨_, ?_, .shape hparse hshape hvalue⟩
      simp only [accept, ofValue, hvalue, Except.mapError]
    | ok record =>
      obtain ⟨fields, rfl, hrecord⟩ := ofValue?_eq_ok_iff.mp hvalue
      have hshape := hasShape_iff.mpr ⟨record, hrecord⟩
      by_cases hlocale : field "locale" fields = .text code
      · -- the fallback is all that is left to refuse
        have hnot : ¬ ((field "fallback" fields).isTruthy = true →
            ∃ other ∈ store.locales.codes, field "fallback" fields = .text other) :=
          fun hfallback => h ⟨fields, hparse, hshape, hlocale, hfallback⟩
        rw [Classical.not_imp] at hnot
        obtain ⟨htruthy, hnone⟩ := hnot
        have hsame := fallback_eq hrecord htruthy
        have hother : ∀ other ∈ store.locales.codes, field "fallback" fields ≠ .text other :=
          fun other hmem htext => hnone ⟨other, hmem, htext⟩
        refine ⟨_, ?_, .fallback hparse hshape hlocale htruthy hother⟩
        rw [← hsame] at htruthy hother ⊢
        refine accept_unknownFallback hvalue (hrecord.locale.trans hlocale) ?_ hother
        intro hnull
        rw [hnull] at htruthy
        exact absurd htruthy (by simp [Value.isTruthy])
      · refine ⟨_, ?_, .locale hparse hshape hlocale⟩
        rw [← hrecord.locale] at hlocale ⊢
        exact accept_wrongLocale hvalue hlocale

/-- What is written for a record is accepted again. -/
lemma recordFrom_content {record : Record} (h : record.IsWritable)
    (hlocale : record.locale = .text code) (hfallback : record.fallback = .null ∨
      ∃ other ∈ store.locales.codes, record.fallback = .text other) :
    store.recordFrom code (content record) = .ok (named code record) := by
  rw [recordFrom, parse_content h.isJson_toValue]
  exact accept_ok h.ofValue?_toValue hlocale hfallback

/-- The texts that give a record are the accepted ones. -/
theorem accepts_iff : store.Accepts code text ↔ ∃ record, store.recordFrom code text = .ok record := by
  constructor
  · rintro ⟨fields, hparse, hfields⟩
    obtain ⟨record, hrecord⟩ := hasShape_iff.mp hfields.shape
    exact ⟨_, recordFrom_of_accepts hparse hrecord hfields⟩
  · rintro ⟨record, hrecord⟩
    by_contra hnot
    obtain ⟨e, he, -⟩ := refuses_of_not_accepts hnot
    exact absurd (hrecord.symm.trans he) (by simp)

/-! ## Files in a tree -/

/-- Whether a text is on file for a locale. -/
def OnFile (store : Store) (tree : FileTree) (code text : String) : Prop :=
  tree.read (store.files.location code) = .ok text.toUTF8

variable {tree : FileTree} {folder : Place}

/-- Only one text is on file. -/
lemma OnFile.unique {other : String} (h : store.OnFile tree code text)
    (h' : store.OnFile tree code other) : text = other := by
  have hbytes : text.toUTF8 = other.toUTF8 := Except.ok.inj (h.symm.trans h')
  have hread := congrArg String.fromUTF8? hbytes
  rw [Files.fromUTF8?_toUTF8, Files.fromUTF8?_toUTF8] at hread
  exact Option.some.inj hread

/-- The record of a locale is read from the bytes of its file. -/
lemma recordOf_of_read {bytes : ByteArray}
    (hread : tree.read (store.files.location code) = .ok bytes) :
    store.recordOf tree code = match String.fromUTF8? bytes with
      | none => .error .undecodable
      | some text => store.recordFrom code text := by
  have hpresent : store.files.isPresent tree code = true := by
    unfold FileTree.read at hread
    unfold isPresent FileTree.isFile
    split at hread
    · exact absurd hread (by simp)
    · exact absurd hread (by simp)
    · rename_i hfind
      rw [hfind]
  rw [recordOf, if_pos hpresent, Files.read, hread]
  simp only [decode]
  cases String.fromUTF8? bytes with
  | none => rfl
  | some text =>
    simp only [recordFrom, parse]
    cases Json.readDocument (unifyLineEnds text.toList) <;> rfl

lemma recordOf_of_onFile (h : store.OnFile tree code text) :
    store.recordOf tree code = store.recordFrom code text := by
  rw [recordOf_of_read h, fromUTF8?_toUTF8]

/-- A locale without a file gets an empty record. -/
lemma recordOf_of_notFound (h : tree.find (store.files.location code) = .error .notFound) :
    store.recordOf tree code = .ok (emptyRecord code) := by
  have habsent : ¬ store.files.isPresent tree code = true := by
    rw [isPresent, FileTree.isFile, h]
    simp
  rw [recordOf, if_neg habsent]

variable (hfolder : tree.IsFolder store.files.directory folder) (hcode : Code.isValid code = true)

include hfolder hcode

lemma onFile_iff : store.OnFile tree code text ↔
    ∃ mode, tree.at? (placeIn folder code) = some (.file text.toUTF8 mode) := by
  rw [OnFile, FileTree.read, Files.find_location hcode hfolder]
  cases tree.at? (placeIn folder code) with
  | none => simp
  | some node => cases node <;> simp

end LocaleBundle.Locale.Store
