import LocaleBundle.Diagnostic.Format
import LocaleBundle.Proofs.Json.Lines
import LocaleBundle.Proofs.Json.RoundTrip

/-!
# Reading diagnostics back

Diagnostics that are written in full as JSON objects are records for a reader. A record is one line, as
no control character is written as it is. So whatever texts the diagnostics hold, the blank lines of the
output are those between two records, and each record read as JSON has what the diagnostic says.
-/

namespace LocaleBundle

namespace Text

/-- The parts of a text that blank lines set apart, each with its lines. -/
def paragraphs (s : List Char) : List (List (List Char)) := (s.splitOn '\n').splitOn []

lemma intersperse_cons_ne_nil {α : Type} (a first : α) (rest : List α) :
    (first :: rest).intersperse a ≠ [] := by
  cases rest with
  | nil => simp
  | cons second rest => rw [List.intersperse_cons_cons]; simp

lemma mem_of_mem_intersperse {α : Type} {a b : α} {items : List α}
    (h : b ∈ items.intersperse a) : b = a ∨ b ∈ items := by
  induction items with
  | nil => simp at h
  | cons first rest ih =>
    cases rest with
    | nil => exact .inr h
    | cons second rest =>
      rw [List.intersperse_cons_cons, List.mem_cons, List.mem_cons] at h
      rcases h with rfl | rfl | hrest
      · exact .inr List.mem_cons_self
      · exact .inl rfl
      · exact (ih hrest).imp_right (List.mem_cons_of_mem _)

/-- Blank lines between texts are lines of their own. -/
lemma intercalate_blank (texts : List (List Char)) :
    ['\n', '\n'].intercalate texts = ['\n'].intercalate (texts.intersperse []) := by
  induction texts with
  | nil => rfl
  | cons first rest ih =>
    cases rest with
    | nil => rfl
    | cons second rest =>
      have hlines := intersperse_cons_ne_nil [] second rest
      rw [List.intercalate_cons_cons, ih, List.intersperse_cons_cons, List.intercalate_cons_cons,
        List.intercalate_cons_of_ne_nil hlines]
      simp

lemma intersperse_eq_intercalate {α : Type} (a : α) (items : List α) :
    items.intersperse a = [a].intercalate (items.map fun item => [item]) := by
  induction items with
  | nil => rfl
  | cons first rest ih =>
    cases rest with
    | nil => rfl
    | cons second rest =>
      rw [List.intersperse_cons_cons, ih]
      simp only [List.map_cons, List.intercalate_cons_cons]
      rfl

/-- Texts of one line each, with blank lines between them, are the paragraphs. -/
lemma paragraphs_intercalate {texts : List (List Char)} (hsome : texts ≠ [])
    (hlines : ∀ t ∈ texts, t ≠ [] ∧ '\n' ∉ t) :
    paragraphs (['\n', '\n'].intercalate texts) = texts.map fun t => [t] := by
  obtain ⟨first, rest, rfl⟩ := List.exists_cons_of_ne_nil hsome
  have hbreaks : ∀ line ∈ (first :: rest).intersperse [], '\n' ∉ line := by
    intro line hline
    rcases mem_of_mem_intersperse hline with rfl | hmem
    · exact List.not_mem_nil
    · exact (hlines line hmem).2
  have hblanks : ∀ part ∈ (first :: rest).map fun t => [t], [] ∉ part := by
    intro part hpart
    obtain ⟨t, ht, rfl⟩ := List.mem_map.mp hpart
    exact fun hmem => (hlines t ht).1 (List.mem_singleton.mp hmem).symm
  -- a blank line is an empty line between two others, so both splittings undo a joining
  rw [paragraphs, intercalate_blank,
    List.splitOn_intercalate '\n' hbreaks (intersperse_cons_ne_nil _ _ _),
    intersperse_eq_intercalate, List.splitOn_intercalate [] hblanks (by simp)]

end Text

namespace Diagnostic

/-- Whether a detail stands in an object under a key exactly when it is there and not empty, with its
text. -/
def Keeps (entries : Entries Value) (key : String) (detail : Option String) : Prop :=
  ∀ v, entries.get? key = some v ↔ ∃ t, detail = some t ∧ t ≠ "" ∧ v = .text t

/-- Whether a text reads as an object with what a diagnostic says. -/
structure ReadsAs (d : Diagnostic) (record : List Char) (entries : Entries Value) : Prop where
  reads : Json.readDocument record = .ok (.map entries)
  code : entries.get? "code" = some (.text d.problem.name)
  number : entries.get? "code_value" = some (.int d.problem.number)
  message : entries.get? "message" = some (.text d.message)
  severity : entries.get? "severity" = some (.text d.severity.name)
  locale : Keeps entries "locale" d.locale
  file : Keeps entries "file_path" d.file
  hint : Keeps entries "hint" d.hint

namespace Format

/-- Diagnostics as JSON objects, with nothing cut. -/
def records : Format where
  style := .json
  limit := none

variable {d : Diagnostic}

@[simp] lemma shorten_records (s : String) : records.shorten s = s := rfl

lemma write_records (d : Diagnostic) :
    (records.write d).toList = Json.write .compact 0 (.map (records.members d)) := by
  simp [write, records]

/-- The keys of an object differ, and its values are texts and a number. -/
lemma isJson_members (d : Diagnostic) : (Value.map (records.members d)).IsJson := by
  refine .map ?_ fun e he => ?_
  · -- which keys there are depends on the details that are present
    cases hlocale : present? d.locale <;> cases hfile : present? d.file <;>
      cases hhint : present? d.hint <;>
      simp [members, Entries.keys, hlocale, hfile, hhint]
  · simp only [members, List.mem_append, List.mem_cons, List.not_mem_nil, or_false,
      Option.mem_toList, Option.map_eq_some_iff] at he
    obtain (((rfl | rfl | rfl | rfl) | ⟨_, -, rfl⟩) | ⟨_, -, rfl⟩) | ⟨_, -, rfl⟩ := he
    · exact .text _
    · exact .int _
    · exact .text _
    · exact .text _
    · exact .text _
    · exact .text _
    · exact .text _

/-- An entry that may be left out is read under its key, and no other. -/
lemma get?_detail (key other : String) (detail : Option String) (rest : Entries Value) :
    Entries.get? key ((detail.map fun t => (other, Value.text t)).toList ++ rest) =
      if other = key then (detail.map Value.text).or (Entries.get? key rest)
      else Entries.get? key rest := by
  cases detail with
  | none => simp
  | some t => simp [Entries.get?_cons]

lemma present?_map_text (detail : Option String) (v : Value) :
    (present? detail).map Value.text = some v ↔ ∃ t, detail = some t ∧ t ≠ "" ∧ v = .text t := by
  simp only [present?, Option.map_eq_some_iff, Option.filter_eq_some_iff, decide_eq_true_eq]
  constructor
  · rintro ⟨t, ⟨ht, hne⟩, rfl⟩
    exact ⟨t, ht, hne, rfl⟩
  · rintro ⟨t, ht, hne, rfl⟩
    exact ⟨t, ⟨ht, hne⟩, rfl⟩

/-- The members of a record: four that are always there, then the details. -/
lemma members_records (d : Diagnostic) :
    records.members d =
      ("code", .text d.problem.name) :: ("code_value", .int d.problem.number) ::
        ("message", .text d.message) :: ("severity", .text d.severity.name) ::
        (((present? d.locale).map fun t => ("locale", Value.text t)).toList ++
          (((present? d.file).map fun t => ("file_path", Value.text t)).toList ++
            (((present? d.hint).map fun t => ("hint", Value.text t)).toList ++ []))) := by
  simp [members]

/-- Each detail is read under its own key. -/
lemma get?_members (d : Diagnostic) :
    Entries.get? "locale" (records.members d) = (present? d.locale).map Value.text ∧
    Entries.get? "file_path" (records.members d) = (present? d.file).map Value.text ∧
    Entries.get? "hint" (records.members d) = (present? d.hint).map Value.text := by
  rw [members_records]
  simp only [Entries.get?_cons, get?_detail, Entries.get?_nil]
  simp

/-- A record reads as the object of its members. -/
lemma readsAs_write (d : Diagnostic) :
    d.ReadsAs (records.write d).toList (records.members d) where
  reads := by
    rw [write_records]
    exact Json.readDocument_write .compact 0 (isJson_members d)
  code := rfl
  number := rfl
  message := rfl
  severity := rfl
  locale v := by rw [(get?_members d).1, present?_map_text]
  file v := by rw [(get?_members d).2.1, present?_map_text]
  hint v := by rw [(get?_members d).2.2, present?_map_text]

/-- A record is one line. -/
lemma isShown_of_mem_write (d : Diagnostic) : ∀ c ∈ (records.write d).toList, Json.IsShown c := by
  intro c hc
  rw [write_records] at hc
  rcases Json.isWritten_of_mem_write (isJson_members d) 0 c hc with hshown | ⟨hcompact, -⟩
  · exact hshown
  · exact absurd rfl hcompact

lemma write_records_ne_nil (d : Diagnostic) : (records.write d).toList ≠ [] := by
  rw [write_records, members_records, Json.write]
  simp

/-- Diagnostics that are written as JSON objects in full can be read back. The blank lines of the output
set the records apart, one for each diagnostic and in order; a record is a single line, without a control
character below U+0020, so neither with a line feed nor with a carriage return; and it reads as an object
with the name and the number of the problem, the message, the severity, and each detail that is not
empty. -/
theorem paragraphs_writeAll (ds : List Diagnostic) (hsome : ds ≠ []) :
    ∃ parts : List (List Char),
      Text.paragraphs (records.writeAll ds).toList = parts.map (fun record => [record]) ∧
      List.Forall₂ (fun d record => (∀ c ∈ record, Json.IsShown c) ∧ ∃ entries,
        ReadsAs d record entries) ds parts := by
  refine ⟨ds.map fun d => (records.write d).toList, ?_, ?_⟩
  · have hlines : ∀ t ∈ ds.map fun d => (records.write d).toList, t ≠ [] ∧ '\n' ∉ t := by
      intro t ht
      obtain ⟨d, -, rfl⟩ := List.mem_map.mp ht
      exact ⟨write_records_ne_nil d, fun hbreak =>
        absurd (isShown_of_mem_write d _ hbreak) (by decide)⟩
    have hsep : "\n\n".toList = ['\n', '\n'] := rfl
    rw [writeAll, String.toList_intercalate, List.map_map, hsep]
    exact Text.paragraphs_intercalate (by simpa using hsome) hlines
  · rw [List.forall₂_map_right_iff]
    exact List.forall₂_same.mpr fun d _ => ⟨isShown_of_mem_write d, _, readsAs_write d⟩

/-- A message that holds a blank line, quotes and a bell does not break its record, and an empty locale
is left out. -/
theorem paragraphs_writeAll_forged :
    let forged : Diagnostic :=
      { problem := .badPlaceholder, message := "\"a\"\n\n\x7bb\x07", hint := "c\r\n", locale := "" }
    ∃ first second : List Char,
      Text.paragraphs (records.writeAll [forged, .malformedLocale "x"]).toList = [[first], [second]] ∧
      '\r' ∉ first ∧ ∃ entries, ReadsAs forged first entries ∧
        entries.get? "message" = some (.text "\"a\"\n\n\x7bb\x07") ∧
        entries.get? "locale" = none ∧ entries.get? "hint" = some (.text "c\r\n") := by
  intro forged
  obtain ⟨parts, hparts, hreads⟩ := paragraphs_writeAll [forged, .malformedLocale "x"] (by simp)
  obtain _ | ⟨hforged, _ | ⟨-, _ | _⟩⟩ := hreads
  obtain ⟨hshown, entries, hentries⟩ := hforged
  refine ⟨_, _, hparts, fun hreturn => absurd (hshown _ hreturn) (by decide), entries, hentries,
    hentries.message, ?_, (hentries.hint _).mpr ⟨_, rfl, by decide, rfl⟩⟩
  rw [Option.eq_none_iff_forall_ne_some]
  intro v hv
  obtain ⟨t, ht, hne, -⟩ := (hentries.locale v).mp hv
  exact hne (Option.some.inj ht).symm

end Format

end Diagnostic

end LocaleBundle
