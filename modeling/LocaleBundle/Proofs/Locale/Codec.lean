import LocaleBundle.Proofs.Locale.Writing

/-!
# Records are read as they were written

What is written of a record is read as the value that was written, and that value gives the record. A
file that holds the text of a record already is not changed by writing the record once more, neither in
its bytes nor in its permission bits.
-/

namespace LocaleBundle.Locale.Files

open FileTree

variable {files : Files} {tree after : FileTree} {code path : String} {record : Record}

/-- A file with the text of a record is read as the value of the record. -/
lemma read_of_content (hjson : record.toValue.IsJson)
    (h : tree.read (files.location code) = .ok (content record).toUTF8) :
    files.read tree code = .ok record.toValue := by
  have hparse := parse_content hjson
  unfold parse at hparse
  unfold read
  simp only [h, decode, fromUTF8?_toUTF8, hparse, Except.mapError]

variable (hcode : Code.isValid code = true) (hlocale : record.locale = .text code)
  (hjson : record.toValue.IsJson)

include hlocale hjson in
/-- Where a record was written, its file has the text of the record. -/
lemma exists_place_of_write (h : Job.outcome (files.write record) tree = (after, .ok path)) :
    path = files.path code ∧ after.read (files.location code) = .ok (content record).toUTF8 ∧
    ∃ place mode, after.resolve (files.location code) = .ok place ∧
      after.at? place = some (.file (content record).toUTF8 mode) := by
  obtain ⟨-, hpath, text, place, mode, hencode, hplace, hclear, -, rfl⟩ := exists_set_of_writeAgainst h
  rw [localeText_eq hlocale] at hpath hplace
  obtain rfl := Except.ok.inj ((encode_eq hjson).symm.trans hencode)
  refine ⟨hpath, read_set hplace hclear _ _, place, mode, ?_, ?_⟩
  · exact (SameDirectories.set_file hclear _ _).resolve_iff.mpr hplace
  · rw [at?_set _ _ _ _ (ne_nil_of_not_directory hclear), if_pos rfl]

include hcode hlocale hjson in
/-- A record is written over its own text without a change. -/
lemma outcome_write_of_content {place : Place} {mode : ℕ}
    (hplace : tree.resolve (files.location code) = .ok place)
    (hfile : tree.at? place = some (.file (content record).toUTF8 mode)) :
    Job.outcome (files.write record) tree = (tree, .ok (files.path code)) := by
  obtain ⟨folder, hfolder, -⟩ := (resolve_location_iff hcode).mp hplace
  have hclear : ∀ m, tree.at? place ≠ some (.directory m) := by simp [hfile]
  refine writeAgainst_eq_ok_iff.mpr ⟨by rw [localeText_eq hlocale], _, encode_eq hjson, ?_⟩
  rw [localeText_eq hlocale]
  exact replace_eq_ok_iff.mpr ⟨fun _ => rfl, exists_temporary hcode hfolder, place, mode, hplace, hclear,
    targetMode_of_file hplace hfile, (set_of_at? (ne_nil_of_not_directory hclear) hfile).symm⟩

/-- Writing and reading a record is a round trip. A record that can be read from some file is written if
and only if its directory is there and no directory has its place. After that its file is read as a
value that gives the record, with all entries in their order, and when that is written again nothing
changes. -/
theorem write_read_roundTrip (hcode : Code.isValid code = true) (hlocale : record.locale = .text code)
    (hwritable : record.IsWritable) (files : Files) (tree : FileTree) :
    let step := files.write record tree
    ((∃ path, step.result = .ok path) ↔ files.CanWrite tree code) ∧
    ∀ path, step.result = .ok path → path = files.path code ∧
      ∃ v, files.read step.state code = .ok v ∧ Record.ofValue v path code = .ok record ∧
        Job.outcome (files.write record) step.state = (step.state, .ok path) := by
  have hjson := hwritable.isJson_toValue
  refine ⟨⟨?_, exists_write_of_canWrite hcode hlocale (encode_eq hjson)⟩, fun path hpath => ?_⟩
  · rintro ⟨path, hpath⟩
    obtain ⟨-, text, -, hwrites⟩ := writes_of_write hlocale hpath
    exact hwrites.canWrite
  · obtain ⟨rfl, hread, place, mode, hplace, hfile⟩ :=
      exists_place_of_write hlocale hjson (Job.outcome_of_result hpath)
    refine ⟨rfl, record.toValue, read_of_content hjson hread, ?_,
      outcome_write_of_content hcode hlocale hjson hplace hfile⟩
    rw [Record.ofValue, hwritable.ofValue?_toValue]
    rfl

/-- A record with a plural table, a redirect, a fallback and two fields of its own. -/
def counting : Record where
  locale := .text "nl"
  name := "Nederlands"
  translations := [("Bye", .text "Tot \"ziens\"\n"),
    ("Items", .map [("1", .text "één ding"), ("eins", .int 1), ("*", .text "$1 dingen")])]
  fallback := .text "en"
  extra := [("authors", .list [.text "Jan", .null, .map []]), ("draft", .bool true)]

lemma isWritable_counting : counting.IsWritable where
  locale := .text _
  fallback := Or.inr rfl
  fallbackJson := .text _
  areTranslations := by
    refine List.forall_mem_cons.mpr ⟨.text _, List.forall_mem_singleton.mpr (.table ?_)⟩
    simp
  translationsJson := by
    refine .map (by decide) (List.forall_mem_cons.mpr ⟨.text _, List.forall_mem_singleton.mpr ?_⟩)
    refine .map (by decide) (List.forall_mem_cons.mpr ⟨.text _, List.forall_mem_cons.mpr ⟨.int 1, ?_⟩⟩)
    exact List.forall_mem_singleton.mpr (.text _)
  extraNames := by decide
  extraJson := by
    refine .map (by decide) (List.forall_mem_cons.mpr ⟨.list ?_, List.forall_mem_singleton.mpr ?_⟩)
    · refine List.forall_mem_cons.mpr ⟨.text _, List.forall_mem_cons.mpr ⟨.null, ?_⟩⟩
      exact List.forall_mem_singleton.mpr (.map List.nodup_nil (List.forall_mem_nil _))
    · exact .bool true

/-- The Dutch record is written into an empty directory, and read as it was. -/
theorem write_read_roundTrip_counting :
    let files : Files := ⟨⟨"", ["i18n"]⟩⟩
    let step := files.write counting ⟨[(["i18n"], .directory 0o755)]⟩
    ∃ path v, step.result = .ok path ∧ files.read step.state "nl" = .ok v ∧
      Record.ofValue v path "nl" = .ok counting ∧
      Job.outcome (files.write counting) step.state = (step.state, .ok path) := by
  intro files step
  obtain ⟨hreturns, hback⟩ := write_read_roundTrip (rfl : Code.isValid "nl" = true) rfl
    isWritable_counting files
    ⟨[(["i18n"], .directory 0o755)]⟩
  have hfree : (⟨[(["i18n"], .directory 0o755)]⟩ : FileTree).at? ["i18n", "nl.json"] = none := rfl
  obtain ⟨path, hpath⟩ := hreturns.mpr ⟨["i18n", "nl.json"], rfl, by simp [hfree]⟩
  obtain ⟨-, v, hread, hrecord, hagain⟩ := hback path hpath
  exact ⟨path, v, hpath, hread, hrecord, hagain⟩

end LocaleBundle.Locale.Files
