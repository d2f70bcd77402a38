import LocaleBundle.Proofs.Locale.Files

/-!
# Locale files are written whole or not at all

Whatever the tree looks like and whichever steps are refused, a file that cannot be written leaves
every place as it was: the temporary file is removed again. A file that is written changes its own
place only. Without refusals from outside a file can be written if its directory is there and no other
directory has its place.
-/

namespace LocaleBundle

namespace Locale.Files

variable {files : Files} {tree after : FileTree} {folder place : Place} {code : String}
  {refusals : Refusals} {content : ByteArray}

/-- Whether the file of a locale can be written: its directory is there, and no directory has its
place. -/
def CanWrite (files : Files) (tree : FileTree) (code : String) : Prop :=
  ∃ place, tree.resolve (files.location code) = .ok place ∧
    ∀ m, tree.at? place ≠ some (.directory m)

/-- Whether writing a locale's file with some content leads from one tree to another. -/
structure Writes (files : Files) (code : String) (content : ByteArray) (tree after : FileTree) :
    Prop where
  canWrite : files.CanWrite tree code
  kept : ∀ p, tree.resolve (files.location code) ≠ .ok p → after.at? p = tree.at? p
  written : after.read (files.location code) = .ok content

variable (hcode : Code.isValid code = true)

include hcode

lemma resolve_location_iff : tree.resolve (files.location code) = .ok place ↔
    ∃ folder, tree.IsFolder files.directory folder ∧ place = placeIn folder code := by
  constructor
  · exact FileTree.exists_isFolder_of_resolve (isName_json hcode)
  · rintro ⟨folder, hfolder, rfl⟩
    exact hfolder.resolve_join (isName_json hcode)

/-- The files of different locales have different places. -/
lemma eq_of_resolve_location {other : String} (hother : Code.isValid other = true)
    (h : tree.resolve (files.location code) = .ok place)
    (h' : tree.resolve (files.location other) = .ok place) : code = other := by
  obtain ⟨folder, hfolder, rfl⟩ := (resolve_location_iff hcode).mp h
  obtain ⟨folder', hfolder', hplace⟩ := (resolve_location_iff hother).mp h'
  obtain rfl : folder = folder' := Except.ok.inj (hfolder.enters.symm.trans hfolder'.enters)
  exact placeIn_injective folder hplace

lemma canWrite_iff : files.CanWrite tree code ↔ ∃ folder, tree.IsFolder files.directory folder ∧
    ∀ m, tree.at? (placeIn folder code) ≠ some (.directory m) := by
  unfold CanWrite
  simp only [resolve_location_iff hcode]
  constructor
  · rintro ⟨-, ⟨folder, hfolder, rfl⟩, hclear⟩
    exact ⟨folder, hfolder, hclear⟩
  · rintro ⟨folder, hfolder, hclear⟩
    exact ⟨_, ⟨folder, hfolder, rfl⟩, hclear⟩

/-- Whether a file can be written is a matter of directories. -/
lemma canWrite_congr (h : FileTree.SameDirectories tree after) :
    files.CanWrite after code ↔ files.CanWrite tree code := by
  rw [canWrite_iff hcode, canWrite_iff hcode]
  refine exists_congr fun folder => and_congr h.isFolder_iff (forall_congr' fun m => ?_)
  rw [Ne, Ne, h]

lemma Writes.sameDirectories (h : Writes files code content tree after) :
    FileTree.SameDirectories tree after := by
  obtain ⟨folder, hfolder, hclear⟩ := (canWrite_iff hcode).mp h.canWrite
  have hresolve : tree.resolve (files.location code) = .ok (placeIn folder code) :=
    (resolve_location_iff hcode).mpr ⟨folder, hfolder, rfl⟩
  have hkept : ∀ p, p ≠ placeIn folder code → after.at? p = tree.at? p := by
    intro p hp
    refine h.kept p fun heq => hp ?_
    exact (Except.ok.inj (hresolve.symm.trans heq)).symm
  have hafter : after.IsFolder files.directory folder := by
    refine hfolder.of_keepsDirectories fun p m hp => ?_
    rw [hkept p, hp]
    rintro rfl
    exact hclear m hp
  intro p m
  by_cases hp : p = placeIn folder code
  · -- there is a file at the place now, and there was no directory before
    subst hp
    have hwritten := h.written
    rw [FileTree.read, find_location hcode hafter] at hwritten
    refine iff_of_false (fun hdirectory => ?_) (hclear m)
    rw [hdirectory] at hwritten
    exact absurd hwritten (by simp)
  · rw [hkept p hp]

omit hcode in
/-- A record that is written has changed its own place only, and no step was refused. -/
theorem writes_of_write {record : Record} (hlocale : record.locale = .text code) {path : String}
    (h : (files.writeAgainst refusals record tree).result = .ok path) :
    (∀ step, refusals step = none) ∧ ∃ text, encode record = .ok text ∧
      files.Writes code text.toUTF8 tree (files.writeAgainst refusals record tree).state := by
  obtain ⟨hallowed, -, text, place, mode, hencode, hplace, hclear, -, hafter⟩ :=
    exists_set_of_writeAgainst (Job.outcome_of_result h)
  rw [localeText_eq hlocale] at hplace
  rw [hafter]
  refine ⟨hallowed, text, hencode, ⟨place, hplace, hclear⟩, fun p hp => ?_,
    FileTree.read_set hplace hclear _ _⟩
  rw [FileTree.at?_set _ _ _ _ (FileTree.ne_nil_of_not_directory hclear), if_neg]
  rintro rfl
  exact hp hplace

variable {record : Record} (hlocale : record.locale = .text code)

include hlocale

/-- A record with a text is written if its file can be written. -/
theorem exists_write_of_canWrite {text : String} (hencode : encode record = .ok text)
    (h : files.CanWrite tree code) : ∃ path, (files.write record tree).result = .ok path := by
  obtain ⟨folder, hfolder, hclear⟩ := (canWrite_iff hcode).mp h
  obtain ⟨after, mode, hwrite, -⟩ := outcome_write hcode hfolder hlocale hencode hclear
  exact ⟨_, (Prod.mk.inj hwrite).2⟩

end Locale.Files

end LocaleBundle
