import LocaleBundle.Locale.Files
import LocaleBundle.Proofs.File.Temporary
import LocaleBundle.Proofs.Logged

/-!
# Replacing a file

A file is replaced in steps, each of which may be refused: a temporary file is made, filled, given its
permission bits and renamed over the other. Wherever the two files are, a refusal leaves the tree that
was there, and otherwise the tree has the new file and is the same elsewhere.
-/

namespace LocaleBundle.Locale.Files

open FileTree

variable {tree after : FileTree} {temp target : Location} {place goal : Place}
  {content : ByteArray} {mode : ℕ} {refusals : Refusals} {step : WriteStep}

/-! ## The whole -/

lemma exists_targetMode (h : tree.resolve target = .ok goal) :
    ∃ mode, targetMode tree target = .ok mode := by
  unfold targetMode FileTree.mode find
  simp only [h]
  cases tree.at? goal with
  | none => exact ⟨_, rfl⟩
  | some node => cases node <;> exact ⟨_, rfl⟩

/-- The permission bits of a file that is there are those that it gets. -/
lemma targetMode_of_file {old : ByteArray} (h : tree.resolve target = .ok goal)
    (hfile : tree.at? goal = some (.file old mode)) : targetMode tree target = .ok mode := by
  simp only [targetMode, FileTree.mode, find_of_resolve h hfile]

lemma tryStep_eq_ok_iff {next : Except FileError FileTree} :
    tryStep refusals step next = .ok after ↔ refusals step = none ∧ next = .ok after := by
  unfold tryStep
  cases refusals step <;> simp

lemma tryStep_of_refused {e : FileError} (h : refusals step = some e)
    (next : Except FileError FileTree) : tryStep refusals step next = .error e := by
  simp only [tryStep, h]

lemma tryStep_of_not_refused (h : refusals step = none) (next : Except FileError FileTree) :
    tryStep refusals step next = next := by
  simp only [tryStep, h]

/-- After the temporary file was made, the other steps put the new file in place unless one is
refused. -/
lemma fillAndRename_eq_ok_iff (h : tree.IsFree temp place) :
    fillAndRename refusals (tree.set place (.file ByteArray.empty 0o600)) temp target content mode =
        .ok after ↔
      (refusals .fill = none ∧ refusals .setMode = none ∧ refusals .rename = none) ∧
      ∃ goal, tree.resolve target = .ok goal ∧ (∀ m, tree.at? goal ≠ some (.directory m)) ∧
        after = tree.set goal (.file content mode) := by
  unfold fillAndRename
  cases hfill : refusals .fill with
  | some e => simp [tryStep_of_refused hfill, bind, Except.bind]
  | none =>
    rw [tryStep_of_not_refused hfill, h.writeFile_set]
    cases hmode : refusals .setMode with
    | some e => simp [tryStep_of_refused hmode, bind, Except.bind]
    | none =>
      simp only [bind, Except.bind, tryStep_of_not_refused hmode, h.setMode_set,
        tryStep_eq_ok_iff, h.rename_set_eq_ok_iff, true_and]

/-- A file is replaced if no step is refused, the temporary one has a free place, and the file has a
place that no directory has. Then the tree differs from the one before in that file only. -/
theorem replace_eq_ok_iff : replace refusals tree temp target content = (after, .ok ()) ↔
    (∀ step, refusals step = none) ∧ (∃ place, tree.IsFree temp place) ∧
    ∃ goal mode, tree.resolve target = .ok goal ∧ (∀ m, tree.at? goal ≠ some (.directory m)) ∧
      targetMode tree target = .ok mode ∧ after = tree.set goal (.file content mode) := by
  have hall : (∀ step, refusals step = none) ↔ refusals .create = none ∧
      refusals .fill = none ∧ refusals .setMode = none ∧ refusals .rename = none :=
    ⟨fun h => ⟨h _, h _, h _, h _⟩, fun ⟨hcreate, hfill, hmode, hrename⟩ step => by
      cases step <;> assumption⟩
  rw [hall]
  unfold replace
  constructor
  · intro h
    cases hmode : targetMode tree target with
    | error e => simp [hmode] at h
    | ok mode =>
      cases hcreate : tryStep refusals .create (tree.createFile temp) with
      | error e => simp [hmode, hcreate] at h
      | ok created =>
        obtain ⟨hnone, hcreated⟩ := tryStep_eq_ok_iff.mp hcreate
        obtain ⟨place, hfree, rfl⟩ := createFile_eq_ok_iff.mp hcreated
        cases hfill : fillAndRename refusals (tree.set place (.file ByteArray.empty 0o600)) temp target
            content mode with
        | error e => simp [hmode, hcreate, hfill] at h
        | ok done =>
          simp only [hmode, hcreate, hfill, Prod.mk.injEq, and_true] at h
          obtain ⟨hothers, goal, hgoal, hclear, rfl⟩ := (fillAndRename_eq_ok_iff hfree).mp hfill
          exact ⟨⟨hnone, hothers⟩, ⟨place, hfree⟩, goal, mode, hgoal, hclear, rfl, h.symm⟩
  · rintro ⟨⟨hnone, hothers⟩, ⟨place, hfree⟩, goal, mode, hgoal, hclear, hmode, rfl⟩
    have hcreate : tryStep refusals .create (tree.createFile temp) =
        .ok (tree.set place (.file ByteArray.empty 0o600)) :=
      tryStep_eq_ok_iff.mpr ⟨hnone, createFile_eq_ok_iff.mpr ⟨place, hfree, rfl⟩⟩
    have hfill : fillAndRename refusals (tree.set place (.file ByteArray.empty 0o600)) temp target
        content mode = .ok (tree.set goal (.file content mode)) :=
      (fillAndRename_eq_ok_iff hfree).mpr ⟨hothers, goal, hgoal, hclear, rfl⟩
    simp only [hmode, hcreate, hfill]

/-- After a refusal the tree is the one before. -/
theorem replace_of_error {e : FileError} (h : (replace refusals tree temp target content).2 = .error e) :
    (replace refusals tree temp target content).1 = tree := by
  unfold replace at h ⊢
  cases hmode : targetMode tree target with
  | error e' => rfl
  | ok mode =>
    simp only [hmode] at h ⊢
    cases hcreate : tryStep refusals .create (tree.createFile temp) with
    | error e' => rfl
    | ok created =>
      obtain ⟨place, hfree, rfl⟩ := createFile_eq_ok_iff.mp (tryStep_eq_ok_iff.mp hcreate).2
      simp only [hcreate] at h ⊢
      cases hfill : fillAndRename refusals (tree.set place (.file ByteArray.empty 0o600)) temp target
          content mode with
      | ok done =>
        rw [hfill] at h
        exact absurd h (by simp)
      | error e' =>
        simp only [hfree.removeFile_set, Except.toOption, Option.getD_some]

/-! ## Records -/

variable {files : Files} {record : Record} {path : String}

/-- A record is written if it has a text and its file is replaced with that text. -/
lemma writeAgainst_eq_ok_iff :
    Job.outcome (files.writeAgainst refusals record) tree = (after, .ok path) ↔
      path = files.path (localeText record) ∧ ∃ text, encode record = .ok text ∧
        replace refusals tree (files.temporary tree (localeText record))
          (files.location (localeText record)) text.toUTF8 = (after, .ok ()) := by
  unfold Job.outcome writeAgainst
  cases hencode : encode record with
  | error e => simp
  | ok text =>
    simp only [Except.ok.injEq, exists_eq_left']
    cases hreplace : replace refusals tree (files.temporary tree (localeText record))
        (files.location (localeText record)) text.toUTF8 with
    | mk done result =>
      cases result with
      | error e => simp
      | ok u => simp [and_comm, eq_comm]

/-- A record that was written has the place of its file, which no directory had. -/
lemma exists_set_of_writeAgainst
    (h : Job.outcome (files.writeAgainst refusals record) tree = (after, .ok path)) :
    (∀ step, refusals step = none) ∧ path = files.path (localeText record) ∧
    ∃ text place mode, encode record = .ok text ∧
      tree.resolve (files.location (localeText record)) = .ok place ∧
      (∀ m, tree.at? place ≠ some (.directory m)) ∧
      targetMode tree (files.location (localeText record)) = .ok mode ∧
      after = tree.set place (.file text.toUTF8 mode) := by
  obtain ⟨hpath, text, hencode, hreplace⟩ := writeAgainst_eq_ok_iff.mp h
  obtain ⟨hallowed, -, place, mode, hplace, hclear, hmode, hafter⟩ := replace_eq_ok_iff.mp hreplace
  exact ⟨hallowed, hpath, text, place, mode, hencode, hplace, hclear, hmode, hafter⟩

/-- A record that cannot be written leaves the tree that was there. -/
theorem writeAgainst_of_error {e : Error}
    (h : (files.writeAgainst refusals record tree).result = .error e) :
    (files.writeAgainst refusals record tree).state = tree := by
  unfold writeAgainst at h ⊢
  cases hencode : encode record with
  | error e' => rfl
  | ok text =>
    simp only [hencode] at h ⊢
    cases hreplace : (replace refusals tree (files.temporary tree (localeText record))
        (files.location (localeText record)) text.toUTF8).2 with
    | ok _ =>
      rw [hreplace] at h
      exact absurd h (by simp)
    | error e' => exact replace_of_error hreplace

end LocaleBundle.Locale.Files
