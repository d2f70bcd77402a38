import LocaleBundle.Proofs.Locale.Writing

/-!
# Locale files are written whole or not at all, step by step

The steps in which a file is replaced are seen here one by one: each works on the tree that the last one
left, a file that could not be filled has some part of the content, and after a refusal the temporary
file is removed from the tree that was left. That comes to the same as taking back all that was done. So
whichever step is refused, and wherever the record says that its file is, a write leaves the tree that
was there or one with the whole file.
-/

namespace LocaleBundle

/-- A job that is cleaned up after if it fails. -/
def Job.cleanedUp {σ α : Type} (cleanup : σ → σ) (job : Job σ α) : Job σ α := fun s =>
  match (job s).result with
  | .ok _ => job s
  | .error e => ⟨cleanup (job s).state, .error e, (job s).log⟩

namespace Locale.Files

open FileTree

/-- One step on a tree. When it is refused from outside, a part of it may have been done; when the tree
refuses it, nothing has. -/
def stepOn (refusals : Refusals) (step : WriteStep) (partly : FileTree → FileTree)
    (next : FileTree → Except FileError FileTree) : Job FileTree Unit := fun tree =>
  match refusals step with
  | some e => ⟨partly tree, .error (.file e), []⟩
  | none =>
    match next tree with
    | .error e => ⟨tree, .error (.file e), []⟩
    | .ok after => ⟨after, .ok (), []⟩

/-- Takes a file away, if it is there. -/
def withoutFile (temp : Location) (tree : FileTree) : FileTree :=
  (tree.removeFile temp).toOption.getD tree

/-- The steps on a temporary file that is there. -/
def fillStepwise (refusals : Refusals) (part : ByteArray) (temp target : Location)
    (content : ByteArray) (mode : ℕ) : Job FileTree Unit := do
  stepOn refusals .fill (fun tree => (tree.writeFile temp part).toOption.getD tree)
    fun tree => tree.writeFile temp content
  stepOn refusals .setMode id fun tree => tree.setMode temp mode
  stepOn refusals .rename id fun tree => tree.rename temp target

/-- The steps in which a file is replaced; `part` is what a temporary file holds that could not be
filled. -/
def replaceStepwise (refusals : Refusals) (part : ByteArray) (temp target : Location)
    (content : ByteArray) : Job FileTree Unit := do
  let mode ← Job.ofExcept ((targetMode (← Job.get) target).mapError Error.file)
  stepOn refusals .create id fun tree => tree.createFile temp
  Job.cleanedUp (withoutFile temp) (fillStepwise refusals part temp target content mode)

/-- The steps in which a record is written. -/
def writeStepwise (refusals : Refusals) (part : ByteArray) (files : Files) (record : Record) :
    Job FileTree String := do
  let text ← Job.ofExcept (encode record)
  let locale := localeText record
  let temp := files.temporary (← Job.get) locale
  replaceStepwise refusals part temp (files.location locale) text.toUTF8
  return files.path locale

variable {tree after : FileTree} {temp target : Location} {place : Place} {content part : ByteArray}
  {mode : ℕ} {refusals : Refusals} {step : WriteStep} {partly : FileTree → FileTree}
  {next : FileTree → Except FileError FileTree} {e : FileError}

/-! ## One step -/

/-- A step of which nothing is done when it is refused. -/
lemma stepOn_id (refusals : Refusals) (step : WriteStep)
    (next : FileTree → Except FileError FileTree) (tree : FileTree) :
    stepOn refusals step id next tree =
      match tryStep refusals step (next tree) with
      | .error e => ⟨tree, .error (.file e), []⟩
      | .ok after => ⟨after, .ok (), []⟩ := by
  unfold stepOn tryStep
  cases refusals step <;> rfl

/-- The text of a record is its JSON and a line feed. -/
lemma exists_of_encode {record : Record} {text : String} (h : encode record = .ok text) :
    ∃ cs, Json.encode (.indented 2) record.toValue = .ok cs ∧ text = String.ofList (cs ++ ['\n']) := by
  unfold encode at h
  cases hcs : Json.encode (.indented 2) record.toValue with
  | error typeName =>
    rw [hcs] at h
    exact absurd h (by simp)
  | ok cs =>
    rw [hcs] at h
    exact ⟨cs, rfl, (Except.ok.inj h).symm⟩

/-! ## All steps -/

/-- The steps on a temporary file end as they do when they are taken together. A refused one leaves
the temporary file, whatever is in it. -/
lemma fillStepwise_of_isFree (h : tree.IsFree temp place) (refusals : Refusals) (part : ByteArray)
    (target : Location) (content : ByteArray) (mode : ℕ) :
    match fillAndRename refusals (tree.set place (.file ByteArray.empty 0o600)) temp target content
      mode with
    | .ok after => fillStepwise refusals part temp target content mode
        (tree.set place (.file ByteArray.empty 0o600)) = ⟨after, .ok (), []⟩
    | .error e => ∃ left bits, fillStepwise refusals part temp target content mode
        (tree.set place (.file ByteArray.empty 0o600)) =
          ⟨tree.set place (.file left bits), .error (.file e), []⟩ := by
  unfold fillStepwise fillAndRename
  simp only [bind, Except.bind]
  cases hfill : refusals .fill with
  | some e =>
    rw [tryStep_of_refused hfill]
    refine ⟨part, 0o600, Job.bind_of_step_error ?_⟩
    simp only [stepOn, hfill, h.writeFile_set, Except.toOption, Option.getD_some]
  | none =>
    have hfilled : stepOn refusals .fill (fun tree => (tree.writeFile temp part).toOption.getD tree)
        (fun tree => tree.writeFile temp content) (tree.set place (.file ByteArray.empty 0o600)) =
          ⟨tree.set place (.file content 0o600), .ok (), []⟩ := by
      simp only [stepOn, hfill, h.writeFile_set]
    simp only [tryStep_of_not_refused hfill, h.writeFile_set, Job.bind_of_step_ok hfilled]
    cases hmode : refusals .setMode with
    | some e =>
      rw [tryStep_of_refused hmode]
      refine ⟨content, 0o600, Job.bind_of_step_error ?_⟩
      simp only [stepOn_id, tryStep_of_refused hmode]
    | none =>
      have hset : stepOn refusals .setMode id (fun tree => tree.setMode temp mode)
          (tree.set place (.file content 0o600)) =
            ⟨tree.set place (.file content mode), .ok (), []⟩ := by
        simp only [stepOn_id, tryStep_of_not_refused hmode, h.setMode_set]
      simp only [tryStep_of_not_refused hmode, h.setMode_set, Job.bind_of_step_ok hset, stepOn_id]
      cases tryStep refusals .rename
          ((tree.set place (.file content mode)).rename temp target) with
      | error e => exact ⟨content, mode, rfl⟩
      | ok after => rfl

/-- Step by step a file is replaced as it is by taking back what was done. -/
theorem replaceStepwise_eq (refusals : Refusals) (part : ByteArray) (temp target : Location)
    (content : ByteArray) (tree : FileTree) :
    replaceStepwise refusals part temp target content tree =
      ⟨(replace refusals tree temp target content).1,
        (replace refusals tree temp target content).2.mapError Error.file, []⟩ := by
  unfold replaceStepwise replace
  simp only [Job.bind_eq]
  rw [Job.bind_of_step_ok (t := tree) (a := tree) rfl]
  cases hmode : targetMode tree target with
  | error e => rw [Job.bind_of_step_error (t := tree) (e := .file e) rfl]; rfl
  | ok mode =>
    rw [Job.bind_of_step_ok (t := tree) (a := mode) rfl]
    cases hcreate : tryStep refusals .create (tree.createFile temp) with
    | error e =>
      rw [Job.bind_of_step_error (t := tree) (e := .file e) (by simp only [stepOn_id, hcreate])]
      rfl
    | ok created =>
      obtain ⟨place, hfree, rfl⟩ := createFile_eq_ok_iff.mp (tryStep_eq_ok_iff.mp hcreate).2
      rw [Job.bind_of_step_ok (t := tree.set place (.file ByteArray.empty 0o600)) (a := ())
        (by simp only [stepOn_id, hcreate])]
      have hsteps := fillStepwise_of_isFree hfree refusals part target content mode
      unfold Job.cleanedUp
      cases hfill : fillAndRename refusals (tree.set place (.file ByteArray.empty 0o600)) temp target
          content mode with
      | ok after =>
        rw [hfill] at hsteps
        simp only [hsteps, hfill]
        rfl
      | error e =>
        rw [hfill] at hsteps
        obtain ⟨left, bits, hleft⟩ := hsteps
        -- the temporary file is taken away, whatever is in it
        simp only [hleft, hfill, withoutFile, hfree.removeFile_set, Except.toOption,
          Option.getD_some]
        rfl

/-- The same is true of a record. -/
lemma writeStepwise_eq (refusals : Refusals) (part : ByteArray) (files : Files) (record : Record) :
    files.writeStepwise refusals part record = files.writeAgainst refusals record := by
  funext tree
  unfold writeStepwise writeAgainst
  simp only [Job.bind_eq, Job.pure_eq]
  cases hencode : encode record with
  | error e => exact Job.bind_of_step_error rfl
  | ok text =>
    rw [Job.bind_of_step_ok (t := tree) (a := text) rfl, Job.bind_of_step_ok (t := tree) (a := tree) rfl]
    have hsteps := replaceStepwise_eq refusals part (files.temporary tree (localeText record))
      (files.location (localeText record)) text.toUTF8 tree
    cases hreplace : replace refusals tree (files.temporary tree (localeText record))
        (files.location (localeText record)) text.toUTF8 with
    | mk after result =>
      rw [hreplace] at hsteps
      simp only [hreplace]
      cases result with
      | error e => exact Job.bind_of_step_error hsteps
      | ok _ => exact Job.bind_of_step_ok hsteps

/-- A file is written whole or not at all. Whichever steps are refused, and whatever part of the content
a temporary file has got that could not be filled: if the write fails, the tree is the one before. If it
returns, the file of the record holds the indented JSON of the record and a line feed, with the permission
bits that it had or those of new files, and every other place is as before, so that nothing is left of
the temporary file. For a locale with a code, it returns unless a step is refused, the record has no text,
the directory is not there or another directory has the place of the file. -/
theorem write_wholeOrNothing (refusals : Refusals) (files : Files) (record : Record)
    (tree : FileTree) :
    let target := files.location (localeText record)
    let step := files.writeAgainst refusals record tree
    (∀ part, files.writeStepwise refusals part record tree = step) ∧
    (∀ e, step.result = .error e → step.state = tree) ∧
    (∀ path, step.result = .ok path → path = files.path (localeText record) ∧
      ∃ text place mode, Json.encode (.indented 2) record.toValue = .ok text ∧
        tree.resolve target = .ok place ∧ targetMode tree target = .ok mode ∧
        step.state.read target = .ok (String.ofList (text ++ ['\n'])).toUTF8 ∧
        ∀ p, step.state.at? p = if p = place
          then some (.file (String.ofList (text ++ ['\n'])).toUTF8 mode) else tree.at? p) ∧
    ∀ code, record.locale = .text code → Code.isValid code = true →
      ((∃ path, step.result = .ok path) ↔ (∀ s, refusals s = none) ∧
        (∃ text, encode record = .ok text) ∧ files.CanWrite tree code) := by
  intro target step
  refine ⟨fun part => by rw [writeStepwise_eq], fun e => writeAgainst_of_error, fun path hpath => ?_,
    fun code hlocale hcode => ⟨?_, ?_⟩⟩
  · obtain ⟨-, hsame, text, place, mode, hencode, hplace, hclear, hmode, hafter⟩ :=
      exists_set_of_writeAgainst (Job.outcome_of_result hpath)
    obtain ⟨cs, hcs, rfl⟩ := exists_of_encode hencode
    refine ⟨hsame, cs, place, mode, hcs, hplace, hmode, ?_, fun p => ?_⟩
    · exact hafter ▸ read_set hplace hclear _ _
    · exact hafter ▸ at?_set _ _ p _ (ne_nil_of_not_directory hclear)
  · rintro ⟨path, hpath⟩
    obtain ⟨hnone, -, text, place, mode, hencode, hplace, hclear, -⟩ :=
      exists_set_of_writeAgainst (Job.outcome_of_result hpath)
    rw [localeText_eq hlocale] at hplace
    exact ⟨hnone, ⟨text, hencode⟩, place, hplace, hclear⟩
  · rintro ⟨hnone, ⟨text, hencode⟩, hcan⟩
    obtain rfl : refusals = fun _ => none := funext hnone
    exact exists_write_of_canWrite hcode hlocale hencode hcan

end Locale.Files

end LocaleBundle
