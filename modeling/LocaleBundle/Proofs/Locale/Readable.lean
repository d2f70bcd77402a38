import LocaleBundle.Proofs.Locale.Acceptance

/-!
# What the bytes of a locale file give

Any bytes may be at the path of a locale. They give it a record if they are a UTF-8 text that is
accepted; else the locale cannot be loaded, for its bytes or for what its text says.
-/

namespace LocaleBundle.Locale

open Files

namespace Store

/-- Whether the file of a locale is no UTF-8 text. -/
def IsUndecodable (store : Store) (tree : FileTree) (code : String) : Prop :=
  ∃ bytes, tree.read (store.files.location code) = .ok bytes ∧ String.fromUTF8? bytes = none

/-- Whether the file of a locale is accepted, if it has one. -/
structure AcceptsFile (store : Store) (tree : FileTree) (code : String) : Prop where
  decodable : ¬ store.IsUndecodable tree code
  accepts : ∀ text, store.OnFile tree code text → store.Accepts code text

/-- What the bytes at the path of a locale give it. -/
inductive Reads (store : Store) (tree : FileTree) (code : String) : Except Error Record → Prop
  | none (hfind : tree.find (store.files.location code) = .error .notFound) :
    Reads store tree code (.ok (emptyRecord code))
  | accepted {text : String} {record : Record} (honFile : store.OnFile tree code text)
    (haccepts : store.Accepts code text) (hrecord : store.recordFrom code text = .ok record) :
    Reads store tree code (.ok record)
  | refused {text : String} {e : Error} (honFile : store.OnFile tree code text)
    (hnot : ¬ store.Accepts code text) (hrefuses : store.Refuses code text e) :
    Reads store tree code (.error e)
  | undecodable (hbytes : store.IsUndecodable tree code) :
    Reads store tree code (.error .undecodable)

variable {store : Store} {tree : FileTree} {code : String}

lemma toUTF8_of_fromUTF8? {bytes : ByteArray} {text : String}
    (h : String.fromUTF8? bytes = some text) : text.toUTF8 = bytes := by
  unfold String.fromUTF8? at h
  split at h
  · rw [← Option.some.inj h]
    rfl
  · exact absurd h (by simp)

/-- A file that has a text is not one that has none. -/
lemma OnFile.not_isUndecodable {text : String} (h : store.OnFile tree code text) :
    ¬ store.IsUndecodable tree code := by
  rintro ⟨bytes, hread, hnone⟩
  rw [← Except.ok.inj (h.symm.trans hread), fromUTF8?_toUTF8] at hnone
  exact absurd hnone (by simp)

lemma not_isUndecodable_of_notFound
    (h : tree.find (store.files.location code) = .error .notFound) :
    ¬ store.IsUndecodable tree code := by
  rintro ⟨bytes, hread, -⟩
  rw [FileTree.read, h] at hread
  exact absurd hread (by simp)

/-- At the path of a locale is nothing or a file: that settles the record. -/
lemma reads_recordOf (hpath : tree.find (store.files.location code) = .error .notFound ∨
    ∃ bytes, tree.read (store.files.location code) = .ok bytes) :
    store.Reads tree code (store.recordOf tree code) := by
  rcases hpath with hnone | ⟨bytes, hread⟩
  · rw [recordOf_of_notFound hnone]
    exact .none hnone
  · cases hdecode : String.fromUTF8? bytes with
    | none =>
      rw [recordOf_of_read hread, hdecode]
      exact .undecodable ⟨bytes, hread, hdecode⟩
    | some text =>
      have honFile : store.OnFile tree code text := by
        rw [OnFile, hread, toUTF8_of_fromUTF8? hdecode]
      rw [recordOf_of_onFile honFile]
      by_cases haccepts : store.Accepts code text
      · obtain ⟨record, hrecord⟩ := accepts_iff.mp haccepts
        rw [hrecord]
        exact .accepted honFile haccepts hrecord
      · obtain ⟨e, he, hrefuses⟩ := refuses_of_not_accepts haccepts
        rw [he]
        exact .refused honFile haccepts hrefuses

/-- A record is given if the file is accepted. -/
lemma Reads.exists_iff {result : Except Error Record} (h : store.Reads tree code result) :
    (∃ record, result = .ok record) ↔ store.AcceptsFile tree code := by
  cases h with
  | none hfind =>
    refine iff_of_true ⟨_, rfl⟩ ⟨not_isUndecodable_of_notFound hfind, fun text honFile => ?_⟩
    rw [OnFile, FileTree.read, hfind] at honFile
    exact absurd honFile (by simp)
  | accepted honFile haccepts hrecord =>
    refine iff_of_true ⟨_, rfl⟩ ⟨honFile.not_isUndecodable, fun other hother => ?_⟩
    rwa [← honFile.unique hother]
  | refused honFile hnot hrefuses =>
    exact iff_of_false (by simp) fun haccepts => hnot (haccepts.accepts _ honFile)
  | undecodable hbytes => exact iff_of_false (by simp) fun haccepts => haccepts.decodable hbytes

end Store

namespace Workspace

open Store

/-- Whether nothing but what is in the locale files can keep a load from returning: the locales
directory is there or can be made, at the path of each locale is a file or nothing, and the ledger
is open. -/
structure Readable (w : Workspace) (made : FileTree) : Prop where
  makes : w.tree.makeDirectories w.store.files.directory = .ok made
  paths : ∀ code ∈ w.store.locales.codes,
    made.find (w.store.files.location code) = .error .notFound ∨
      ∃ bytes, made.read (w.store.files.location code) = .ok bytes
  isOpen : w.ledger.closed = false

variable {w : Workspace} {made : FileTree} {folder : Place} {code : String}

/-- No directory is at the path of a locale. -/
lemma Readable.ne_directory (h : Readable w made) (hcode : code ∈ w.store.locales.codes)
    (hfolder : made.IsFolder w.store.files.directory folder) (m : ℕ) :
    made.at? (placeIn folder code) ≠ some (.directory m) := by
  intro hnode
  have hfind := find_location (w.store.locales.valid code hcode) hfolder
  rw [hnode] at hfind
  rcases h.paths code hcode with hnone | ⟨bytes, hread⟩
  · exact absurd (hnone.symm.trans hfind) (by simp)
  · rw [FileTree.read, hfind] at hread
    exact absurd hread (by simp)

/-- The locales that can be loaded are those whose files are accepted. -/
lemma Readable.canLoad_iff (h : Readable w made) (hcode : code ∈ w.store.locales.codes)
    (hfolder : made.IsFolder w.store.files.directory folder) :
    w.store.CanLoad made folder code ↔ w.store.AcceptsFile made code := by
  rw [← (reads_recordOf (h.paths code hcode)).exists_iff]
  constructor
  · intro hcan
    exact ⟨_, hcan.recordOf⟩
  · rintro ⟨record, hrecord⟩
    refine ⟨?_, fun _ m => h.ne_directory hcode hfolder m⟩
    rw [recordIn, hrecord]
    rfl

end Workspace

end LocaleBundle.Locale
