import LocaleBundle.Proofs.Locale.Fallback
import LocaleBundle.Proofs.Locale.Readable

/-!
# What a load accepts and what it leaves

A load returns exactly when every locale file is accepted and no locale falls back on itself. Then
every configured locale has its record, in configured order, and new files were written for those
that had none. Otherwise it fails for the first file that is not accepted, or else for a cycle, and
notes nothing.
-/

namespace LocaleBundle.Locale

open Record Files

namespace Store

/-- Whether the file of one configured locale names another as its fallback. -/
def NamesFallback (store : Store) (tree : FileTree) (a b : String) : Prop :=
  a ∈ store.locales.codes ∧ b ∈ store.locales.codes ∧ ∃ text fields,
    store.OnFile tree a text ∧ parse text = .ok (.map fields) ∧ field "fallback" fields = .text b

/-- The record that a locale has after a load: the one on file, or an empty one if no file is
there. -/
inductive Holds (store : Store) (tree : FileTree) (code : String) : Record → Prop
  | file {text : String} {fields : Entries Value} {record : Record}
    (honFile : store.OnFile tree code text) (hparse : parse text = .ok (.map fields))
    (hrecord : IsRecordOf fields record) : Holds store tree code (named code record)
  | empty (hnone : tree.find (store.files.location code) = .error .notFound) :
    Holds store tree code (emptyRecord code)

end Store

namespace Workspace

open Store

/-- Whether a load finds what it can work with: a locales directory that is there or can be made, at
the path of each locale a UTF-8 text or nothing, and an open ledger. -/
structure Loadable (w : Workspace) (made : FileTree) : Prop where
  makes : w.tree.makeDirectories w.store.files.directory = .ok made
  paths : ∀ code ∈ w.store.locales.codes,
    made.find (w.store.files.location code) = .error .notFound ∨ ∃ text, w.store.OnFile made code text
  isOpen : w.ledger.closed = false

/-- Whether the locale files make a valid configuration. -/
structure IsValid (w : Workspace) (made : FileTree) : Prop where
  accepts : ∀ code ∈ w.store.locales.codes, ∀ text, w.store.OnFile made code text →
    w.store.Accepts code text
  acyclic : ∀ a, ¬ Relation.TransGen (w.store.NamesFallback made) a a

/-- Whether a locale had a file before the load. -/
def HadFile (w : Workspace) (made : FileTree) (code : String) : Prop :=
  ∃ p content mode, made.resolve (w.store.files.location code) = .ok p ∧
    w.tree.at? p = some (.file content mode)

/-- What a load that returns has done. -/
structure IsLoaded (w : Workspace) (made : FileTree) (after : Workspace) (report : LoadReport) :
    Prop where
  reported : report.entries.map (·.locale) = w.store.locales.codes
  recorded : after.store.records.keys = w.store.locales.codes
  held : ∀ e ∈ after.store.records, w.store.Holds made e.1 e.2
  fallbacks : after.store.fallbacks =
    after.store.records.map fun e => (e.1, e.2.fallback.asText?)
  isFile : ∀ entry ∈ report.entries, entry.origin = .file ↔ HadFile w made entry.locale
  isNew : ∀ entry ∈ report.entries, entry.origin ≠ .file →
    entry.origin = if w.store.addMissing then .newFile else .memory
  files : ∀ p content mode, after.tree.at? p = some (.file content mode) ↔
    w.tree.at? p = some (.file content mode) ∨ ∃ entry ∈ report.entries, entry.origin = .newFile ∧
      made.resolve (w.store.files.location entry.locale) = .ok p ∧
      content = (Files.content (emptyRecord entry.locale)).toUTF8 ∧ mode = FileTree.newFileMode
  pluralKeys : ∀ key, key ∈ after.ledger.pluralKeys ↔ key ∈ w.ledger.pluralKeys ∨
    ∃ e ∈ after.store.records, ∃ table, (key, Value.map table) ∈ e.2.translations
  keys : after.ledger.keys = w.ledger.keys
  isOpen : after.ledger.closed = false

/-- Why a load fails: a file is the first one that is not accepted, or all are and the first cycle
of fallbacks is reported. -/
inductive IsRefused (w : Workspace) (made : FileTree) : Error → Prop
  | file {before rest : List String} {code text : String} {e : Error}
    (hcodes : w.store.locales.codes = before ++ code :: rest)
    (hbefore : ∀ c ∈ before, ∀ t, w.store.OnFile made c t → w.store.Accepts c t)
    (honFile : w.store.OnFile made code text) (hrefuses : w.store.Refuses code text e) :
    IsRefused w made e
  | cycle {a : String} {rest : List String}
    (haccepts : ∀ code ∈ w.store.locales.codes, ∀ text, w.store.OnFile made code text →
      w.store.Accepts code text)
    (hfirst : (w.store.loadedFrom made).fallbacks.cycles.head? = some (a :: rest ++ [a]))
    (hnodup : (a :: rest).Nodup)
    (hclosed : (a :: rest ++ [a]).IsChain (w.store.NamesFallback made)) :
    IsRefused w made (.fault (.fallbackCycle (w.store.files.path a) (a :: rest ++ [a])))

variable {w : Workspace} {made : FileTree} {folder : Place} {code : String}

lemma Loadable.readable (h : Loadable w made) : Readable w made where
  makes := h.makes
  paths code hcode := (h.paths code hcode).imp_right fun ⟨text, honFile⟩ => ⟨text.toUTF8, honFile⟩
  isOpen := h.isOpen

/-! ## One locale -/

/-- A record falls back where its file says. -/
lemma fallback_of_holds {store : Store} {record : Record} (h : store.Holds made code record) :
    (∃ text fields, store.OnFile made code text ∧ parse text = .ok (.map fields) ∧
      record.fallback = if (field "fallback" fields).isTruthy then field "fallback" fields else .null) ∨
    made.find (store.files.location code) = .error .notFound ∧ record.fallback = .null := by
  cases h with
  | @file text fields original honFile hparse hrecord =>
    exact Or.inl ⟨text, fields, honFile, hparse, (named_fallback code original).trans hrecord.fallback⟩
  | empty hnone => exact Or.inr ⟨hnone, rfl⟩

section

variable (h : Loadable w made) (hfolder : made.IsFolder w.store.files.directory folder)

include h hfolder

/-- Nothing is at a locale's place, or a text. -/
lemma Loadable.at? (hcode : code ∈ w.store.locales.codes) :
    made.at? (placeIn folder code) = none ∨
      ∃ (text : String) (mode : ℕ), made.at? (placeIn folder code) = some (.file text.toUTF8 mode) := by
  have hvalid := w.store.locales.valid code hcode
  rcases h.paths code hcode with hnone | ⟨text, honFile⟩
  · left
    rw [find_location hvalid hfolder] at hnone
    cases hnode : made.at? (placeIn folder code) with
    | none => rfl
    | some node =>
      rw [hnode] at hnone
      exact absurd hnone (by simp)
  · obtain ⟨mode, hnode⟩ := (onFile_iff hfolder hvalid).mp honFile
    exact Or.inr ⟨text, mode, hnode⟩

omit h hfolder in
/-- A file that is not accepted is refused for one reason. -/
lemma refuses_of_not_forall
    (hnot : ¬ ∀ text, w.store.OnFile made code text → w.store.Accepts code text) :
    ∃ text e, w.store.OnFile made code text ∧ w.store.recordOf made code = .error e ∧
      w.store.Refuses code text e := by
  push Not at hnot
  obtain ⟨text, honFile, hrejected⟩ := hnot
  obtain ⟨e, he, hrefuses⟩ := refuses_of_not_accepts hrejected
  refine ⟨text, e, honFile, ?_, hrefuses⟩
  rw [recordOf_of_onFile honFile, he]

lemma Loadable.isPresent_iff (hcode : code ∈ w.store.locales.codes) :
    w.store.files.isPresent made code = true ↔ made.at? (placeIn folder code) ≠ none := by
  rw [Files.isPresent_iff (w.store.locales.valid code hcode) hfolder]
  rcases h.at? hfolder hcode with hnone | ⟨text, mode, hnode⟩
  · simp [hnone]
  · simp [hnode]

/-- The locales that can be loaded are those whose files are accepted. -/
lemma Loadable.canLoad_iff (hcode : code ∈ w.store.locales.codes) :
    w.store.CanLoad made folder code ↔
      ∀ text, w.store.OnFile made code text → w.store.Accepts code text := by
  rw [h.readable.canLoad_iff hcode hfolder]
  refine ⟨fun hfile => hfile.accepts, fun haccepts => ⟨?_, haccepts⟩⟩
  -- nothing is there, or a text
  rcases h.paths code hcode with hnone | ⟨text, honFile⟩
  · exact not_isUndecodable_of_notFound hnone
  · exact honFile.not_isUndecodable

lemma Loadable.holds (hcode : code ∈ w.store.locales.codes)
    (hcan : w.store.CanLoad made folder code) :
    w.store.Holds made code (w.store.recordIn made code) := by
  have hrecord := hcan.recordOf
  rcases h.paths code hcode with hnone | ⟨text, honFile⟩
  · rw [recordOf_of_notFound hnone] at hrecord
    rw [← Except.ok.inj hrecord]
    exact .empty hnone
  · obtain ⟨fields, hparse, hfields⟩ := (h.canLoad_iff hfolder hcode).mp hcan text honFile
    obtain ⟨original, horiginal⟩ := hasShape_iff.mp hfields.shape
    rw [recordOf_of_onFile honFile, recordFrom_of_accepts hparse horiginal hfields] at hrecord
    rw [← Except.ok.inj hrecord]
    exact .file honFile hparse horiginal

/-- The fallbacks in the store are those that the files name. -/
lemma Loadable.fallsBack_iff
    (hcan : ∀ code ∈ w.store.locales.codes, w.store.CanLoad made folder code) {a b : String} :
    Fallbacks.FallsBack (w.store.loadedFrom made).fallbacks a b ↔ w.store.NamesFallback made a b := by
  have hnext : Fallbacks.FallsBack (w.store.loadedFrom made).fallbacks a b ↔
      a ∈ w.store.locales.codes ∧ (w.store.recordIn made a).fallback = .text b := by
    unfold Fallbacks.FallsBack Fallbacks.next? loadedFrom
    by_cases ha : a ∈ w.store.locales.codes
    · rw [Entries.get?_map _ ha]
      simp [ha, asText?_eq_some_iff]
    · have hnone : Entries.get? a (w.store.locales.codes.map fun code =>
          (code, (w.store.recordIn made code).fallback.asText?)) = none := by
        rwa [Entries.get?_eq_none_iff, Entries.keys_map]
      simp [ha, hnone]
  rw [hnext]
  constructor
  · rintro ⟨ha, hfallback⟩
    have haccepts := (h.canLoad_iff hfolder ha).mp (hcan a ha)
    rcases fallback_of_holds (h.holds hfolder ha (hcan a ha)) with
      ⟨text, fields, honFile, hparse, hsame⟩ | ⟨-, hnull⟩
    · obtain ⟨fields', hparse', hfields⟩ := haccepts text honFile
      obtain rfl : fields = fields' := by
        have hmap := Except.ok.inj (hparse.symm.trans hparse')
        exact Value.map.inj hmap
      by_cases htruthy : (field "fallback" fields).isTruthy = true
      · rw [if_pos htruthy, hfallback] at hsame
        obtain ⟨other, hother, htext⟩ := hfields.fallback htruthy
        obtain rfl : b = other := Value.text.inj (hsame.trans htext)
        exact ⟨ha, hother, text, fields, honFile, hparse, hsame.symm⟩
      · rw [if_neg htruthy, hfallback] at hsame
        exact absurd hsame (by simp)
    · exact absurd (hfallback.symm.trans hnull) (by simp)
  · rintro ⟨ha, hb, text, fields, honFile, hparse, hfield⟩
    refine ⟨ha, ?_⟩
    rcases fallback_of_holds (h.holds hfolder ha (hcan a ha)) with
      ⟨text', fields', honFile', hparse', hsame⟩ | ⟨hnone, -⟩
    · obtain rfl := honFile.unique honFile'
      obtain rfl : fields = fields' := by
        have hmap := Except.ok.inj (hparse.symm.trans hparse')
        exact Value.map.inj hmap
      have hnotEmpty : b ≠ "" := by
        rintro rfl
        exact absurd (w.store.locales.valid "" hb) (by decide)
      rw [hsame, hfield, if_pos (by simpa [Value.isTruthy] using hnotEmpty)]
    · rw [OnFile, FileTree.read, hnone] at honFile
      exact absurd honFile (by simp)

/-! ## Effects -/

/-- A locale gets a new file exactly if files are to be added and nothing is at its place. -/
lemma Loadable.origin_eq_newFile_iff (hcode : code ∈ w.store.locales.codes) :
    w.store.originOf made code = .newFile ↔
      w.store.addMissing = true ∧ made.at? (placeIn folder code) = none := by
  rw [originOf]
  by_cases hpresent : w.store.files.isPresent made code = true
  · have hthere := (h.isPresent_iff hfolder hcode).mp hpresent
    simp [hpresent, hthere]
  · have hfree : made.at? (placeIn folder code) = none := by
      rw [h.isPresent_iff hfolder hcode] at hpresent
      exact not_not.mp hpresent
    cases hadd : w.store.addMissing <;> simp [hpresent, hfree]

omit h in
lemma origin_eq_file_iff (hmore : w.tree.HasMoreDirectories made)
    (hcode : code ∈ w.store.locales.codes) :
    w.store.originOf made code = .file ↔ HadFile w made code := by
  have hvalid := w.store.locales.valid code hcode
  have horigin : w.store.originOf made code = .file ↔ w.store.files.isPresent made code = true := by
    rw [originOf]
    cases hpresent : w.store.files.isPresent made code with
    | true => simp
    | false => cases w.store.addMissing <;> simp
  rw [horigin, Files.isPresent_iff hvalid hfolder]
  constructor
  · rintro ⟨content, mode, hnode⟩
    exact ⟨_, content, mode, hfolder.resolve_join (isName_json hvalid),
      (hmore.at?_eq_file_iff _ _ _).mp hnode⟩
  · rintro ⟨p, content, mode, hresolve, hnode⟩
    obtain rfl := Except.ok.inj ((hfolder.resolve_join (isName_json hvalid)).symm.trans hresolve)
    exact ⟨content, mode, (hmore.at?_eq_file_iff _ _ _).mpr hnode⟩

/-- The files after a load are the old ones and the new ones. -/
lemma Loadable.at?_after (hmore : w.tree.HasMoreDirectories made) {after : FileTree}
    (hadds : AddsFiles w.store folder w.store.locales.codes made after) (p : Place)
    (bytes : ByteArray) (mode : ℕ) : after.at? p = some (.file bytes mode) ↔
      w.tree.at? p = some (.file bytes mode) ∨
      ∃ entry ∈ w.store.locales.codes.map (w.store.entryOf made), entry.origin = .newFile ∧
        made.resolve (w.store.files.location entry.locale) = .ok p ∧
        bytes = (Files.content (emptyRecord entry.locale)).toUTF8 ∧
        mode = FileTree.newFileMode := by
  constructor
  · intro hafter
    by_cases hnew : ∃ code ∈ w.store.locales.codes, p = placeIn folder code ∧
        w.store.addMissing = true ∧ made.at? (placeIn folder code) = none
    · -- a file was written at this place
      right
      obtain ⟨code, hcode, rfl, hadd, hnone⟩ := hnew
      rw [hadds.added hadd code hcode hnone] at hafter
      obtain ⟨rfl, rfl⟩ := FileNode.file.inj (Option.some.inj hafter)
      exact ⟨_, List.mem_map_of_mem hcode,
        (h.origin_eq_newFile_iff hfolder hcode).mpr ⟨hadd, hnone⟩,
        hfolder.resolve_join (isName_json (w.store.locales.valid code hcode)), rfl, rfl⟩
    · left
      rw [← hmore.at?_eq_file_iff, ← hadds.kept p, hafter]
      intro code hcode hplace
      by_contra hnot
      rw [not_or, not_not, Bool.not_eq_false] at hnot
      exact hnew ⟨code, hcode, hplace, hnot.2, hplace ▸ hnot.1⟩
  · rintro (hold | ⟨entry, hentry, horigin, hresolve, rfl, rfl⟩)
    · rw [← hmore.at?_eq_file_iff] at hold
      rw [hadds.at?_of_ne_none (by simp [hold]), hold]
    · obtain ⟨code, hcode, rfl⟩ := List.mem_map.mp hentry
      obtain ⟨hadd, hnone⟩ := (h.origin_eq_newFile_iff hfolder hcode).mp horigin
      obtain rfl := Except.ok.inj
        ((hfolder.resolve_join (isName_json (w.store.locales.valid code hcode))).symm.trans hresolve)
      exact hadds.added hadd code hcode hnone

end

/-- A key is noted if some record translates it by a table. -/
lemma mem_tableKeys_iff {store : Store} {key : String} : key ∈ store.tableKeys ↔
    ∃ e ∈ store.records, ∃ table, (key, Value.map table) ∈ e.2.translations := by
  rw [tableKeys, List.mem_flatMap]
  refine exists_congr fun e => and_congr_right fun _ => ?_
  rw [pluralKeys, List.mem_filterMap]
  constructor
  · rintro ⟨⟨k, v⟩, hmem, hsome⟩
    cases v with
    | map table => exact ⟨table, Option.some.inj hsome ▸ hmem⟩
    | _ => exact absurd hsome (by simp)
  · rintro ⟨table, hmem⟩
    exact ⟨_, hmem, rfl⟩

/-- What a load leaves if all locales can be loaded and there is no cycle. -/
lemma Loadable.isLoaded (h : Loadable w made) (hmore : w.tree.HasMoreDirectories made)
    (hfolder : made.IsFolder w.store.files.directory folder)
    (hcan : ∀ code ∈ w.store.locales.codes, w.store.CanLoad made folder code) {after : FileTree}
    (hadds : AddsFiles w.store folder w.store.locales.codes made after) :
    IsLoaded w made ⟨after, w.store.loadedFrom made,
        w.ledger.withPlurals (w.store.loadedFrom made).tableKeys⟩
      ⟨w.store.locales.codes.map (w.store.entryOf made)⟩ where
  reported := by rw [List.map_map]; exact List.map_id _
  recorded := Entries.keys_map _ _
  held := by
    simp only [loadedFrom, List.forall_mem_map]
    exact fun code hcode => h.holds hfolder hcode (hcan code hcode)
  fallbacks := by simp [loadedFrom]
  isFile := by
    rw [List.forall_mem_map]
    exact fun code hcode => origin_eq_file_iff hfolder hmore hcode
  isNew := by
    rw [List.forall_mem_map]
    intro code _ hnot
    simp only [entryOf, originOf] at hnot ⊢
    by_cases hpresent : w.store.files.isPresent made code = true
    · exact absurd (if_pos hpresent) hnot
    · exact if_neg hpresent
  files := h.at?_after hfolder hmore hadds
  pluralKeys key := by rw [KeyLedger.withPlurals, TextSet.mem_adjoinAll, mem_tableKeys_iff]
  keys := rfl
  isOpen := h.isOpen

/-- A load fails for a cycle if all locales can be loaded. -/
lemma Loadable.isRefused_cycle (h : Loadable w made)
    (hfolder : made.IsFolder w.store.files.directory folder)
    (hcan : ∀ code ∈ w.store.locales.codes, w.store.CanLoad made folder code)
    {cycle : List String} {others : List (List String)}
    (hcycles : (w.store.loadedFrom made).fallbacks.cycles = cycle :: others) :
    IsRefused w made (.fault (.fallbackCycle (w.store.files.path (cycle.headD "")) cycle)) := by
  obtain ⟨a, rest, rfl, hnodup, hchain⟩ := Fallbacks.isCycle_of_mem_cycles
    (hcycles ▸ List.mem_cons_self)
  refine .cycle (fun code hcode => (h.canLoad_iff hfolder hcode).mp (hcan code hcode))
    (by rw [hcycles]; rfl) hnodup ?_
  exact hchain.imp fun a b => (h.fallsBack_iff hfolder hcan).mp

lemma Loadable.isValid_iff (h : Loadable w made)
    (hfolder : made.IsFolder w.store.files.directory folder)
    (hcan : ∀ code ∈ w.store.locales.codes, w.store.CanLoad made folder code) :
    IsValid w made ↔ (w.store.loadedFrom made).fallbacks.cycles = [] := by
  have hgraph : Fallbacks.FallsBack (w.store.loadedFrom made).fallbacks =
      w.store.NamesFallback made := by
    funext a b
    exact propext (h.fallsBack_iff hfolder hcan)
  rw [Fallbacks.cycles_eq_nil_iff, hgraph]
  constructor
  · exact fun hvalid => hvalid.acyclic
  · intro hacyclic
    exact ⟨fun code hcode => (h.canLoad_iff hfolder hcode).mp (hcan code hcode), hacyclic⟩

/-- A load returns exactly for the valid configurations. If it returns, the records, the new files
and the noted plural keys are those of the locale files. If it fails, it is for the first locale in
configured order whose file is not accepted, or else for a cycle; nothing was noted then, and no
file that was there has changed. The files are assumed to keep to the limits of a decoder, on nesting
and on the digits of an integer, that `Json.readDocument` leaves out. -/
theorem load_spec (h : Loadable w made) :
    ((∃ report, (load w).result = .ok report) ↔ IsValid w made) ∧
    (∀ report, (load w).result = .ok report → IsLoaded w made (load w).state report) ∧
    ∀ e, (load w).result = .error e → IsRefused w made e ∧ (load w).state.ledger = w.ledger ∧
      ∀ p content mode, w.tree.at? p = some (.file content mode) →
        (load w).state.tree.at? p = some (.file content mode) := by
  obtain ⟨hmore, folder, hfolder⟩ := FileTree.isFolder_of_makeDirectories h.makes
  -- no file that was there is changed by adding files
  have hkept : ∀ {codes : List String} {after : FileTree}, AddsFiles w.store folder codes made after →
      ∀ p content mode, w.tree.at? p = some (.file content mode) →
        after.at? p = some (.file content mode) := by
    intro codes after hadds p content mode hold
    rw [← hmore.at?_eq_file_iff] at hold
    rw [hadds.at?_of_ne_none (by simp [hold]), hold]
  rcases forall_or_first (w.store.CanLoad made folder) w.store.locales.codes with
    hcan | ⟨before, code, rest, hcodes, hbefore, hnot⟩
  · obtain ⟨after, hadds, hload⟩ := outcome_load_of_canLoad h.makes hfolder hcan
    have hvalid := h.isValid_iff hfolder hcan
    cases hcycles : (w.store.loadedFrom made).fallbacks.cycles with
    | nil =>
      -- the load returns
      rw [outcome_conclude_nil (w := { w with tree := after, store := w.store.loadedFrom made }) _
        h.isOpen hcycles] at hload
      obtain ⟨hstate, hresult⟩ := Prod.mk.inj hload
      rw [hstate, hresult]
      refine ⟨⟨fun _ => hvalid.mpr hcycles, fun _ => ⟨_, rfl⟩⟩, ?_, fun e he => absurd he (by simp)⟩
      rintro report hreport
      obtain rfl := Except.ok.inj hreport
      exact h.isLoaded hmore hfolder hcan hadds
    | cons cycle others =>
      -- the load fails when all records are in the store
      rw [outcome_conclude_cons (w := { w with tree := after, store := w.store.loadedFrom made }) _
        hcycles] at hload
      obtain ⟨hstate, hresult⟩ := Prod.mk.inj hload
      rw [hstate, hresult]
      refine ⟨⟨fun ⟨_, hok⟩ => absurd hok (by simp), fun hv => ?_⟩, fun _ hok => absurd hok (by simp), ?_⟩
      · exact absurd (hcycles.symm.trans (hvalid.mp hv)) (by simp)
      · rintro e he
        obtain rfl := Except.error.inj he
        exact ⟨h.isRefused_cycle hfolder hcan hcycles, rfl, hkept hadds⟩
  · have hcode : code ∈ w.store.locales.codes := by simp [hcodes]
    rw [h.canLoad_iff hfolder hcode] at hnot
    obtain ⟨text, e, honFile, hrecord, hrefuses⟩ := refuses_of_not_forall hnot
    obtain ⟨after, hload, hledger, hadds⟩ :=
      outcome_load_of_recordOf_error h.makes hfolder hcodes hbefore hrecord
    obtain ⟨hstate, hresult⟩ := Prod.mk.inj hload
    rw [hstate, hresult]
    refine ⟨⟨fun ⟨_, hok⟩ => absurd hok (by simp), fun hv => absurd (hv.accepts code hcode) hnot⟩,
      fun _ hok => absurd hok (by simp), ?_⟩
    rintro e' he
    obtain rfl := Except.error.inj he
    have haccepts : ∀ c ∈ before, ∀ t, w.store.OnFile made c t → w.store.Accepts c t := by
      intro c hc
      exact (h.canLoad_iff hfolder (by simp [hcodes, hc])).mp (hbefore c hc)
    exact ⟨.file hcodes haccepts honFile hrefuses, hledger, hkept hadds⟩

/-- A Dutch record that falls back on English. -/
def dutch : Record := { locale := .text "nl", name := "Dutch", fallback := .text "en" }

lemma isWritable_dutch : dutch.IsWritable where
  locale := .text _
  fallback := Or.inr rfl
  fallbackJson := .text _
  areTranslations := by simp [dutch]
  translationsJson := .map List.nodup_nil (by simp [dutch])
  extraNames := by simp [dutch]
  extraJson := .map List.nodup_nil (by simp [dutch])

/-- English and Dutch are configured, and only Dutch has a file. -/
def dutchOnly : Workspace where
  tree := ⟨[(["i18n"], .directory 0o755),
    (["i18n", "nl.json"], .file (content dutch).toUTF8 0o644)]⟩
  store := {
    locales := ⟨["en", "nl"], "en", by decide, by decide, by decide⟩
    files := ⟨⟨"", ["i18n"]⟩⟩
    addMissing := true }
  ledger := {}

lemma isFolder_dutchOnly : dutchOnly.tree.IsFolder dutchOnly.store.files.directory ["i18n"] :=
  ⟨rfl, rfl, rfl⟩

lemma onFile_dutchOnly {code text : String} (hcode : code ∈ dutchOnly.store.locales.codes)
    (h : dutchOnly.store.OnFile dutchOnly.tree code text) : code = "nl" ∧ text = content dutch := by
  have hvalid := dutchOnly.store.locales.valid code hcode
  rw [onFile_iff isFolder_dutchOnly hvalid] at h
  obtain ⟨mode, hnode⟩ := h
  have hnames : code = "en" ∨ code = "nl" := by simpa [dutchOnly] using hcode
  rcases hnames with rfl | rfl
  · have hfree : dutchOnly.tree.at? (placeIn ["i18n"] "en") = none := rfl
    exact absurd (hfree.symm.trans hnode) (by simp)
  · have hthere : dutchOnly.tree.at? (placeIn ["i18n"] "nl") =
        some (.file (content dutch).toUTF8 0o644) := rfl
    have honFile := (onFile_iff isFolder_dutchOnly hvalid).mpr ⟨_, hthere⟩
    exact ⟨rfl, ((onFile_iff isFolder_dutchOnly hvalid).mpr ⟨mode, hnode⟩).unique honFile⟩

lemma namesFallback_dutchOnly {a b : String}
    (h : dutchOnly.store.NamesFallback dutchOnly.tree a b) : a = "nl" ∧ b = "en" := by
  obtain ⟨ha, -, text, fields, honFile, hparse, hfallback⟩ := h
  obtain ⟨rfl, rfl⟩ := onFile_dutchOnly ha honFile
  rw [parse_content isWritable_dutch.isJson_toValue, isWritable_dutch.toValue_eq] at hparse
  obtain rfl := Value.map.inj (Except.ok.inj hparse)
  rw [isWritable_dutch.field_fallback] at hfallback
  exact ⟨rfl, (Value.text.inj hfallback).symm⟩

theorem load_spec_dutchOnly : Loadable dutchOnly dutchOnly.tree ∧
    ∃ report, (load dutchOnly).result = .ok report ∧
      IsLoaded dutchOnly dutchOnly.tree (load dutchOnly).state report := by
  have hloadable : Loadable dutchOnly dutchOnly.tree := by
    refine ⟨isFolder_dutchOnly.makeDirectories, fun code hcode => ?_, rfl⟩
    have hnames : code = "en" ∨ code = "nl" := by simpa [dutchOnly] using hcode
    rcases hnames with rfl | rfl
    · left
      rw [find_location rfl isFolder_dutchOnly]
      rfl
    · exact Or.inr ⟨content dutch, (onFile_iff isFolder_dutchOnly rfl).mpr ⟨0o644, rfl⟩⟩
  have hvalid : IsValid dutchOnly dutchOnly.tree := by
    refine ⟨fun code hcode text honFile => ?_, fun a hcycle => ?_⟩
    · obtain ⟨rfl, rfl⟩ := onFile_dutchOnly hcode honFile
      exact accepts_iff.mpr
        ⟨_, recordFrom_content isWritable_dutch rfl (Or.inr ⟨"en", by decide, rfl⟩)⟩
    · -- Dutch leads to English, and from there nothing leads on
      obtain ⟨b, hfirst, hrest⟩ := Relation.TransGen.head'_iff.mp hcycle
      obtain ⟨rfl, rfl⟩ := namesFallback_dutchOnly hfirst
      rcases Relation.ReflTransGen.cases_head hrest with hsame | ⟨c, hnext, -⟩
      · exact absurd hsame (by decide)
      · exact absurd (namesFallback_dutchOnly hnext).1 (by decide)
  obtain ⟨hreturns, heffects, -⟩ := load_spec hloadable
  obtain ⟨report, hreport⟩ := hreturns.mpr hvalid
  exact ⟨hloadable, report, hreport, heffects report hreport⟩

end Workspace

end LocaleBundle.Locale
