import LocaleBundle.Locale.Store
import LocaleBundle.Proofs.Locale.Files

/-!
# What loading does to a workspace

Each locale gets the record in its file, or an empty one, which is written if files are to be
added. Files that are there stay as they are, so the record of a locale does not depend on the
locales before it. From that the state after a whole load is found: the records in order, the new
files, and the plural keys that are noted.
-/

namespace LocaleBundle

namespace KeyLedger

/-- A ledger with some more plural keys. -/
def withPlurals (ledger : KeyLedger) (keys : List String) : KeyLedger :=
  { ledger with pluralKeys := TextSet.adjoinAll ledger.pluralKeys keys }

lemma notePlural_of_open {ledger : KeyLedger} (hopen : ledger.closed = false) (key : String) :
    ledger.notePlural key = .ok (ledger.withPlurals [key]) := by
  rw [notePlural, if_neg (by simp [hopen])]
  rfl

lemma outcome_notePlural {ledger : KeyLedger} (hopen : ledger.closed = false) (key : String) :
    Job.outcome (update fun ledger => ledger.notePlural key) ledger =
      (ledger.withPlurals [key], .ok ()) := by
  simp only [Job.outcome, update, notePlural_of_open hopen]

lemma outcome_notePlural_closed {ledger : KeyLedger} (hclosed : ledger.closed = true) (key : String) :
    Job.outcome (update fun ledger => ledger.notePlural key) ledger =
      (ledger, .error .ledgerClosed) := by
  simp only [Job.outcome, update, notePlural, hclosed, if_true]

end KeyLedger

namespace Locale

open Files

/-- All items of a list have a property, or there is a first one that has not. -/
lemma forall_or_first {α : Type} (P : α → Prop) (items : List α) : (∀ a ∈ items, P a) ∨
    ∃ before a rest, items = before ++ a :: rest ∧ (∀ b ∈ before, P b) ∧ ¬ P a := by
  induction items with
  | nil => exact Or.inl (List.forall_mem_nil P)
  | cons a items ih =>
    by_cases ha : P a
    · rcases ih with hall | ⟨before, b, rest, rfl, hbefore, hb⟩
      · exact Or.inl (List.forall_mem_cons.mpr ⟨ha, hall⟩)
      · exact Or.inr ⟨a :: before, b, rest, rfl, List.forall_mem_cons.mpr ⟨ha, hbefore⟩, hb⟩
    · exact Or.inr ⟨[], a, items, rfl, List.forall_mem_nil P, ha⟩

/-- The first item that has not a property is one. -/
lemma eq_of_first {α : Type} {P : α → Prop} {before before' rest rest' : List α} {a b : α}
    (h : before ++ a :: rest = before' ++ b :: rest') (hbefore : ∀ c ∈ before, P c) (ha : ¬ P a)
    (hbefore' : ∀ c ∈ before', P c) (hb : ¬ P b) : a = b := by
  induction before generalizing before' with
  | nil =>
    cases before' with
    | nil => exact (List.cons.inj h).1
    | cons c before' =>
      rw [(List.cons.inj h).1] at ha
      exact absurd (hbefore' c List.mem_cons_self) ha
  | cons c before ih =>
    cases before' with
    | nil =>
      rw [← (List.cons.inj h).1] at hb
      exact absurd (hbefore c List.mem_cons_self) hb
    | cons c' before' =>
      exact ih (List.cons.inj h).2 (List.forall_mem_cons.mp hbefore).2
        (List.forall_mem_cons.mp hbefore').2

/-! ## One locale -/

namespace Store

/-- The record that a locale gets from a tree: the one in its file, or an empty one. -/
def recordOf (store : Store) (tree : FileTree) (code : String) : Except Error Record :=
  if store.files.isPresent tree code then
    match store.files.read tree code with
    | .error e => .error e
    | .ok content => store.accept code content
  else .ok (emptyRecord code)

/-- Where the record of a locale comes from. -/
def originOf (store : Store) (tree : FileTree) (code : String) : Origin :=
  if store.files.isPresent tree code then .file
  else if store.addMissing then .newFile else .memory

/-- The record of a locale that can be loaded. -/
def recordIn (store : Store) (tree : FileTree) (code : String) : Record :=
  (store.recordOf tree code).toOption.getD (emptyRecord code)

/-- Whether a tree is another one with files for those locales of a list that had none, if files
are to be added. -/
structure AddsFiles (store : Store) (folder : Place) (codes : List String)
    (tree after : FileTree) : Prop where
  kept : ∀ p, (∀ code ∈ codes, p = placeIn folder code →
    tree.at? p ≠ none ∨ store.addMissing = false) → after.at? p = tree.at? p
  added : store.addMissing = true → ∀ code ∈ codes, tree.at? (placeIn folder code) = none →
    after.at? (placeIn folder code) =
      some (.file (content (emptyRecord code)).toUTF8 FileTree.newFileMode)

namespace AddsFiles

variable {store : Store} {folder : Place} {codes : List String} {tree middle after : FileTree}

lemma refl (h : store.addMissing = true → ∀ code ∈ codes, tree.at? (placeIn folder code) ≠ none) :
    AddsFiles store folder codes tree tree :=
  ⟨fun _ _ => rfl, fun hadd code hcode hnone => absurd hnone (h hadd code hcode)⟩

/-- What is there stays. -/
lemma at?_of_ne_none (h : AddsFiles store folder codes tree after) {p : Place}
    (hp : tree.at? p ≠ none) : after.at? p = tree.at? p :=
  h.kept p fun _ _ _ => Or.inl hp

lemma keepsDirectories (h : AddsFiles store folder codes tree after) :
    tree.KeepsDirectories after := by
  intro p mode hp
  rw [h.at?_of_ne_none (by simp [hp]), hp]

lemma at?_of_notMem (h : AddsFiles store folder codes tree after) {code : String}
    (hcode : code ∉ codes) : after.at? (placeIn folder code) = tree.at? (placeIn folder code) := by
  refine h.kept _ fun other hother hplace => ?_
  rw [placeIn_injective folder hplace] at hcode
  exact absurd hother hcode

lemma cons {code : String} (hnew : code ∉ codes) (h : AddsFiles store folder [code] tree middle)
    (h' : AddsFiles store folder codes middle after) :
    AddsFiles store folder (code :: codes) tree after := by
  refine ⟨fun p hp => ?_, fun hadd => List.forall_mem_cons.mpr ⟨fun hnone => ?_, fun c hc hnone => ?_⟩⟩
  · have hmiddle : middle.at? p = tree.at? p :=
      h.kept p fun c hc => hp c (List.mem_cons.mpr (Or.inl (List.mem_singleton.mp hc)))
    rw [h'.kept p fun c hc => hmiddle ▸ hp c (List.mem_cons_of_mem _ hc), hmiddle]
  · rw [h'.at?_of_notMem hnew, h.added hadd code (List.mem_singleton_self code) hnone]
  · have hne : c ∉ [code] := fun hmem => hnew (List.mem_singleton.mp hmem ▸ hc)
    exact h'.added hadd c hc ((h.at?_of_notMem hne).trans hnone)

end AddsFiles

lemma isWritable_emptyRecord (code : String) : (emptyRecord code).IsWritable where
  locale := .text code
  fallback := Or.inl rfl
  fallbackJson := .null
  areTranslations := by simp [emptyRecord]
  translationsJson := .map List.nodup_nil (by simp [emptyRecord])
  extraNames := by simp [emptyRecord]
  extraJson := .map List.nodup_nil (by simp [emptyRecord])

variable {store : Store} {tree : FileTree} {folder : Place} {code : String}
  (hfolder : tree.IsFolder store.files.directory folder) (hcode : Code.isValid code = true)

include hfolder hcode

/-- The record and its origin depend on what is at the locale's place. -/
lemma recordOf_congr {other : FileTree} (hother : other.IsFolder store.files.directory folder)
    (hsame : other.at? (placeIn folder code) = tree.at? (placeIn folder code)) :
    store.recordOf other code = store.recordOf tree code ∧
      store.originOf other code = store.originOf tree code := by
  have hfind : other.find (store.files.location code) = tree.find (store.files.location code) := by
    rw [find_location hcode hfolder, find_location hcode hother, hsame]
  have hpresent : store.files.isPresent other code = store.files.isPresent tree code := by
    rw [isPresent, isPresent, FileTree.isFile, FileTree.isFile, hfind]
  have hread : store.files.read other code = store.files.read tree code := by
    simp only [Files.read, FileTree.read, hfind]
  constructor
  · rw [recordOf, recordOf, hpresent, hread]
  · rw [originOf, originOf, hpresent]

/-- A locale is loaded: its record is the one that the tree gives it. -/
lemma outcome_loadLocale {record : Record} (hrecord : store.recordOf tree code = .ok record)
    (htarget : store.addMissing = true → ∀ m, tree.at? (placeIn folder code) ≠ some (.directory m)) :
    ∃ after, Job.outcome (store.loadLocale code) tree =
        (after, .ok (record, store.originOf tree code)) ∧
      AddsFiles store folder [code] tree after := by
  unfold recordOf at hrecord
  unfold loadLocale originOf
  simp only [Job.bind_eq, Job.outcome_bind_get]
  by_cases hpresent : store.files.isPresent tree code = true
  · rw [if_pos hpresent] at hrecord
    obtain ⟨bytes, mode, hfile⟩ := (isPresent_iff hcode hfolder).mp hpresent
    refine ⟨tree, ?_, .refl fun _ c hc => ?_⟩
    · cases hread : store.files.read tree code with
      | error e =>
        rw [hread] at hrecord
        exact absurd hrecord (by simp)
      | ok content =>
        rw [hread] at hrecord
        simp only [hpresent, if_true, Job.outcome_bind_ofExcept_ok, hrecord, Job.pure_eq,
          Job.outcome_ok]
    · rw [List.mem_singleton.mp hc, hfile]
      simp
  · rw [if_neg hpresent] at hrecord
    obtain rfl := Except.ok.inj hrecord
    simp only [hpresent, Bool.false_eq_true, if_false]
    by_cases hadd : store.addMissing = true
    · simp only [hadd, if_true]
      have hjson := (isWritable_emptyRecord code).isJson_toValue
      obtain ⟨after, mode, hwrite, hmode, hafter⟩ :=
        outcome_write hcode hfolder rfl (encode_eq hjson) (htarget hadd)
      have hnone : tree.at? (placeIn folder code) = none := by
        rw [isPresent_iff hcode hfolder] at hpresent
        cases hnode : tree.at? (placeIn folder code) with
        | none => rfl
        | some node =>
          cases node with
          | file bytes m => exact absurd ⟨bytes, m, hnode⟩ hpresent
          | directory m => exact absurd hnode (htarget hadd m)
      have hnewMode : mode = FileTree.newFileMode := by
        rw [targetMode, FileTree.mode, find_location hcode hfolder, hnone] at hmode
        exact (Except.ok.inj hmode).symm
      refine ⟨after, ?_, fun p hp => ?_, fun _ c hc _ => ?_⟩
      · rw [Job.outcome_bind_ok hwrite, Job.outcome_bind_record, Job.pure_eq, Job.outcome_ok]
      · rw [hafter, if_neg]
        intro hplace
        have hnot := hp code (List.mem_singleton_self code) hplace
        rw [hplace, hnone, hadd] at hnot
        simp at hnot
      · rw [List.mem_singleton.mp hc, hafter, if_pos rfl, hnewMode]
    · simp only [hadd, Bool.false_eq_true, if_false, Job.pure_eq, Job.outcome_ok]
      exact ⟨tree, rfl, .refl fun h => absurd h hadd⟩

omit hfolder hcode in
lemma outcome_loadLocale_error {e : Error} (hrecord : store.recordOf tree code = .error e) :
    Job.outcome (store.loadLocale code) tree = (tree, .error e) := by
  unfold recordOf at hrecord
  unfold loadLocale
  simp only [Job.bind_eq, Job.outcome_bind_get]
  by_cases hpresent : store.files.isPresent tree code = true
  · rw [if_pos hpresent] at hrecord
    simp only [hpresent, if_true]
    cases hread : store.files.read tree code with
    | error e' =>
      rw [hread] at hrecord
      rw [Job.outcome_bind_ofExcept_error, Except.error.inj hrecord]
    | ok content =>
      rw [hread] at hrecord
      simp only [Job.outcome_bind_ofExcept_ok, hrecord, Job.outcome_bind_ofExcept_error]
  · rw [if_neg hpresent] at hrecord
    exact absurd hrecord (by simp)

/-- A directory at its place keeps a locale from getting a file. -/
lemma loadLocale_directory (hadd : store.addMissing = true) {m : ℕ}
    (htarget : tree.at? (placeIn folder code) = some (.directory m)) :
    ∃ e, Job.outcome (store.loadLocale code) tree =
      ((store.files.write (emptyRecord code) tree).state, .error e) := by
  obtain ⟨e, he⟩ : ∃ e, (store.files.write (emptyRecord code) tree).result = .error e :=
    write_directory hcode hfolder rfl htarget
  have hpresent : ¬ store.files.isPresent tree code = true := by
    rw [isPresent_iff hcode hfolder, htarget]
    simp
  refine ⟨e, ?_⟩
  unfold loadLocale
  simp only [Job.bind_eq, Job.outcome_bind_get, hpresent, Bool.false_eq_true, if_false, hadd, if_true]
  exact Job.outcome_bind_error (Job.outcome_of_result he)

/-- Whether a locale can be loaded: the tree gives it a record, and no directory is in the way of a
file that is to be added. -/
structure CanLoad (store : Store) (tree : FileTree) (folder : Place) (code : String) : Prop where
  recordOf : store.recordOf tree code = .ok (store.recordIn tree code)
  target : store.addMissing = true → ∀ m, tree.at? (placeIn folder code) ≠ some (.directory m)

omit hfolder hcode in
lemma canLoad_or (store : Store) (tree : FileTree) (folder : Place) (code : String) :
    CanLoad store tree folder code ∨ (∃ e, store.recordOf tree code = .error e) ∨
    store.addMissing = true ∧ ∃ m, tree.at? (placeIn folder code) = some (.directory m) := by
  cases hrecord : store.recordOf tree code with
  | error e => exact Or.inr (Or.inl ⟨e, rfl⟩)
  | ok record =>
    by_cases htarget : store.addMissing = true ∧
        ∃ m, tree.at? (placeIn folder code) = some (.directory m)
    · exact Or.inr (Or.inr htarget)
    · have hin : store.recordIn tree code = record := by
        rw [recordIn, hrecord]
        rfl
      exact Or.inl ⟨hrecord.trans (congrArg Except.ok hin.symm), fun hadd m hm => htarget ⟨hadd, m, hm⟩⟩

/-- Whether a locale can be loaded, and with which record, is said by its place alone. -/
lemma canLoad_congr {other : FileTree} (hother : other.IsFolder store.files.directory folder)
    (hsame : other.at? (placeIn folder code) = tree.at? (placeIn folder code)) :
    store.recordIn other code = store.recordIn tree code ∧
      (CanLoad store other folder code ↔ CanLoad store tree folder code) := by
  have hrecord := (recordOf_congr hfolder hcode hother hsame).1
  have hin : store.recordIn other code = store.recordIn tree code := by
    rw [recordIn, recordIn, hrecord]
  refine ⟨hin, fun h => ⟨?_, fun hadd => hsame ▸ h.target hadd⟩,
    fun h => ⟨?_, fun hadd => hsame.symm ▸ h.target hadd⟩⟩
  · rw [← hrecord, ← hin, h.recordOf]
  · rw [hrecord, hin, h.recordOf]

omit hfolder hcode

/-- What is in the store already does not matter. -/
lemma canLoad_take {locale : String} {record : Record} :
    (store.take locale record).CanLoad tree folder code ↔ store.CanLoad tree folder code :=
  ⟨fun h => ⟨h.recordOf, h.target⟩, fun h => ⟨h.recordOf, h.target⟩⟩

lemma AddsFiles.of_take {locale : String} {record : Record} {codes : List String}
    {after : FileTree} (h : AddsFiles (store.take locale record) folder codes tree after) :
    AddsFiles store folder codes tree after :=
  ⟨h.kept, h.added⟩

end Store

/-! ## All locales -/

namespace Store

/-- A store with the records of some locales taken into it in order. -/
def takeAll (store : Store) (codes : List String) (record : String → Record) : Store :=
  { store with
    records := Entries.insertAll store.records (codes.map fun code => (code, record code))
    fallbacks := Entries.insertAll store.fallbacks
      (codes.map fun code => (code, (record code).fallback.asText?)) }

/-- The store with nothing loaded. -/
def cleared (store : Store) : Store := { store with records := [], fallbacks := [] }

/-- The store after all locales were loaded from a tree. -/
def loadedFrom (store : Store) (tree : FileTree) : Store :=
  { store with
    records := store.locales.codes.map fun code => (code, store.recordIn tree code)
    fallbacks := store.locales.codes.map fun code =>
      (code, (store.recordIn tree code).fallback.asText?) }

lemma takeAll_cleared (store : Store) (tree : FileTree) :
    store.cleared.takeAll store.locales.codes (store.recordIn tree) = store.loadedFrom tree := by
  have hcollect : ∀ {α : Type} (f : String → α), Entries.insertAll []
      (store.locales.codes.map fun code => (code, f code)) =
        store.locales.codes.map fun code => (code, f code) := by
    intro α f
    refine Entries.ofPairs_of_nodup ?_
    rw [Entries.keys_map]
    exact store.locales.nodup
  simp only [takeAll, cleared, hcollect]
  rfl

/-- The keys that some record of a store translates by a plural table. -/
def tableKeys (store : Store) : List String := store.records.flatMap fun e => e.2.pluralKeys

/-- What a load reports for a locale. -/
def entryOf (store : Store) (tree : FileTree) (code : String) : LoadEntry where
  locale := code
  origin := store.originOf tree code
  path := store.files.path code
  pluralKeys := (store.recordIn tree code).pluralKeys.length

end Store

namespace Workspace

open Store

variable {w : Workspace} {folder : Place} {code : String} {codes : List String}

lemma outcome_loadOne_of_ok {after : FileTree} {record : Record} {origin : Origin}
    (h : Job.outcome (w.store.loadLocale code) w.tree = (after, .ok (record, origin))) :
    Job.outcome (loadOne code) w = ({ w with tree := after, store := w.store.take code record },
      .ok { locale := code, origin := origin, path := w.store.files.path code,
            pluralKeys := record.pluralKeys.length }) := by
  have hfiles : Job.outcome (onFiles (w.store.loadLocale code)) w = _ := Job.outcome_within h
  unfold loadOne
  simp only [Job.bind_eq, Job.outcome_bind_get]
  rw [Job.outcome_bind_ok hfiles]
  simp only [changeStore, Job.outcome_bind_modify, Job.pure_eq, Job.outcome_ok]

lemma outcome_loadOne_of_error {after : FileTree} {e : Error}
    (h : Job.outcome (w.store.loadLocale code) w.tree = (after, .error e)) :
    Job.outcome (loadOne code) w = ({ w with tree := after }, .error e) := by
  have hfiles : Job.outcome (onFiles (w.store.loadLocale code)) w = _ := Job.outcome_within h
  unfold loadOne
  simp only [Job.bind_eq, Job.outcome_bind_get]
  exact Job.outcome_bind_error hfiles

section

variable (hfolder : w.tree.IsFolder w.store.files.directory folder)

include hfolder

lemma outcome_loadOne (hcode : Code.isValid code = true)
    (h : CanLoad w.store w.tree folder code) : ∃ after,
    Job.outcome (loadOne code) w =
      ({ w with tree := after, store := w.store.take code (w.store.recordIn w.tree code) },
        .ok (w.store.entryOf w.tree code)) ∧
      AddsFiles w.store folder [code] w.tree after := by
  obtain ⟨after, hload, hadds⟩ := outcome_loadLocale hfolder hcode h.recordOf h.target
  exact ⟨after, outcome_loadOne_of_ok hload, hadds⟩

omit hfolder in
lemma outcome_loadOne_error {e : Error} (h : w.store.recordOf w.tree code = .error e) :
    Job.outcome (loadOne code) w = (w, .error e) :=
  outcome_loadOne_of_error (outcome_loadLocale_error h)

lemma outcome_loadOne_directory (hcode : Code.isValid code = true)
    (hadd : w.store.addMissing = true) {m : ℕ}
    (htarget : w.tree.at? (placeIn folder code) = some (.directory m)) :
    ∃ after e, Job.outcome (loadOne code) w = (after, .error e) := by
  obtain ⟨e, hload⟩ := loadLocale_directory hfolder hcode hadd htarget
  exact ⟨_, e, outcome_loadOne_of_error hload⟩

/-- The locales are loaded one after the other, each as from the tree at the beginning. -/
lemma outcome_forEach_loadOne (hnodup : codes.Nodup)
    (hvalid : ∀ code ∈ codes, Code.isValid code = true)
    (h : ∀ code ∈ codes, CanLoad w.store w.tree folder code) : ∃ after,
    Job.outcome (Job.forEach codes loadOne) w =
      ({ w with tree := after, store := w.store.takeAll codes (w.store.recordIn w.tree) },
        .ok (codes.map (w.store.entryOf w.tree))) ∧
      AddsFiles w.store folder codes w.tree after := by
  induction codes generalizing w with
  | nil => exact ⟨w.tree, rfl, .refl fun _ _ hc => absurd hc List.not_mem_nil⟩
  | cons code codes ih =>
    obtain ⟨hnew, hrest⟩ := List.nodup_cons.mp hnodup
    obtain ⟨hcode, hcodes⟩ := List.forall_mem_cons.mp hvalid
    obtain ⟨hfirst, hothers⟩ := List.forall_mem_cons.mp h
    obtain ⟨middle, hone, hadds⟩ := outcome_loadOne hfolder hcode hfirst
    have hmiddle := hfolder.of_keepsDirectories hadds.keepsDirectories
    -- what the others find is not changed by the first
    have hsame : ∀ c ∈ codes, middle.at? (placeIn folder c) = w.tree.at? (placeIn folder c) := by
      intro c hc
      exact hadds.at?_of_notMem fun hmem => hnew (List.mem_singleton.mp hmem ▸ hc)
    have hcongr := fun c hc => canLoad_congr hfolder (hcodes c hc) hmiddle (hsame c hc)
    have horigin := fun c hc => (recordOf_congr hfolder (hcodes c hc) hmiddle (hsame c hc)).2
    obtain ⟨after, hall, hmore⟩ := ih
      (w := { w with tree := middle, store := w.store.take code (w.store.recordIn w.tree code) })
      hmiddle hrest hcodes fun c hc => canLoad_take.mpr ((hcongr c hc).2.mpr (hothers c hc))
    have htaken : (w.store.take code (w.store.recordIn w.tree code)).takeAll codes
        (w.store.recordIn middle) = w.store.takeAll (code :: codes) (w.store.recordIn w.tree) := by
      have hrecords : ∀ c ∈ codes, w.store.recordIn middle c = w.store.recordIn w.tree c :=
        fun c hc => (hcongr c hc).1
      simp only [takeAll, List.map_congr_left fun c hc => congrArg (Prod.mk c) (hrecords c hc),
        List.map_congr_left fun c hc =>
          congrArg (fun r : Record => (c, r.fallback.asText?)) (hrecords c hc)]
      rfl
    have hentries : codes.map (w.store.entryOf middle) = codes.map (w.store.entryOf w.tree) := by
      refine List.map_congr_left fun c hc => ?_
      rw [entryOf, entryOf, horigin c hc, (hcongr c hc).1]
    refine ⟨after, ?_, hadds.cons hnew hmore.of_take⟩
    rw [Job.outcome_forEach_cons hone hall, List.map_cons, ← hentries, ← htaken]
    rfl

end

/-! ## Cycles and plural keys -/

lemma outcome_checkCycles_nil (h : w.store.fallbacks.cycles = []) :
    Job.outcome checkCycles w = (w, .ok ()) := by
  unfold checkCycles
  simp only [Job.bind_eq, Job.outcome_bind_get, h, Job.pure_eq, Job.outcome_ok]

lemma outcome_checkCycles_cons {cycle : List String} {others : List (List String)}
    (h : w.store.fallbacks.cycles = cycle :: others) : Job.outcome checkCycles w =
      (w, .error (.fault (.fallbackCycle (w.store.files.path (cycle.headD "")) cycle))) := by
  unfold checkCycles
  simp only [Job.bind_eq, Job.outcome_bind_get, h, Job.outcome_fail]

lemma outcome_forEach_notePluralKey (noted : List (String × String))
    (hopen : w.ledger.closed = false) :
    Job.outcome (Job.forEach noted fun (locale, key) => notePluralKey locale key) w =
      ({ w with ledger := w.ledger.withPlurals (noted.map Prod.snd) }, .ok (noted.map fun _ => ())) := by
  induction noted generalizing w with
  | nil => rfl
  | cons e noted ih =>
    obtain ⟨locale, key⟩ := e
    have hone : Job.outcome (notePluralKey locale key) w =
        ({ w with ledger := w.ledger.withPlurals [key] }, .ok ()) := by
      unfold notePluralKey
      simp only [Job.bind_eq, Job.outcome_bind_record]
      exact Job.outcome_within (KeyLedger.outcome_notePlural hopen key)
    exact Job.outcome_forEach_cons hone (ih (w := { w with ledger := w.ledger.withPlurals [key] }) hopen)

lemma outcome_notePluralKeys (hopen : w.ledger.closed = false) : Job.outcome notePluralKeys w =
    ({ w with ledger := w.ledger.withPlurals w.store.tableKeys }, .ok ()) := by
  have hkeys : (w.store.records.flatMap fun e =>
      e.2.pluralKeys.map fun key => (e.2.locale.display, key)).map Prod.snd = w.store.tableKeys := by
    simp [Store.tableKeys, List.map_flatMap, Function.comp_def]
  unfold notePluralKeys
  simp only [Job.bind_eq, Job.outcome_bind_get]
  rw [Job.outcome_bind_ok (outcome_forEach_notePluralKey _ hopen), ← hkeys]
  rfl

/-! ## The whole load -/

/-- What a load does when the records are in the store. -/
def conclude (entries : List LoadEntry) : Job Workspace LoadReport := do
  checkCycles
  notePluralKeys
  Job.record .debug ("Locales loaded: " ++ (LoadReport.mk entries).line)
  return ⟨entries⟩

lemma outcome_conclude_nil (entries : List LoadEntry) (hopen : w.ledger.closed = false)
    (h : w.store.fallbacks.cycles = []) : Job.outcome (conclude entries) w =
      ({ w with ledger := w.ledger.withPlurals w.store.tableKeys }, .ok ⟨entries⟩) := by
  unfold conclude
  simp only [Job.bind_eq]
  rw [Job.outcome_bind_ok (outcome_checkCycles_nil h),
    Job.outcome_bind_ok (outcome_notePluralKeys hopen), Job.outcome_bind_record]
  rfl

lemma outcome_conclude_cons (entries : List LoadEntry) {cycle : List String}
    {others : List (List String)} (h : w.store.fallbacks.cycles = cycle :: others) :
    Job.outcome (conclude entries) w =
      (w, .error (.fault (.fallbackCycle (w.store.files.path (cycle.headD "")) cycle))) :=
  Job.outcome_bind_error (outcome_checkCycles_cons h)

/-- A workspace when the locales directory is made and nothing is loaded yet. -/
def begun (w : Workspace) (made : FileTree) : Workspace :=
  { w with tree := made, store := w.store.cleared }

variable {made : FileTree}

lemma outcome_load_eq (hmakes : w.tree.makeDirectories w.store.files.directory = .ok made) :
    Job.outcome load w =
      Job.outcome (Job.bind (Job.forEach w.store.locales.codes loadOne) conclude) (w.begun made) := by
  have hdirectory : Job.outcome (onFiles w.store.files.makeDirectory)
      { w with store := w.store.cleared } = (w.begun made, .ok ()) := by
    refine Job.outcome_within (s := made) ?_
    simp only [Job.outcome, makeDirectory, hmakes]
  exact Job.outcome_bind_ok hdirectory

lemma outcome_load_of_makeDirectories_error {e : FileError}
    (hmakes : w.tree.makeDirectories w.store.files.directory = .error e) :
    Job.outcome load w = ({ w with store := w.store.cleared }, .error (.file e)) := by
  have hdirectory : Job.outcome (onFiles w.store.files.makeDirectory)
      { w with store := w.store.cleared } = ({ w with store := w.store.cleared }, .error (.file e)) := by
    refine Job.outcome_within (s := w.tree) ?_
    simp only [Job.outcome, makeDirectory, hmakes]
  exact Job.outcome_bind_error hdirectory

variable (hmakes : w.tree.makeDirectories w.store.files.directory = .ok made)
  (hfolder : made.IsFolder w.store.files.directory folder)

include hmakes hfolder

/-- If all locales can be loaded, only a cycle keeps a load from going on. -/
lemma outcome_load_of_canLoad
    (h : ∀ code ∈ w.store.locales.codes, CanLoad w.store made folder code) : ∃ after,
    AddsFiles w.store folder w.store.locales.codes made after ∧
    Job.outcome load w = Job.outcome (conclude (w.store.locales.codes.map (w.store.entryOf made)))
      { w with tree := after, store := w.store.loadedFrom made } := by
  obtain ⟨after, hall, hadds⟩ := outcome_forEach_loadOne (w := w.begun made) hfolder
    w.store.locales.nodup w.store.locales.valid fun code hcode =>
      ⟨(h code hcode).recordOf, (h code hcode).target⟩
  refine ⟨after, ⟨hadds.kept, hadds.added⟩, ?_⟩
  rw [outcome_load_eq hmakes, Job.outcome_bind_ok hall, ← takeAll_cleared]
  rfl

/-- A load reaches the first locale that cannot be loaded, and what happens there is its outcome. -/
lemma outcome_load_of_first {before rest : List String}
    (hcodes : w.store.locales.codes = before ++ code :: rest)
    (h : ∀ c ∈ before, CanLoad w.store made folder c) : ∃ middle : Workspace,
    AddsFiles w.store folder before made middle.tree ∧ middle.ledger = w.ledger ∧
    middle.store = w.store.cleared.takeAll before (w.store.recordIn made) ∧
    middle.tree.IsFolder w.store.files.directory folder ∧
    middle.tree.at? (placeIn folder code) = made.at? (placeIn folder code) ∧
    ∀ after e, Job.outcome (loadOne code) middle = (after, .error e) →
      Job.outcome load w = (after, .error e) := by
  have hnodup := w.store.locales.nodup
  have hvalid := w.store.locales.valid
  rw [hcodes] at hnodup hvalid
  obtain ⟨hbefore, -, hapart⟩ := List.nodup_append.mp hnodup
  obtain ⟨after, hall, hadds⟩ := outcome_forEach_loadOne (w := w.begun made) hfolder hbefore
    (fun c hc => hvalid c (List.mem_append_left _ hc)) fun c hc => ⟨(h c hc).recordOf, (h c hc).target⟩
  have hadds' : AddsFiles w.store folder before made after := ⟨hadds.kept, hadds.added⟩
  refine ⟨{ w with tree := after, store := w.store.cleared.takeAll before (w.store.recordIn made) },
    hadds', rfl, rfl, hfolder.of_keepsDirectories hadds'.keepsDirectories,
    hadds'.at?_of_notMem fun hmem => hapart code hmem code List.mem_cons_self rfl,
    fun final e hfails => ?_⟩
  rw [outcome_load_eq hmakes, hcodes]
  exact Job.outcome_bind_error (Job.outcome_forEach_error hall hfails)

/-- A load fails at the first locale whose file is refused. Nothing is noted in the ledger. -/
lemma outcome_load_of_recordOf_error {before rest : List String} {e : Error}
    (hcodes : w.store.locales.codes = before ++ code :: rest)
    (h : ∀ c ∈ before, CanLoad w.store made folder c) (he : w.store.recordOf made code = .error e) :
    ∃ after : Workspace, Job.outcome load w = (after, .error e) ∧ after.ledger = w.ledger ∧
      AddsFiles w.store folder before made after.tree := by
  have hcode : Code.isValid code = true := w.store.locales.valid code (by simp [hcodes])
  obtain ⟨middle, hadds, hledger, hstore, hmiddle, hsame, hload⟩ :=
    outcome_load_of_first hmakes hfolder hcodes h
  refine ⟨middle, hload middle e (outcome_loadOne_error ?_), hledger, hadds⟩
  rw [hstore, ← he]
  exact (recordOf_congr hfolder hcode hmiddle hsame).1

/-- A load that returns has found every locale in order. -/
lemma canLoad_of_load {report : LoadReport} (h : (load w).result = .ok report) :
    ∀ code ∈ w.store.locales.codes, CanLoad w.store made folder code := by
  rcases forall_or_first (CanLoad w.store made folder) w.store.locales.codes with
    hall | ⟨before, code, rest, hcodes, hbefore, hnot⟩
  · exact hall
  · have hcode : Code.isValid code = true := w.store.locales.valid code (by simp [hcodes])
    obtain ⟨after, e, hfails⟩ : ∃ after e, Job.outcome load w = (after, .error e) := by
      rcases canLoad_or w.store made folder code with
        hcan | ⟨e, he⟩ | ⟨hadd, m, hm⟩
      · exact absurd hcan hnot
      · obtain ⟨after, hload, -⟩ := outcome_load_of_recordOf_error hmakes hfolder hcodes hbefore he
        exact ⟨after, e, hload⟩
      · obtain ⟨middle, -, -, hstore, hmiddle, hsame, hload⟩ :=
          outcome_load_of_first hmakes hfolder hcodes hbefore
        obtain ⟨after, e, hfails⟩ := outcome_loadOne_directory (w := middle) (by rwa [hstore]) hcode
          (by rwa [hstore]) (hsame.trans hm)
        exact ⟨after, e, hload after e hfails⟩
    exact absurd (h.symm.trans (Prod.mk.inj hfails).2) (by simp)

end Workspace

end Locale

end LocaleBundle
