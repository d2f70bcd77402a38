import LocaleBundle.Proofs.Build.Tables
import LocaleBundle.Proofs.Locale.Alike

/-!
# Loading again

A load begins with an empty store, so what it gives, and what it leaves in the files and the store, is
what a first load of the same files does, whatever was loaded before. The ledger is not emptied: a
load adds its plural keys to those of the loads before it.
-/

namespace LocaleBundle

namespace KeyLedger

/-- Whether two ledgers are open. -/
def BothOpen (ledger other : KeyLedger) : Prop := ledger.closed = false ∧ other.closed = false

lemma notesAlike_bothOpen : NotesAlike BothOpen := by
  intro key ledger other hopen
  obtain ⟨hstate, hresult⟩ := Prod.mk.inj (outcome_notePlural hopen.1 key)
  obtain ⟨hstate', hresult'⟩ := Prod.mk.inj (outcome_notePlural hopen.2 key)
  rw [hstate, hstate', hresult, hresult']
  exact ⟨hopen, rfl⟩

end KeyLedger

namespace Locale.Workspace

open Store

/-- The workspace in which the same locales are loaded for the first time, from some files. -/
def anew (w : Workspace) (tree : FileTree) : Workspace := ⟨tree, w.store.cleared, {}⟩

/-- A workspace whose files were changed. -/
def edited (w : Workspace) (tree : FileTree) : Workspace := { w with tree := tree }

/-- A workspace after some loads, each from the files as they were then, whether it returned or
failed. -/
def afterLoads (w : Workspace) (trees : List FileTree) : Workspace :=
  trees.foldl (fun v tree => (load (v.edited tree)).state) w

variable {w : Workspace}

/-! ## What a load leaves as it is -/

/-- A first load depends on the setup of the store, and not on what is in it. -/
lemma anew_congr {v : Workspace} (h : v.store.cleared = w.store.cleared) {tree : FileTree} :
    v.anew tree = w.anew tree := by
  rw [anew, h]
  rfl

/-- A load leaves the setup of the store, also when it fails. -/
lemma cleared_load (w : Workspace) : (load w).state.store.cleared = w.store.cleared := by
  have hstays : StaysInLoading fun v => v.store.cleared = w.store.cleared :=
    ⟨fun _ _ hv => hv, fun _ _ _ _ hv => hv⟩
  exact state_load hstays (fun _ _ hv => hv) rfl

/-- A load that fails has noted nothing. -/
lemma ledger_load_error (hopen : w.ledger.closed = false) {e : Error}
    (h : (load w).result = .error e) : (load w).state.ledger = w.ledger := by
  cases hmakes : w.tree.makeDirectories w.store.files.directory with
  | error e' => rw [(Prod.mk.inj (outcome_load_of_makeDirectories_error hmakes)).1]
  | ok made =>
    have hload := outcome_load_eq hmakes
    have hstays : StaysInLoading fun v => v.ledger = w.ledger :=
      ⟨fun _ _ hv => hv, fun _ _ _ _ hv => hv⟩
    have hkeeps : Job.Keeps (fun v => v.ledger = w.ledger) (fun entries => ∀ entry ∈ entries, True)
        (Job.forEach w.store.locales.codes loadOne) :=
      Job.keeps_forEach fun code _ => keeps_loadOne hstays code
    obtain ⟨hledger, -⟩ := hkeeps (w.begun made) rfl
    generalize hall : Job.outcome (Job.forEach w.store.locales.codes loadOne) (w.begun made) = all
      at hload
    obtain ⟨middle, result⟩ := all
    have hmiddle : middle.ledger = w.ledger := (Prod.mk.inj hall).1 ▸ hledger
    cases result with
    | error e' =>
      rw [Job.outcome_bind_error hall] at hload
      rw [(Prod.mk.inj hload).1, hmiddle]
    | ok entries =>
      rw [Job.outcome_bind_ok hall] at hload
      -- with no cycle the load would return, and with one it notes nothing
      cases hcycles : middle.store.fallbacks.cycles with
      | nil =>
        rw [outcome_conclude_nil entries (hmiddle ▸ hopen) hcycles] at hload
        exact absurd (h.symm.trans (Prod.mk.inj hload).2) (by simp)
      | cons cycle others =>
        rw [outcome_conclude_cons entries hcycles] at hload
        rw [(Prod.mk.inj hload).1, hmiddle]

/-! ## Loads one after the other -/

/-- A load goes as a first load of the same files does. -/
lemma alike_anew (hopen : w.ledger.closed = false) (tree : FileTree) :
    AlikeUpTo KeyLedger.BothOpen (load (w.edited tree)).state (load (w.anew tree)).state ∧
      (load (w.edited tree)).result = (load (w.anew tree)).result := by
  -- the first step of a load empties the store
  have hcleared : load (w.edited tree) = load ⟨tree, w.store.cleared, w.ledger⟩ := rfl
  rw [hcleared]
  exact agree_load KeyLedger.notesAlike_bothOpen _ _ ⟨rfl, rfl, hopen, rfl⟩

/-- What a load notes is added to what was noted before. -/
lemma mem_pluralKeys_load (hopen : w.ledger.closed = false) (tree : FileTree) (key : String) :
    key ∈ (load (w.edited tree)).state.ledger.pluralKeys ↔ key ∈ w.ledger.pluralKeys ∨
      key ∈ (load (w.anew tree)).state.ledger.pluralKeys := by
  obtain ⟨halike, hresult⟩ := alike_anew hopen tree
  have hedited : (w.edited tree).ledger.closed = false := hopen
  have hanew : (w.anew tree).ledger.closed = false := rfl
  cases hload : (load (w.edited tree)).result with
  | error e =>
    rw [ledger_load_error hedited hload, ledger_load_error hanew (hresult.symm.trans hload)]
    exact (or_iff_left List.not_mem_nil).symm
  | ok report =>
    rw [ledger_load hedited hload, ledger_load hanew (hresult.symm.trans hload), ← halike.store]
    simp [KeyLedger.withPlurals, TextSet.mem_adjoinAll, anew, edited]

/-- A first load notes the tables that it has loaded. -/
lemma mem_pluralKeys_anew (tree : FileTree) (key : String) :
    key ∈ (load (w.anew tree)).state.ledger.pluralKeys ↔
      (∃ report, (load (w.anew tree)).result = .ok report) ∧
        ∃ e ∈ (load (w.anew tree)).state.store.records, ∃ table,
          (key, Value.map table) ∈ e.2.translations := by
  have hfresh : (w.anew tree).ledger.closed = false := rfl
  rw [← mem_tableKeys_iff]
  cases hload : (load (w.anew tree)).result with
  | error e =>
    rw [ledger_load_error hfresh hload]
    simp [anew]
  | ok report =>
    rw [ledger_load hfresh hload]
    simp [KeyLedger.withPlurals, TextSet.mem_adjoinAll, anew]

/-- After some loads the ledger has what it had and what each of the loads has noted. -/
lemma mem_pluralKeys_afterLoads (hopen : w.ledger.closed = false) (trees : List FileTree) :
    (w.afterLoads trees).ledger.closed = false ∧
      (w.afterLoads trees).store.cleared = w.store.cleared ∧
      ∀ key, key ∈ (w.afterLoads trees).ledger.pluralKeys ↔ key ∈ w.ledger.pluralKeys ∨
        ∃ tree ∈ trees, key ∈ (load (w.anew tree)).state.ledger.pluralKeys := by
  induction trees generalizing w with
  | nil => exact ⟨hopen, rfl, fun key => by simp [afterLoads]⟩
  | cons tree trees ih =>
    have hstore : (load (w.edited tree)).state.store.cleared = w.store.cleared := cleared_load _
    obtain ⟨hafter, hcleared, hkeys⟩ := ih (alike_anew hopen tree).1.ledger.1
    refine ⟨hafter, hcleared.trans hstore, fun key => (hkeys key).trans ?_⟩
    rw [mem_pluralKeys_load hopen, List.exists_mem_cons_iff, or_assoc]
    simp only [anew_congr hstore]

/-- What of a load comes from the files alone, and what from the loads before it. However often the
locales were loaded before, from whatever files and whether the loads returned or failed: a further
load gives the same result or error, and leaves the same files, records and fallbacks, as a first load
of the same files with a fresh ledger. Its ledger has the plural keys that such a first load notes,
which are those of the tables in the files if it returns and none if it fails; and it still has those
of all loads before. -/
theorem load_afterLoads (hopen : w.ledger.closed = false) (trees : List FileTree)
    (tree : FileTree) :
    let again := load ((w.afterLoads trees).edited tree)
    let first := load (w.anew tree)
    again.result = first.result ∧ again.state.tree = first.state.tree ∧
    again.state.store = first.state.store ∧
    (∀ key, key ∈ first.state.ledger.pluralKeys ↔ (∃ report, first.result = .ok report) ∧
      ∃ e ∈ first.state.store.records, ∃ table, (key, Value.map table) ∈ e.2.translations) ∧
    ∀ key, key ∈ again.state.ledger.pluralKeys ↔ key ∈ first.state.ledger.pluralKeys ∨
      key ∈ w.ledger.pluralKeys ∨
        ∃ earlier ∈ trees, key ∈ (load (w.anew earlier)).state.ledger.pluralKeys := by
  intro again first
  obtain ⟨hafter, hcleared, hkeys⟩ := mem_pluralKeys_afterLoads hopen trees
  obtain ⟨halike, hresult⟩ := alike_anew hafter tree
  have hadds := mem_pluralKeys_load hafter tree
  rw [anew_congr hcleared] at halike hresult hadds
  refine ⟨hresult, halike.tree, halike.store, mem_pluralKeys_anew tree, fun key => ?_⟩
  rw [hadds key, or_comm]
  exact or_congr_right (hkeys key)

/-- The workspace of a build of English with a table for the number of items. -/
def items : Workspace := History.counting.site.loading

/-- The load of the table is a first one. -/
lemma anew_items : items.anew items.tree = items := rfl

/-- Without a file, English gets a new one. -/
lemma result_anew_items :
    (load (items.anew {})).result = .ok ⟨[⟨"en", .newFile, "i18n/en.json", 0⟩]⟩ := rfl

lemma mem_pluralKeys_items : ∃ tree ∈ [items.tree],
    "$1 items" ∈ (load (items.anew tree)).state.ledger.pluralKeys := by
  refine ⟨items.tree, List.mem_singleton_self _, ?_⟩
  obtain ⟨report, hreport, hrecords⟩ := History.load_counting
  rw [mem_pluralKeys_anew, anew_items, items, hreport, hrecords]
  exact ⟨⟨report, rfl⟩, ("en", History.counted), List.mem_singleton_self _, _, List.mem_cons_self⟩

theorem load_afterLoads_items : items.ledger.closed = false ∧
    (load ((items.afterLoads [items.tree]).edited {})).result =
      .ok ⟨[⟨"en", .newFile, "i18n/en.json", 0⟩]⟩ ∧
    "$1 items" ∈ (load ((items.afterLoads [items.tree]).edited {})).state.ledger.pluralKeys := by
  obtain ⟨hresult, -, -, -, hkeys⟩ := load_afterLoads (w := items) rfl [items.tree] {}
  exact ⟨rfl, hresult.trans result_anew_items, (hkeys "$1 items").mpr
    (Or.inr (Or.inr mem_pluralKeys_items))⟩

/-- A table is loaded, and the file with it is taken away. After a further load its key is noted still,
where a first load notes none. -/
theorem mem_pluralKeys_reload_items :
    "$1 items" ∈ (load ((items.afterLoads [items.tree]).edited {})).state.ledger.pluralKeys ∧
    (load (items.anew {})).result = .ok ⟨[⟨"en", .newFile, "i18n/en.json", 0⟩]⟩ ∧
    "$1 items" ∉ (load (items.anew {})).state.ledger.pluralKeys := by
  obtain ⟨hopen, -, hkeys⟩ := mem_pluralKeys_afterLoads (w := items) rfl [items.tree]
  have hnone : (load (items.anew {})).state.ledger.pluralKeys = [] := rfl
  refine ⟨(mem_pluralKeys_load hopen _ _).mpr (Or.inl ((hkeys _).mpr (Or.inr mem_pluralKeys_items))),
    result_anew_items, ?_⟩
  rw [hnone]
  exact List.not_mem_nil

end Locale.Workspace

end LocaleBundle
