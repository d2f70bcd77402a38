import LocaleBundle.Proofs.Build.Alike
import LocaleBundle.Proofs.Build.Gate

/-!
# The order of the modules

A scan hands the modules of a build to the transformer in some order, and may hand over a module
twice. If what the transformer gives for a module, and which keys it notes, depend on the module alone,
then neither shows: the ledger ends with the same keys, in another order at most, and nothing that
follows looks at that order.
-/

namespace LocaleBundle

open Locale

variable {τ : Type}

namespace KeyLedger

/-- Whether two ledgers have the same keys, in whatever order they were noted. -/
structure SameSets (ledger other : KeyLedger) : Prop where
  keys : ∀ key, key ∈ ledger.keys ↔ key ∈ other.keys
  pluralKeys : ledger.pluralKeys = other.pluralKeys
  closed : ledger.closed = other.closed

lemma notesAlike_sameSets : NotesAlike SameSets := by
  intro key ledger other h
  cases hclosed : ledger.closed with
  | true =>
    obtain ⟨hstate, hresult⟩ := Prod.mk.inj (outcome_notePlural_closed hclosed key)
    obtain ⟨hstate', hresult'⟩ := Prod.mk.inj
      (outcome_notePlural_closed (h.closed.symm.trans hclosed) key)
    rw [hstate, hstate', hresult, hresult']
    exact ⟨h, rfl⟩
  | false =>
    obtain ⟨hstate, hresult⟩ := Prod.mk.inj (outcome_notePlural hclosed key)
    obtain ⟨hstate', hresult'⟩ := Prod.mk.inj
      (outcome_notePlural (h.closed.symm.trans hclosed) key)
    rw [hstate, hstate', hresult, hresult']
    refine ⟨⟨h.keys, ?_, h.closed⟩, rfl⟩
    show TextSet.adjoinAll ledger.pluralKeys [key] = TextSet.adjoinAll other.pluralKeys [key]
    rw [h.pluralKeys]

lemma isKept_sameSets : IsKept SameSets where
  fresh := ⟨fun _ => Iff.rfl, rfl, rfl⟩
  keys _ _ h := h.keys
  pluralKeys _ _ h := h.pluralKeys
  close _ _ h := ⟨h.keys, h.pluralKeys, rfl⟩
  notesAlike := notesAlike_sameSets

/-- A ledger that takes keys is open, and stays as it is otherwise. -/
lemma mem_keys_noteAll {ledger after : KeyLedger} {keys : List String}
    (h : ledger.noteAll keys = .ok after) (key : String) :
    key ∈ after.keys ↔ key ∈ ledger.keys ∨ key ∈ keys := by
  rw [noteAll_ok h]
  exact TextSet.mem_adjoinAll

end KeyLedger

/-- Whether a transformer treats each module by itself. What it gives depends on the module, and on
whether the ledger is open; it notes the module's keys in an open ledger, in any order, and changes
nothing else. -/
structure Transformer.IsModular (transformer : Transformer τ) (keys : String → String → List String) :
    Prop where
  result : ∀ code moduleName (desk other : Desk τ), desk.ledger.closed = other.ledger.closed →
    (transformer code moduleName desk).result = (transformer code moduleName other).result
  notes : ∀ code moduleName (desk : Desk τ), desk.ledger.closed = false →
    ∃ noted, (∀ key, key ∈ noted ↔ key ∈ keys code moduleName) ∧
      desk.ledger.noteAll noted = .ok (transformer code moduleName desk).state.ledger
  closed : ∀ code moduleName (desk : Desk τ), desk.ledger.closed = true →
    (transformer code moduleName desk).state.ledger = desk.ledger

namespace Transformer.IsModular

variable {transformer : Transformer τ} {keys : String → String → List String}

/-- Such a transformer does not see the order of the keys. -/
lemma respects (h : transformer.IsModular keys) : transformer.Respects KeyLedger.SameSets := by
  intro code moduleName desk other hsame
  refine ⟨h.result code moduleName desk other hsame.closed, ?_⟩
  cases hclosed : desk.ledger.closed with
  | true =>
    rw [h.closed code moduleName desk hclosed,
      h.closed code moduleName other (hsame.closed.symm.trans hclosed)]
    exact hsame
  | false =>
    obtain ⟨noted, hnoted, hafter⟩ := h.notes code moduleName desk hclosed
    obtain ⟨noted', hnoted', hafter'⟩ :=
      h.notes code moduleName other (hsame.closed.symm.trans hclosed)
    refine ⟨fun key => ?_, ?_, ?_⟩
    · rw [KeyLedger.mem_keys_noteAll hafter, KeyLedger.mem_keys_noteAll hafter', hsame.keys,
        hnoted, hnoted']
    · rw [KeyLedger.noteAll_ok hafter, KeyLedger.noteAll_ok hafter']
      exact hsame.pluralKeys
    · rw [KeyLedger.noteAll_ok hafter, KeyLedger.noteAll_ok hafter']
      exact hsame.closed

end Transformer.IsModular

namespace Site

/-- Whether a build hands a module to its transformer while it scans. -/
def Hands (site : Site τ) (m : String × String) : Prop :=
  site.build.inlines = true ∧ isCodeModule m.2.toList = true

/-- What a site has become after some modules: the keys of those that were handed over are in the
ledger, and nothing else has changed that a build looks at. -/
structure HasScanned (keys : String → String → List String) (modules : List (String × String))
    (site after : Site τ) : Prop where
  tree : after.tree = site.tree
  build : after.build = { site.build with ledger := after.build.ledger }
  pluralKeys : after.build.ledger.pluralKeys = site.build.ledger.pluralKeys
  isOpen : after.build.ledger.closed = false
  noted : ∀ key, key ∈ after.build.ledger.keys ↔ key ∈ site.build.ledger.keys ∨
    ∃ m ∈ modules, site.Hands m ∧ key ∈ keys m.1 m.2

variable {t : Transformer τ} {keys : String → String → List String}
  {modules : List (String × String)} {site after : Site τ}

lemma hasScanned_nil (hopen : site.build.ledger.closed = false) : HasScanned keys [] site site :=
  ⟨rfl, rfl, rfl, hopen, fun key => by simp⟩

namespace HasScanned

lemma inlines (h : HasScanned keys modules site after) :
    after.build.inlines = site.build.inlines := by
  rw [h.build]
  rfl

lemma phase (h : HasScanned keys modules site after) : after.build.phase = site.build.phase := by
  rw [h.build]

/-- A module that is not handed over leaves the site as it is. -/
lemma skip (h : HasScanned keys modules site after) {m : String × String} (hskips : ¬ site.Hands m) :
    HasScanned keys (modules ++ [m]) site after := by
  refine ⟨h.tree, h.build, h.pluralKeys, h.isOpen, fun key => ?_⟩
  rw [h.noted]
  simp [hskips, or_and_right, exists_or]

/-- A transformer that notes the keys of a module adds them. -/
lemma putDesk (h : HasScanned keys modules site after) {m : String × String} (hhands : site.Hands m)
    {noted : List String} (hnoted : ∀ key, key ∈ noted ↔ key ∈ keys m.1 m.2) {desk : Desk τ}
    (hnote : after.build.ledger.noteAll noted = .ok desk.ledger) :
    HasScanned keys (modules ++ [m]) site (after.putDesk desk) := by
  have hledger := KeyLedger.noteAll_ok hnote
  refine ⟨h.tree, ?_, ?_, ?_, fun key => ?_⟩
  · exact congrArg (fun build : Build => { build with ledger := desk.ledger }) h.build
  · show desk.ledger.pluralKeys = site.build.ledger.pluralKeys
    rw [hledger]
    exact h.pluralKeys
  · show desk.ledger.closed = false
    rw [hledger]
    exact h.isOpen
  · show key ∈ desk.ledger.keys ↔ _
    rw [KeyLedger.mem_keys_noteAll hnote, hnoted, h.noted]
    simp [hhands, or_and_right, exists_or, or_assoc]

/-- One more module is answered as it was at the beginning, and its keys are added. -/
lemma transform (ht : t.IsModular keys) (hphase : site.build.phase = .scanning)
    (hopen : site.build.ledger.closed = false) (h : HasScanned keys modules site after)
    (m : String × String) :
    HasScanned keys (modules ++ [m]) site (Site.transform (some t) m.1 m.2 after).state ∧
      (Site.transform (some t) m.1 m.2 after).result =
        (Site.transform (some t) m.1 m.2 site).result := by
  by_cases hhands : site.Hands m
  · have hafter := outcome_transform t m.1 (h.inlines.trans hhands.1) hhands.2
    have hsite := outcome_transform t m.1 hhands.1 hhands.2
    rw [if_pos (h.phase.trans hphase)] at hafter
    rw [if_pos hphase] at hsite
    obtain ⟨hstate, hresult⟩ := Prod.mk.inj hafter
    obtain ⟨noted, hnoted, hnote⟩ := ht.notes m.1 m.2 after.desk h.isOpen
    rw [hstate, hresult, (Prod.mk.inj hsite).2]
    -- both ledgers are open, so the transformer gives the same at both desks
    exact ⟨h.putDesk hhands hnoted hnote,
      ht.result m.1 m.2 after.desk site.desk (h.isOpen.trans hopen.symm)⟩
  · have hskips : site.build.inlines = false ∨ isCodeModule m.2.toList = false := by
      simpa only [Hands, not_and_or, Bool.not_eq_true] using hhands
    have hskips' : after.build.inlines = false ∨ isCodeModule m.2.toList = false :=
      h.inlines.symm ▸ hskips
    have hsite : Job.outcome (Site.transform (some t) m.1 m.2) site = (site, .ok none) :=
      outcome_transform_none m.1 (Or.inr hskips)
    have hafter : Job.outcome (Site.transform (some t) m.1 m.2) after = (after, .ok none) :=
      outcome_transform_none m.1 (Or.inr hskips')
    obtain ⟨hstate, hresult⟩ := Prod.mk.inj hafter
    rw [hstate, hresult, (Prod.mk.inj hsite).2]
    exact ⟨h.skip hhands, rfl⟩

/-- Sites that have become of the same site, after the same modules in any order, are alike. -/
lemma alikeUpTo {others : List (String × String)} {other : Site τ}
    (h : HasScanned keys modules site after) (h' : HasScanned keys others site other)
    (hmodules : ∀ m, m ∈ modules ↔ m ∈ others) : AlikeUpTo KeyLedger.SameSets after other := by
  refine ⟨h.tree.trans h'.tree.symm, ?_⟩
  rw [h.build, h'.build]
  refine ⟨rfl, rfl, rfl, rfl, rfl, fun key => ?_, ?_, h.isOpen.trans h'.isOpen.symm⟩
  · simp only [h.noted, h'.noted, hmodules]
  · exact h.pluralKeys.trans h'.pluralKeys.symm

end HasScanned

end Site

namespace History

/-- The events of a scan. -/
def scan (modules : List (String × String)) : List Event :=
  modules.map fun m => .transform m.1 m.2

section

variable [Plural.Cldr] {t : Transformer τ} {keys : String → String → List String} {h : History τ}
  {modules : List (String × String)} {site : Site τ}

/-- In a scan each module is answered as it would be at the beginning, and the files stay. -/
lemma run_scan (ht : t.IsModular keys) (hphase : site.build.phase = .scanning)
    (hopen : site.build.ledger.closed = false) (hscanned : Site.HasScanned keys modules site h.site)
    (more : List (String × String)) :
    Site.HasScanned keys (modules ++ more) site (h.run (some t) (scan more)).site ∧
      h.shows (some t) (scan more) = more.map fun m =>
        (.transformed (Site.transform (some t) m.1 m.2 site).result, site.tree) := by
  induction more generalizing modules h with
  | nil =>
    rw [List.append_nil]
    exact ⟨hscanned, rfl⟩
  | cons m more ih =>
    obtain ⟨hafter, hresult⟩ := hscanned.transform ht hphase hopen m
    obtain ⟨hrun, hshows⟩ := ih (h := h.step (some t) (.transform m.1 m.2)) hafter
    rw [List.append_cons]
    refine ⟨hrun, ?_⟩
    show (Answer.transformed _, _) :: shows _ _ (scan more) = _ :: _
    rw [hshows, hresult]
    exact congrArg (fun tree => (_, tree) :: _) hafter.tree

/-- After a start that has succeeded, a build does not see in which order the modules are scanned, or
how often. Each module is answered as if it were the first one, the scan changes no file, and whatever
follows gives the same and leaves the same files. -/
theorem shows_scan_of_sameModules (ht : t.IsModular keys) (hstarts : Starts h)
    (modules others : List (String × String)) (hmodules : ∀ m, m ∈ modules ↔ m ∈ others)
    (later : List Event) :
    let started := h.step (some t) .start
    let alone := fun m : String × String =>
      (Answer.transformed (Site.transform (some t) m.1 m.2 started.site).result, started.site.tree)
    started.shows (some t) (scan modules) = modules.map alone ∧
      started.shows (some t) (scan others) = others.map alone ∧
      (started.run (some t) (scan modules)).shows (some t) later =
        (started.run (some t) (scan others)).shows (some t) later := by
  intro started alone
  have hphase : started.site.build.phase = .scanning := (phase_step_start t h).mpr (Or.inl hstarts)
  have hopen := (readyToScan_start t hstarts hphase).2
  have hnone : Site.HasScanned keys [] started.site started.site := Site.hasScanned_nil hopen
  obtain ⟨hmine, hshows⟩ := run_scan ht hphase hopen hnone modules
  obtain ⟨hother, hshows'⟩ := run_scan ht hphase hopen hnone others
  refine ⟨hshows, hshows', shows_of_alikeUpTo KeyLedger.isKept_sameSets ?_ ?_ later⟩
  · intro transformer hsame
    obtain rfl := Option.some.inj hsame
    exact ht.respects
  · exact hmine.alikeUpTo hother (by simpa using hmodules)

end

lemma isModular_notesCode : notesCode.IsModular fun code _ => [code] where
  result code moduleName desk other hsame := by
    unfold notesCode KeyLedger.note KeyLedger.noteAll
    cases hclosed : other.ledger.closed with
    | true => simp [hsame, hclosed]
    | false => simp [hsame, hclosed]
  notes code moduleName desk hopen := by
    refine ⟨[code], fun _ => Iff.rfl, ?_⟩
    simp [notesCode, KeyLedger.note, KeyLedger.noteAll, hopen]
  closed code moduleName desk hclosed := by
    simp [notesCode, KeyLedger.note, KeyLedger.noteAll, hclosed]

theorem shows_scan_of_sameModules_greetings :
    let started := beginning.step (some notesCode) .start
    let modules := [("Hello", "a.js"), ("Bye", "b.js")]
    let others := [("Bye", "b.js"), ("Hello", "a.js"), ("Hello", "a.js")]
    (started.run (some notesCode) (scan modules)).site.build.ledger.keys = ["Hello", "Bye"] ∧
    (started.run (some notesCode) (scan others)).site.build.ledger.keys = ["Bye", "Hello"] ∧
    (started.run (some notesCode) (scan modules)).shows (some notesCode) [.finish, .bundle []] =
      (started.run (some notesCode) (scan others)).shows (some notesCode) [.finish, .bundle []] := by
  intro started modules others
  have hstarts : Starts beginning := ⟨⟨[⟨"en", .newFile, "i18n/en.json", 0⟩]⟩, rfl⟩
  have hmodules : ∀ m, m ∈ modules ↔ m ∈ others := by simp [modules, others, or_comm]
  exact ⟨rfl, rfl,
    (shows_scan_of_sameModules isModular_notesCode hstarts modules others hmodules _).2.2⟩

end History

end LocaleBundle
