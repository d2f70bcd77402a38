import LocaleBundle.Proofs.Build.Tables

/-!
# The gate before the transformer

A build hands modules to the transformer while it scans: from a start that has succeeded to the next
finish that does. In that time the ledger need not be open, since a bundle closes it, and the store
need not be there, since a start that fails takes it away. If neither happens, the gate is sound.
-/

namespace LocaleBundle.History

open Locale

section

variable [Plural.Cldr] {τ : Type} {t : Transformer τ} {h : History τ} {events : List Event}

/-- Whether a start succeeds at this point of a history. -/
def Starts (h : History τ) : Prop := ∃ report, (Site.start h.site).result = .ok report

/-- Whether a finish succeeds at this point of a history. -/
def Finishes (h : History τ) : Prop := ∃ report, (Site.finish h.site).result = .ok report

/-- Whether some start has succeeded, and no finish since. -/
inductive Scans (t : Transformer τ) (h : History τ) : List Event → Prop
  | start {events : List Event} (hstarts : Starts (h.run (some t) events)) :
    Scans t h (events ++ [.start])
  | more {events : List Event} {event : Event} (hscans : Scans t h events)
    (hfinish : event = .finish → ¬ Finishes (h.run (some t) events)) :
    Scans t h (events ++ [event])

/-- Whether the gate is sound at a point of a history: a module of code is handed to the transformer
only if the latest start has succeeded and the ledger is open, and it is refused otherwise. -/
def GateIsSound (t : Transformer τ) (h : History τ) : Prop :=
  ∀ code moduleName, isCodeModule moduleName.toList = true →
    (h.loaded? ≠ none ∧ h.site.build.ledger.closed = false) ∨
      Job.outcome (Site.transform (some t) code moduleName) h.site = (h.site, .error .notScanning)

/-- Whether a call keeps to the order of a build: no start or finish fails, and a bundle is not made
while the build scans. -/
def InOrder (h : History τ) : Event → Prop
  | .start => Starts h
  | .finish => Finishes h
  | .bundle _ => h.site.build.phase ≠ .scanning
  | _ => True

/-- Whether all calls keep to the order of a build. -/
def AllInOrder (t : Transformer τ) (h : History τ) : List Event → Prop
  | [] => True
  | event :: events => InOrder h event ∧ AllInOrder t (h.step (some t) event) events

/-! ## The phase -/

lemma phase_step_start (t : Transformer τ) (h : History τ) :
    (h.step (some t) .start).site.build.phase = .scanning ↔
      Starts h ∨ h.site.build.phase = .scanning := by
  unfold Starts
  cases hload : (Workspace.load h.site.loading).result with
  | error e =>
    obtain ⟨hstate, hresult⟩ := Prod.mk.inj (Site.outcome_start_error hload)
    simp [step, hstate, hresult, Site.afterLoad]
  | ok report =>
    obtain ⟨hstate, hresult⟩ := Prod.mk.inj (Site.outcome_start_ok hload)
    simp [step, hstate, hresult, Site.afterStart]

lemma phase_step_finish (t : Transformer τ) (hinlines : h.site.build.inlines = true) :
    (h.step (some t) .finish).site.build.phase = .scanning ↔
      h.site.build.phase = .scanning ∧ ¬ Finishes h := by
  unfold Finishes
  cases hstore : h.site.build.store? with
  | none =>
    obtain ⟨hstate, hresult⟩ := Prod.mk.inj (Site.outcome_of_not_started [] hinlines hstore).1
    simp [step, hstate, hresult]
  | some store =>
    cases haudit : (h.site.audit store).result with
    | error e =>
      obtain ⟨hstate, hresult⟩ := Prod.mk.inj (Site.outcome_finish_error hinlines hstore haudit)
      simp [step, hstate, hresult, Site.afterAudit]
    | ok report =>
      obtain ⟨hstate, hresult⟩ := Prod.mk.inj (Site.outcome_finish_ok hinlines hstore haudit)
      simp [step, hstate, hresult, Site.afterFinish]

/-- After one more event a build scans if the event was a start that succeeded, or if it was scanning
and the event was no finish that succeeded. -/
lemma phase_step_iff (t : Transformer τ) (hinlines : h.site.build.inlines = true) (event : Event) :
    (h.step (some t) event).site.build.phase = .scanning ↔
      (event = .start ∧ Starts h) ∨
        h.site.build.phase = .scanning ∧ (event = .finish → ¬ Finishes h) := by
  cases event with
  | start => simp [phase_step_start]
  | finish => simp [phase_step_finish t hinlines]
  | transform code moduleName => simp [stays_step]
  | bundle artifacts => simp [stays_step]
  | edit tree => simp [stays_step]

lemma scans_concat_iff {event : Event} : Scans t h (events ++ [event]) ↔
    (event = .start ∧ Starts (h.run (some t) events)) ∨
      Scans t h events ∧ (event = .finish → ¬ Finishes (h.run (some t) events)) := by
  constructor
  · intro hscans
    generalize hall : events ++ [event] = all at hscans
    cases hscans with
    | start hstarts =>
      obtain ⟨rfl, rfl⟩ := List.append_singleton_inj.mp hall
      exact Or.inl ⟨rfl, hstarts⟩
    | more hscans hfinish =>
      obtain ⟨rfl, rfl⟩ := List.append_singleton_inj.mp hall
      exact Or.inr ⟨hscans, hfinish⟩
  · rintro (⟨rfl, hstarts⟩ | ⟨hscans, hfinish⟩)
    · exact .start hstarts
    · exact .more hscans hfinish

/-- A build that was not scanning scans after some events if a start has succeeded among them, and no
finish since. -/
lemma phase_run_iff (t : Transformer τ) (hinlines : h.site.build.inlines = true)
    (hidle : h.site.build.phase ≠ .scanning) (events : List Event) :
    (h.run (some t) events).site.build.phase = .scanning ↔ Scans t h events := by
  induction events using List.reverseRecOn with
  | nil =>
    refine ⟨fun hphase => absurd hphase hidle, fun hscans => ?_⟩
    generalize hnone : ([] : List Event) = none at hscans
    cases hscans with
    | start => exact absurd hnone (by simp)
    | more => exact absurd hnone (by simp)
  | append_singleton events event ih =>
    have hinlines' : (h.run (some t) events).site.build.inlines = true :=
      (inlines_run ..).trans hinlines
    rw [run_concat, phase_step_iff t hinlines', scans_concat_iff, ih]

/-! ## Calls in order -/

/-- Whether a build that scans has the store of the latest start, and an open ledger. -/
def ReadyToScan (h : History τ) : Prop :=
  h.site.build.phase = .scanning → h.loaded? ≠ none ∧ h.site.build.ledger.closed = false

lemma readyToScan_start (t : Transformer τ) (hstarts : Starts h) :
    ReadyToScan (h.step (some t) .start) := by
  obtain ⟨report, hreport⟩ := hstarts
  cases hload : (Workspace.load h.site.loading).result with
  | error e =>
    have hfails := (Prod.mk.inj (Site.outcome_start_error hload)).2
    exact absurd (hreport.symm.trans hfails) (by simp)
  | ok loaded =>
    rw [step_start_ok hload]
    intro _
    refine ⟨by simp, ?_⟩
    show (Workspace.load h.site.loading).state.ledger.closed = false
    rw [Workspace.ledger_load rfl hload]
    rfl

lemma ReadyToScan.step (ht : t.OnlyNotes) (hinlines : h.site.build.inlines = true)
    (hready : ReadyToScan h) {event : Event} (horder : InOrder h event) :
    ReadyToScan (h.step (some t) event) := by
  cases event with
  | start => exact readyToScan_start t horder
  | finish =>
    intro hphase
    exact absurd horder ((phase_step_finish t hinlines).mp hphase).2
  | bundle artifacts =>
    intro hphase
    rw [(stays_step _ h (by simp) (by simp)).1] at hphase
    exact absurd hphase horder
  | edit tree => exact hready
  | transform code moduleName =>
    have hleads := leads_step (some t) h (.transform code moduleName)
    generalize h.step (some t) (.transform code moduleName) = after at hleads
    cases hleads with
    | skip hevent => exact hready
    | transform code moduleName hsame hphase =>
      obtain rfl := Option.some.inj hsame
      -- what the transformer notes leaves the ledger open
      intro _
      obtain ⟨hloaded, hopen⟩ := hready hphase
      exact ⟨hloaded, (ht code moduleName h.site.desk).keeps.1.trans hopen⟩

lemma readyToScan_run (ht : t.OnlyNotes) (hinlines : h.site.build.inlines = true)
    (hready : ReadyToScan h) (horder : AllInOrder t h events) :
    ReadyToScan (h.run (some t) events) := by
  induction events generalizing h with
  | nil => exact hready
  | cons event events ih =>
    obtain ⟨hfirst, hrest⟩ := horder
    exact ih ((inlines_step ..).trans hinlines) (hready.step ht hinlines hfirst) hrest

/-- What the gate guards, for a transformer that only notes keys. A module of code is handed to it if
some start has succeeded and no finish since, and refused otherwise, with nothing changed. As long
as no start or finish has failed and no bundle was made during a scan, the gate is sound. -/
theorem transform_gate (ht : t.OnlyNotes) (config : Config) (target : Target)
    (hinlines : target.inlines = true) (tree : FileTree) (notes : τ) (events : List Event)
    (code moduleName : String) (hmodule : isCodeModule moduleName.toList = true) :
    let h := (fresh config target tree notes).run (some t) events
    (Scans t (fresh config target tree notes) events →
      Job.outcome (Site.transform (some t) code moduleName) h.site =
        (h.site.putDesk (t code moduleName h.site.desk).state,
          (t code moduleName h.site.desk).result)) ∧
    (¬ Scans t (fresh config target tree notes) events →
      Job.outcome (Site.transform (some t) code moduleName) h.site =
        (h.site, .error .notScanning)) ∧
    (AllInOrder t (fresh config target tree notes) events → GateIsSound t h) := by
  intro h
  have hfresh : (fresh config target tree notes).site.build.inlines = true := hinlines
  have hbuild : h.site.build.inlines = true := by
    rw [Build.inlines, target_run]
    exact hfresh
  have hidle : (fresh config target tree notes).site.build.phase ≠ .scanning := by
    show Phase.idle ≠ .scanning
    simp
  have hscans := phase_run_iff t hfresh hidle events
  refine ⟨fun hscan => ?_, fun hscan => ?_, fun horder code moduleName hmodule => ?_⟩
  · rw [Site.outcome_transform t code hbuild hmodule, if_pos (hscans.mpr hscan)]
  · rw [Site.outcome_transform t code hbuild hmodule, if_neg (mt hscans.mp hscan)]
  · by_cases hphase : h.site.build.phase = .scanning
    · have hready := readyToScan_run ht hfresh (fun hphase => absurd hphase hidle) horder
      exact Or.inl (hready hphase)
    · right
      rw [Site.outcome_transform t code hbuild hmodule, if_neg hphase]

end

/-- English is configured, and it has no file. -/
def beginning : History Unit :=
  fresh ⟨Locales.english, "i18n", none, .bool true⟩ {} {} ()

theorem transform_gate_beginning : AllInOrder notesCode beginning [.start] ∧
    GateIsSound notesCode (beginning.run (some notesCode) [.start]) ∧
    (Site.transform (some notesCode) "Hello" "a.js"
      (beginning.run (some notesCode) [.start]).site).result = .ok none := by
  have hstarts : Starts beginning := ⟨⟨[⟨"en", .newFile, "i18n/en.json", 0⟩]⟩, rfl⟩
  have horder : AllInOrder notesCode beginning [.start] := ⟨hstarts, trivial⟩
  have hscans : Scans notesCode beginning ([] ++ [.start]) := .start hstarts
  obtain ⟨hhanded, -, hsound⟩ := transform_gate onlyNotes_notesCode beginning.site.build.config {}
    rfl {} () [.start] "Hello" "a.js" rfl
  exact ⟨horder, hsound horder, (Prod.mk.inj (hhanded hscans)).2⟩

/-- What notes its code is refused for the ledger at most. -/
lemma notesCode_ne_notScanning (code moduleName : String) (desk : Desk Unit) :
    (notesCode code moduleName desk).result ≠ .error .notScanning := by
  unfold notesCode KeyLedger.note KeyLedger.noteAll
  cases desk.ledger.closed with
  | true => simp
  | false => simp

/-- The gate is not sound where a build scans without a store, or with a closed ledger. -/
lemma not_gateIsSound {h : History Unit} (hinlines : h.site.build.inlines = true)
    (hphase : h.site.build.phase = .scanning)
    (hstate : h.loaded? = none ∨ h.site.build.ledger.closed = true) :
    ¬ GateIsSound notesCode h := by
  intro hsound
  rcases hsound "Hello" "a.js" rfl with ⟨hloaded, hopen⟩ | hrefused
  · rcases hstate with hnone | hclosed
    · exact hloaded hnone
    · exact absurd (hclosed.symm.trans hopen) (by simp)
  · rw [Site.outcome_transform notesCode "Hello" hinlines rfl, if_pos hphase] at hrefused
    exact notesCode_ne_notScanning _ _ _ (Prod.mk.inj hrefused).2

/-- A bundle closes the ledger while the build scans, and a start that fails takes the store away. A
module is handed to the transformer nevertheless. -/
theorem not_gateIsSound_beginning :
    ¬ GateIsSound notesCode (beginning.run (some notesCode) [.start, .bundle []]) ∧
    ¬ GateIsSound notesCode (beginning.run (some notesCode)
      [.start, .edit ⟨[(["i18n"], .file .empty 0o644)]⟩, .start]) :=
  ⟨not_gateIsSound rfl rfl (Or.inr rfl), not_gateIsSound rfl rfl (Or.inl rfl)⟩

end LocaleBundle.History
