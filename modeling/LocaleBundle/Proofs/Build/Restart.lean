import LocaleBundle.Proofs.Build.Alike
import LocaleBundle.Proofs.Build.Gate

/-!
# A start forgets the builds before

A start that succeeds sets everything that a later call looks at: the key ledger, the fixed keys, the
store and the phase. From then on a build with a past answers as a new one does, and leaves the same
files. Only what the transformer keeps for itself may differ, so the transformer must be a pure one.
-/

namespace LocaleBundle

open Locale

variable {τ : Type}

/-- Whether what a transformer gives, and what it makes of the ledger, depend on the module and the
ledger alone, and not on what it keeps for itself. -/
def Transformer.IsPure (transformer : Transformer τ) : Prop :=
  ∀ code moduleName (desk other : Desk τ), desk.ledger = other.ledger →
    (transformer code moduleName desk).result = (transformer code moduleName other).result ∧
    (transformer code moduleName desk).state.ledger =
      (transformer code moduleName other).state.ledger

lemma KeyLedger.isKept_eq : KeyLedger.IsKept Eq where
  fresh := rfl
  keys := by
    rintro ledger _ rfl key
    exact Iff.rfl
  pluralKeys := by
    rintro ledger _ rfl
    rfl
  close := by
    rintro ledger _ rfl
    rfl
  notesAlike := by
    rintro key ledger _ rfl
    exact ⟨rfl, rfl⟩

namespace Site

/-- Whether two sites have the same files and builds that are the same for all that follows. -/
abbrev Alike (site other : Site τ) : Prop := AlikeUpTo Eq site other

/-- A start that succeeds makes sites alike that have the same files, the same configuration and the
same target, whatever state their builds were in. -/
lemma start_of_sameSetup {site other : Site τ} (htree : site.tree = other.tree)
    (hconfig : site.build.config = other.build.config)
    (htarget : site.build.target = other.build.target)
    (hstarts : ∃ report, (start site).result = .ok report) :
    Alike (start site).state (start other).state ∧ (start site).result = (start other).result := by
  obtain ⟨report, hreport⟩ := hstarts
  have hloading : other.loading = site.loading := by
    unfold loading Build.emptyStore
    rw [htree, hconfig]
  cases hload : (Workspace.load site.loading).result with
  | error e =>
    have hfails := (Prod.mk.inj (outcome_start_error hload)).2
    exact absurd (hreport.symm.trans hfails) (by simp)
  | ok loaded =>
    have hload' : (Workspace.load other.loading).result = .ok loaded := by rw [hloading, hload]
    obtain ⟨hstate, hresult⟩ := Prod.mk.inj (outcome_start_ok hload)
    obtain ⟨hstate', hresult'⟩ := Prod.mk.inj (outcome_start_ok hload')
    rw [hstate, hstate', hresult, hresult', hloading]
    -- all but two fields of the build are the doing of the start
    exact ⟨⟨rfl, ⟨hconfig, htarget, rfl, rfl, rfl, rfl⟩⟩, rfl⟩

end Site

namespace History

section

variable [Plural.Cldr] {transformer : Option (Transformer τ)} {h other : History τ}

/-- Histories whose sites are alike show the same from then on. -/
lemma shows_of_alike (hpure : ∀ t ∈ transformer, t.IsPure) (halike : Site.Alike h.site other.site)
    (events : List Event) : h.shows transformer events = other.shows transformer events :=
  shows_of_alikeUpTo KeyLedger.isKept_eq hpure halike events

/-- No state survives between builds. Whatever has happened to a build, and whatever the files are
like when it is started again: if that start succeeds, the start and all calls after it give the
same results and errors, and leave the same files, as they would in a new build with the same
configuration and target. -/
theorem shows_start_eq_fresh (transformer : Option (Transformer τ))
    (hpure : ∀ t ∈ transformer, t.IsPure) (config : Config) (target : Target) (tree : FileTree)
    (notes notes' : τ) (earlier later : List Event)
    (hstarts : Starts ((fresh config target tree notes).run transformer earlier)) :
    let h := (fresh config target tree notes).run transformer earlier
    h.shows transformer (.start :: later) =
      (fresh config target h.site.tree notes').shows transformer (.start :: later) := by
  intro h
  have hconfig : h.site.build.config = config := config_run transformer _ earlier
  have htarget : h.site.build.target = target := target_run transformer _ earlier
  obtain ⟨hstate, hresult⟩ : Site.Alike (Site.start h.site).state
        (Site.start (fresh config target h.site.tree notes').site).state ∧
      (Site.start h.site).result =
        (Site.start (fresh config target h.site.tree notes').site).result :=
    Site.start_of_sameSetup rfl hconfig htarget hstarts
  have halike : Site.Alike (h.step transformer .start).site
      ((fresh config target h.site.tree notes').step transformer .start).site := by
    rw [site_step_start, site_step_start]
    exact hstate
  have hanswer : h.answer transformer .start =
      (fresh config target h.site.tree notes').answer transformer .start :=
    congrArg Answer.started hresult
  unfold shows
  rw [hanswer, halike.tree, shows_of_alike hpure halike later]

end

lemma isPure_notesCode : notesCode.IsPure := by
  intro code moduleName desk other h
  unfold notesCode
  rw [h]
  cases other.ledger.note code with
  | error e => exact ⟨rfl, h⟩
  | ok ledger => exact ⟨rfl, rfl⟩

/-- A build is left after a module was scanned and another was refused. Then a start fails because a
file stands where the locales directory belongs, and the file is taken away. -/
def abandoned : List Event :=
  [.start, .transform "Hello" "a.js", .bundle [], .transform "Bye" "b.js",
    .edit ⟨[(["i18n"], .file .empty 0o644)]⟩, .start, .edit {}]

theorem shows_start_eq_fresh_abandoned : notesCode.IsPure ∧
    Starts (beginning.run (some notesCode) abandoned) ∧
    (beginning.run (some notesCode) abandoned).shows (some notesCode)
        [.start, .transform "Bye" "b.js", .finish, .bundle []] =
      beginning.shows (some notesCode) [.start, .transform "Bye" "b.js", .finish, .bundle []] := by
  have hpure : ∀ t ∈ some notesCode, t.IsPure := by
    intro t ht
    rw [← Option.some.inj ht]
    exact isPure_notesCode
  have hstarts : Starts (beginning.run (some notesCode) abandoned) :=
    ⟨⟨[⟨"en", .newFile, "i18n/en.json", 0⟩]⟩, rfl⟩
  exact ⟨isPure_notesCode, hstarts, shows_start_eq_fresh (some notesCode) hpure
    beginning.site.build.config {} {} () () abandoned
    [.transform "Bye" "b.js", .finish, .bundle []] hstarts⟩

end History

end LocaleBundle
