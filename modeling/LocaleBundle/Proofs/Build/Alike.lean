import LocaleBundle.Proofs.Build.History
import LocaleBundle.Proofs.Locale.Alike

/-!
# Builds that answer alike

Of its key ledger a build reads which keys are in it, and the plural keys in their order. So builds
with the same files, the same store and the same phase, whose ledgers are related by a relation that
respects this, answer alike and leave the same files, for as long as their transformer goes alike with
such ledgers.
-/

namespace LocaleBundle

open Locale

variable {τ : Type} {L : KeyLedger → KeyLedger → Prop}

/-- Whether related ledgers cannot be told apart by what a build does with them, and stay related. -/
structure KeyLedger.IsKept (L : KeyLedger → KeyLedger → Prop) : Prop where
  fresh : L {} {}
  keys : ∀ ledger other, L ledger other → ∀ key, key ∈ ledger.keys ↔ key ∈ other.keys
  pluralKeys : ∀ ledger other, L ledger other → ledger.pluralKeys = other.pluralKeys
  close : ∀ ledger other, L ledger other → L ledger.close other.close
  notesAlike : NotesAlike L

/-- Whether a transformer gives the same with related ledgers, and leaves related ones, whatever it
keeps for itself. -/
def Transformer.Respects (transformer : Transformer τ) (L : KeyLedger → KeyLedger → Prop) : Prop :=
  ∀ code moduleName (desk other : Desk τ), L desk.ledger other.ledger →
    (transformer code moduleName desk).result = (transformer code moduleName other).result ∧
    L (transformer code moduleName desk).state.ledger (transformer code moduleName other).state.ledger

/-- Whether two builds have related ledgers, have fixed the same plural keys, and are the same
otherwise. -/
structure Build.AlikeUpTo (L : KeyLedger → KeyLedger → Prop) (build other : Build) : Prop where
  config : build.config = other.config
  target : build.target = other.target
  store? : build.store? = other.store?
  phase : build.phase = other.phase
  pluralKeys : build.keySets?.map KeySets.pluralKeys = other.keySets?.map KeySets.pluralKeys
  ledger : L build.ledger other.ledger

namespace Build.AlikeUpTo

variable {build other : Build}

lemma inlines (h : build.AlikeUpTo L other) : build.inlines = other.inlines := by
  rw [Build.inlines, Build.inlines, h.target]

lemma store (h : build.AlikeUpTo L other) : build.store = other.store := by
  rw [Build.store, Build.store, h.store?]

lemma emptyStore (h : build.AlikeUpTo L other) : build.emptyStore = other.emptyStore := by
  rw [Build.emptyStore, Build.emptyStore, h.config]

/-- Copies are made in the same way. -/
lemma plan (hL : KeyLedger.IsKept L) (h : build.AlikeUpTo L other) : build.plan = other.plan := by
  have hscanned : build.scanned.pluralKeys = other.scanned.pluralKeys := by
    have hfixed := h.pluralKeys
    unfold scanned
    cases hsets : build.keySets? with
    | none =>
      rw [hsets, Option.map_none, eq_comm, Option.map_eq_none_iff] at hfixed
      rw [hfixed]
      exact hL.pluralKeys _ _ h.ledger
    | some sets =>
      rw [hsets, Option.map_some, eq_comm, Option.map_eq_some_iff] at hfixed
      obtain ⟨sets', hsets', hsame⟩ := hfixed
      rw [hsets']
      exact hsame.symm
  rw [Build.plan, Build.plan, hscanned, h.config]

end Build.AlikeUpTo

namespace Site

/-- Whether two sites have the same files, and builds that are alike but for their ledgers. -/
structure AlikeUpTo (L : KeyLedger → KeyLedger → Prop) (site other : Site τ) : Prop where
  tree : site.tree = other.tree
  build : site.build.AlikeUpTo L other.build

/-- A job on the locales is told the files and the ledger, and nothing else of a site. -/
lemma agree_withStore {α : Type} (store : Store) {job other : Job Workspace α}
    (hjob : Job.Agree (Workspace.AlikeUpTo L) job other) :
    Job.Agree (AlikeUpTo L) (withStore (τ := τ) store job) (withStore store other) := by
  intro site site' h
  obtain ⟨hafter, hresult⟩ := hjob ⟨site.tree, store, site.build.ledger⟩
    ⟨site'.tree, store, site'.build.ledger⟩ ⟨h.tree, rfl, h.build.ledger⟩
  refine ⟨⟨hafter.tree, ?_⟩, congrArg Except.ok (Prod.ext hafter.store hresult)⟩
  exact { h.build with ledger := hafter.ledger }

lemma agree_changeBuild {change change' : Build → Build}
    (h : ∀ build other : Build, build.AlikeUpTo L other →
      (change build).AlikeUpTo L (change' other)) :
    Job.Agree (AlikeUpTo L) (changeBuild (τ := τ) change) (changeBuild change') := by
  apply Job.agree_modify
  intro site other halike
  exact ⟨halike.tree, h _ _ halike.build⟩

/-! ## The steps on sites that are alike -/

section

variable (hL : KeyLedger.IsKept L)

include hL

lemma agree_start : Job.Agree (AlikeUpTo L) (start (τ := τ)) start := by
  unfold start
  refine (agree_changeBuild fun build other h => ?_).bind fun _ => ?_
  · exact { h with ledger := hL.fresh, store? := rfl, pluralKeys := rfl }
  apply Job.Agree.bind_get
  intro site other h
  simp only [h.build.emptyStore]
  apply (agree_withStore _ (Workspace.agree_load hL.notesAlike)).bind
  intro loaded
  apply (Job.agree_ofExcept _).bind
  intro report
  refine (agree_changeBuild fun build other h => ?_).bind fun _ => Job.agree_ok report
  exact { h with store? := rfl, phase := rfl }

omit hL in
lemma agree_transform {transformer : Option (Transformer τ)}
    (hrespects : ∀ t ∈ transformer, t.Respects L) (code moduleName : String) :
    Job.Agree (AlikeUpTo L) (transform transformer code moduleName)
      (transform transformer code moduleName) := by
  unfold transform
  apply Job.Agree.bind_get
  intro site other h
  simp only [h.build.inlines, h.build.phase]
  cases transformer with
  | none => exact Job.agree_ok none
  | some t =>
    simp only
    split
    · exact Job.agree_ok none
    · split
      · exact Job.agree_ok none
      · split
        · exact Job.agree_fail _
        · -- the transformer sees the ledger and what it has kept
          intro site other h
          obtain ⟨hresult, hledger⟩ := hrespects t rfl code moduleName site.desk other.desk
            h.build.ledger
          exact ⟨⟨h.tree, { h.build with ledger := hledger }⟩, hresult⟩

lemma agree_finish : Job.Agree (AlikeUpTo L) (finish (τ := τ)) finish := by
  unfold finish
  apply Job.Agree.bind_get
  intro site other h
  have hledger := hL.close _ _ h.build.ledger
  simp only [h.build.inlines, h.build.store, Config.addsMissing, h.build.config]
  split
  · exact Job.agree_ok none
  · apply (Job.agree_ofExcept _).bind
    intro store
    refine (agree_changeBuild fun build build' h => ?_).bind fun _ => ?_
    · exact { h with
        ledger := hledger, pluralKeys := congrArg some (hL.pluralKeys _ _ hledger) }
    -- the same keys are audited, if in another order
    apply (agree_withStore store (Workspace.agree_audit (hL.keys _ _ hledger) _)).bind
    intro audited
    refine (agree_changeBuild fun build build' h => ?_).bind fun _ => ?_
    · exact { h with store? := rfl }
    apply (Job.agree_ofExcept _).bind
    intro report
    refine (agree_changeBuild fun build build' h => ?_).bind fun _ => Job.agree_ok (some report)
    exact { h with phase := rfl }

lemma alike_afterScan {site other : Site τ} (h : AlikeUpTo L site other) :
    AlikeUpTo L site.afterScan other.afterScan := by
  have hfixed := h.build.pluralKeys
  unfold afterScan
  cases hsets : site.build.keySets? with
  | none =>
    rw [hsets, Option.map_none, eq_comm, Option.map_eq_none_iff] at hfixed
    rw [hfixed]
    exact ⟨h.tree, { h.build with ledger := hL.close _ _ h.build.ledger }⟩
  | some sets =>
    rw [hsets, Option.map_some, eq_comm, Option.map_eq_some_iff] at hfixed
    obtain ⟨sets', hsets', -⟩ := hfixed
    rw [hsets']
    exact h

lemma agree_bundle [Plural.Cldr] (artifacts : List Bundle.Artifact) :
    Job.Agree (AlikeUpTo L) (bundle (τ := τ) artifacts) (bundle artifacts) := by
  intro site other h
  cases hinlines : site.build.inlines with
  | false =>
    obtain ⟨hstate, hresult⟩ := Prod.mk.inj (outcome_of_not_inlines artifacts hinlines).2
    obtain ⟨hstate', hresult'⟩ := Prod.mk.inj
      (outcome_of_not_inlines artifacts (h.build.inlines ▸ hinlines)).2
    rw [hstate, hstate', hresult, hresult']
    exact ⟨h, rfl⟩
  | true =>
    have hinlines' := h.build.inlines ▸ hinlines
    cases hstore : site.build.store? with
    | none =>
      obtain ⟨hstate, hresult⟩ := Prod.mk.inj (outcome_of_not_started artifacts hinlines hstore).2
      obtain ⟨hstate', hresult'⟩ := Prod.mk.inj
        (outcome_of_not_started artifacts hinlines' (h.build.store? ▸ hstore)).2
      rw [hstate, hstate', hresult, hresult']
      exact ⟨h, rfl⟩
    | some store =>
      obtain ⟨hstate, hresult⟩ := Prod.mk.inj (outcome_bundle artifacts hinlines hstore)
      obtain ⟨hstate', hresult'⟩ := Prod.mk.inj
        (outcome_bundle artifacts hinlines' (h.build.store? ▸ hstore))
      rw [hstate, hstate', hresult, hresult', h.build.plan hL]
      exact ⟨alike_afterScan hL h, rfl⟩

end

end Site

/-- What a call gives or how it fails. -/
inductive Answer where
  | started (result : Except Error LoadReport)
  | transformed (result : Except Error (Option String))
  | finished (result : Except Error (Option AuditReport))
  | bundled (result : Except Error (List Bundle.Artifact))
  /-- The files were changed by others. -/
  | edited

namespace History

variable [Plural.Cldr]

/-- What an event gives in a history. -/
def answer (transformer : Option (Transformer τ)) (h : History τ) : Event → Answer
  | .start => .started (Site.start h.site).result
  | .transform code moduleName =>
    .transformed (Site.transform transformer code moduleName h.site).result
  | .finish => .finished (Site.finish h.site).result
  | .bundle artifacts => .bundled (Site.bundle artifacts h.site).result
  | .edit _ => .edited

/-- What some more events show of a history: for each one its answer, and the files as it leaves
them. -/
def shows (transformer : Option (Transformer τ)) (h : History τ) :
    List Event → List (Answer × FileTree)
  | [] => []
  | event :: events =>
    (h.answer transformer event, (h.step transformer event).site.tree) ::
      (h.step transformer event).shows transformer events

variable {transformer : Option (Transformer τ)} {h other : History τ}

/-- After a start, the site is the one that the start leaves. -/
lemma site_step_start (h : History τ) :
    (h.step transformer .start).site = (Site.start h.site).state := by
  unfold step
  cases hresult : (Site.start h.site).result with
  | error e => simp only [hresult]
  | ok report => simp only [hresult]

variable (hL : KeyLedger.IsKept L) (hrespects : ∀ t ∈ transformer, t.Respects L)

include hL hrespects

/-- An event of histories whose sites are alike gives the same, and leaves them alike. -/
lemma alikeUpTo_step (halike : Site.AlikeUpTo L h.site other.site) (event : Event) :
    h.answer transformer event = other.answer transformer event ∧
      Site.AlikeUpTo L (h.step transformer event).site (other.step transformer event).site := by
  cases event with
  | start =>
    obtain ⟨hstate, hresult⟩ := Site.agree_start hL _ _ halike
    rw [site_step_start, site_step_start]
    exact ⟨congrArg Answer.started hresult, hstate⟩
  | transform code moduleName =>
    obtain ⟨hstate, hresult⟩ := Site.agree_transform hrespects code moduleName _ _ halike
    exact ⟨congrArg Answer.transformed hresult, hstate⟩
  | finish =>
    obtain ⟨hstate, hresult⟩ := Site.agree_finish hL _ _ halike
    exact ⟨congrArg Answer.finished hresult, hstate⟩
  | bundle artifacts =>
    obtain ⟨hstate, hresult⟩ := Site.agree_bundle hL artifacts _ _ halike
    exact ⟨congrArg Answer.bundled hresult, hstate⟩
  | edit tree => exact ⟨rfl, ⟨rfl, halike.build⟩⟩

/-- Histories whose sites are alike show the same from then on. -/
lemma shows_of_alikeUpTo (halike : Site.AlikeUpTo L h.site other.site) (events : List Event) :
    h.shows transformer events = other.shows transformer events := by
  induction events generalizing h other with
  | nil => rfl
  | cons event events ih =>
    obtain ⟨hanswer, hafter⟩ := alikeUpTo_step hL hrespects halike event
    unfold shows
    rw [hanswer, hafter.tree, ih hafter]

end History

end LocaleBundle
