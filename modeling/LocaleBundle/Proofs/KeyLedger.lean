import LocaleBundle.KeyLedger
import Mathlib.Data.List.Forall2
import Mathlib.Data.List.Induction
import Mathlib.Data.List.Perm.Basic

/-!
# What a key ledger holds

Several clients may change one ledger. Each change is atomic, so whatever the clients do is a trace of
changes, one after the other. A ledger holds exactly the keys that were noted while it was open, since
it was last reset. So it does not matter in which order, how often and in which batches the clients note
their keys between two lifecycle steps: every closing fixes the same keys.
-/

namespace LocaleBundle

namespace KeyLedger

/-- The changes that a client can make. Closing and resetting are the lifecycle steps. -/
inductive Change where
  | note (key : String)
  | noteAll (keys : List String)
  | notePlural (key : String)
  | close
  | reset
  deriving DecidableEq

/-- The two sets of a ledger. -/
inductive Shelf where
  | all
  | plural

namespace Change

/-- What a change makes of a ledger. -/
def apply : Change → KeyLedger → Except Error KeyLedger
  | .note key, ledger => ledger.note key
  | .noteAll keys, ledger => ledger.noteAll keys
  | .notePlural key, ledger => ledger.notePlural key
  | .close, ledger => .ok ledger.close
  | .reset, ledger => .ok ledger.reset

/-- The keys that a change notes in a set. -/
def noted : Shelf → Change → List String
  | .all, .note key => [key]
  | .all, .noteAll keys => keys
  | .plural, .notePlural key => [key]
  | _, _ => []

/-- Whether a change notes keys and is no lifecycle step. -/
def IsNote (change : Change) : Prop := change ≠ .close ∧ change ≠ .reset

end Change

end KeyLedger

/-- The keys in one of the sets. -/
def KeySets.on (sets : KeySets) : KeyLedger.Shelf → List String
  | .all => sets.keys
  | .plural => sets.pluralKeys

/-- Whether sets have the same keys, in whatever order they came. -/
def KeySets.Same (sets other : KeySets) : Prop := ∀ shelf, (sets.on shelf).Perm (other.on shelf)

namespace KeyLedger

/-- A ledger after a change. A refused change leaves it as it is, and the clients go on. -/
def step (ledger : KeyLedger) (change : Change) : KeyLedger := (update change.apply ledger).state

/-- A ledger after a trace of changes. -/
def run (ledger : KeyLedger) (trace : List Change) : KeyLedger := trace.foldl step ledger

/-- The keys that each closing of a trace fixes. -/
def snapshots (ledger : KeyLedger) : List Change → List KeySets
  | [] => []
  | change :: trace =>
    (if change = .close then [ledger.close.sets] else []) ++ snapshots (ledger.step change) trace

variable {ledger other : KeyLedger} {change : Change} {trace : List Change} {shelf : Shelf}
  {key : String}

lemma run_cons (ledger : KeyLedger) (change : Change) (trace : List Change) :
    ledger.run (change :: trace) = (ledger.step change).run trace := rfl

lemma run_append (ledger : KeyLedger) (trace more : List Change) :
    ledger.run (trace ++ more) = (ledger.run trace).run more := List.foldl_append

lemma snapshots_append (ledger : KeyLedger) (trace more : List Change) :
    ledger.snapshots (trace ++ more) = ledger.snapshots trace ++ (ledger.run trace).snapshots more := by
  induction trace generalizing ledger with
  | nil => rfl
  | cons change trace ih =>
    rw [List.cons_append, snapshots, snapshots, ih, List.append_assoc, run_cons]

/-! ## What a change does -/

/-- A closed ledger refuses notes. -/
lemma update_of_closed (hclosed : ledger.closed = true) (hnote : change.IsNote) :
    update change.apply ledger = ⟨ledger, .error .ledgerClosed, []⟩ := by
  cases change with
  | note key => simp [update, Change.apply, note, noteAll, hclosed]
  | noteAll keys => simp [update, Change.apply, noteAll, hclosed]
  | notePlural key => simp [update, Change.apply, notePlural, hclosed]
  | close => exact absurd rfl hnote.1
  | reset => exact absurd rfl hnote.2

/-- Nothing else is refused. -/
lemma result_update (h : change.IsNote → ledger.closed = false) :
    (update change.apply ledger).result = .ok () := by
  cases change with
  | note key => simp [update, Change.apply, note, noteAll, h ⟨by simp, by simp⟩]
  | noteAll keys => simp [update, Change.apply, noteAll, h ⟨by simp, by simp⟩]
  | notePlural key => simp [update, Change.apply, notePlural, h ⟨by simp, by simp⟩]
  | close => rfl
  | reset => rfl

lemma closed_step : (ledger.step change).closed = true ↔
    change = .close ∨ ledger.closed = true ∧ change ≠ .reset := by
  cases hclosed : ledger.closed <;> cases change <;>
    simp [step, update, Change.apply, note, noteAll, notePlural, close, reset, hclosed]

/-- A change adds its keys if the ledger is open, and only a reset takes keys away. -/
lemma mem_step : key ∈ (ledger.step change).sets.on shelf ↔
    key ∈ ledger.sets.on shelf ∧ change ≠ .reset ∨
      ledger.closed = false ∧ key ∈ change.noted shelf := by
  cases hclosed : ledger.closed <;> cases change <;> cases shelf <;>
    simp [step, update, Change.apply, note, noteAll, notePlural, close, reset, hclosed, KeySets.on,
      sets, Change.noted, TextSet.mem_adjoinAll, TextSet.mem_adjoin]

/-- Whether both sets have each key once. -/
def IsProper (ledger : KeyLedger) : Prop := ∀ shelf, (ledger.sets.on shelf).Nodup

lemma IsProper.step (h : ledger.IsProper) (change : Change) : (ledger.step change).IsProper := by
  have hall : ledger.keys.Nodup := h .all
  have hplural : ledger.pluralKeys.Nodup := h .plural
  intro shelf
  cases hclosed : ledger.closed <;> cases change <;> cases shelf <;>
    simp [KeyLedger.step, update, Change.apply, note, noteAll, notePlural, close, reset, hclosed,
      KeySets.on, sets, TextSet.nodup_adjoinAll, TextSet.nodup_adjoin, hall, hplural]

lemma isProper_fresh : ({} : KeyLedger).IsProper := by
  intro shelf
  cases shelf <;> exact List.nodup_nil

lemma IsProper.run (h : ledger.IsProper) (trace : List Change) : (ledger.run trace).IsProper := by
  induction trace generalizing ledger with
  | nil => exact h
  | cons change trace ih => exact ih (h.step change)

/-! ## What was noted -/

/-- Whether a trace leaves a ledger open: each closing is followed by a reset. -/
def IsOpen (trace : List Change) : Prop :=
  ∀ before after, trace = before ++ .close :: after → .reset ∈ after

/-- Whether a key was noted in a set while the ledger was open, and was not forgotten since. -/
def IsNoted (shelf : Shelf) (key : String) (trace : List Change) : Prop :=
  ∃ before change after, trace = before ++ change :: after ∧ IsOpen before ∧
    key ∈ change.noted shelf ∧ .reset ∉ after

/-- The last change of a trace is the one picked out, or it comes after that one. -/
lemma concat_eq_iff {before after : List Change} {picked : Change} :
    trace ++ [change] = before ++ picked :: after ↔
      (before = trace ∧ picked = change ∧ after = []) ∨
        ∃ middle, after = middle ++ [change] ∧ trace = before ++ picked :: middle := by
  rcases List.eq_nil_or_concat' after with rfl | ⟨middle, last, rfl⟩
  · constructor
    · intro h
      obtain ⟨htrace, hlast⟩ := List.append_inj' h rfl
      exact Or.inl ⟨htrace.symm, (List.singleton_inj.mp hlast).symm, rfl⟩
    · rintro (⟨rfl, rfl, -⟩ | ⟨middle, hnil, -⟩)
      · rfl
      · exact absurd hnil.symm (by simp)
  · rw [← List.cons_append, ← List.append_assoc before]
    constructor
    · intro h
      obtain ⟨htrace, hlast⟩ := List.append_inj' h rfl
      exact Or.inr ⟨middle, by rw [hlast], htrace⟩
    · rintro (⟨-, -, hnil⟩ | ⟨other, hafter, rfl⟩)
      · exact absurd hnil (by simp)
      · obtain ⟨rfl, hlast⟩ := List.append_inj' hafter rfl
        rw [hlast]

lemma isOpen_concat : IsOpen (trace ++ [change]) ↔
    change = .reset ∨ change ≠ .close ∧ IsOpen trace := by
  constructor
  · intro h
    by_cases hreset : change = .reset
    · exact Or.inl hreset
    · refine Or.inr ⟨?_, fun before after htrace => ?_⟩
      · rintro rfl
        exact absurd (h trace [] rfl) List.not_mem_nil
      · have hafter := h before (after ++ [change]) (by rw [htrace]; simp)
        rcases List.mem_append.mp hafter with hmem | hmem
        · exact hmem
        · exact absurd (List.mem_singleton.mp hmem).symm hreset
  · rintro h before after htrace
    rcases concat_eq_iff.mp htrace with ⟨-, rfl, -⟩ | ⟨middle, rfl, hmiddle⟩
    · exact absurd h (by simp)
    · rcases h with rfl | ⟨-, hopen⟩
      · simp
      · exact List.mem_append_left _ (hopen before middle hmiddle)

lemma isNoted_concat : IsNoted shelf key (trace ++ [change]) ↔
    IsNoted shelf key trace ∧ change ≠ .reset ∨ IsOpen trace ∧ key ∈ change.noted shelf := by
  constructor
  · rintro ⟨before, picked, after, htrace, hopen, hkey, hreset⟩
    rcases concat_eq_iff.mp htrace with ⟨rfl, rfl, -⟩ | ⟨middle, rfl, hmiddle⟩
    · exact Or.inr ⟨hopen, hkey⟩
    · rw [List.mem_append, not_or, List.mem_singleton] at hreset
      exact Or.inl ⟨⟨before, picked, middle, hmiddle, hopen, hkey, hreset.1⟩, Ne.symm hreset.2⟩
  · rintro (⟨⟨before, picked, middle, rfl, hopen, hkey, hreset⟩, hchange⟩ | ⟨hopen, hkey⟩)
    · refine ⟨before, picked, middle ++ [change], by simp, hopen, hkey, ?_⟩
      rw [List.mem_append, not_or, List.mem_singleton]
      exact ⟨hreset, Ne.symm hchange⟩
    · exact ⟨trace, change, [], rfl, hopen, hkey, List.not_mem_nil⟩

lemma run_concat (ledger : KeyLedger) (trace : List Change) (change : Change) :
    ledger.run (trace ++ [change]) = (ledger.run trace).step change := run_append ledger trace [change]

/-- A new ledger is open at first. -/
lemma closed_run_iff (trace : List Change) : (run {} trace).closed = true ↔ ¬ IsOpen trace := by
  -- whether a trace leaves the ledger open is decided at its end, so its last change is taken off
  induction trace using List.reverseRecOn with
  | nil => simp [run, IsOpen]
  | append_singleton trace change ih =>
    rw [run_concat, closed_step, isOpen_concat, ih]
    by_cases hclose : change = .close
    · simp [hclose]
    · by_cases hreset : change = .reset
      · simp [hreset]
      · simp [hclose, hreset]

/-- A new ledger has the keys that were noted, by what each change adds and takes away. -/
lemma mem_run_iff (trace : List Change) :
    key ∈ (run {} trace).sets.on shelf ↔ IsNoted shelf key trace := by
  induction trace using List.reverseRecOn with
  | nil => cases shelf <;> simp [run, IsNoted, sets, KeySets.on]
  | append_singleton trace change ih =>
    have hopen : (run {} trace).closed = false ↔ IsOpen trace := by
      rw [← Bool.not_eq_true, closed_run_iff, not_not]
    rw [run_concat, mem_step, isNoted_concat, ih, hopen]

/-! ## Rearranged notes -/

/-- Whether two traces differ at most in how keys are noted between lifecycle steps: in the order of
the notes, in how often they are made, and in the batches that the keys come in. -/
inductive Rearranged : List Change → List Change → Prop
  | reorder {notes others : List Change} (hperm : notes.Perm others)
    (hnotes : ∀ change ∈ notes, change.IsNote) : Rearranged notes others
  | repeated {change : Change} (hnote : change.IsNote) : Rearranged [change] [change, change]
  | split (keys more : List String) :
    Rearranged [.noteAll (keys ++ more)] [.noteAll keys, .noteAll more]
  | single (key : String) : Rearranged [.noteAll [key]] [.note key]
  | refl (trace : List Change) : Rearranged trace trace
  | symm {trace other : List Change} (h : Rearranged trace other) : Rearranged other trace
  | trans {trace middle other : List Change} (h : Rearranged trace middle)
    (h' : Rearranged middle other) : Rearranged trace other
  | append {trace other more others : List Change} (h : Rearranged trace other)
    (h' : Rearranged more others) : Rearranged (trace ++ more) (other ++ others)

/-- Whether two ledgers have the same sets and are both open or both closed. -/
structure Alike (ledger other : KeyLedger) : Prop where
  mem : ∀ shelf key, key ∈ ledger.sets.on shelf ↔ key ∈ other.sets.on shelf
  closed : ledger.closed = other.closed
  proper : ledger.IsProper
  proper' : other.IsProper

namespace Alike

lemma symm (h : Alike ledger other) : Alike other ledger :=
  ⟨fun shelf key => (h.mem shelf key).symm, h.closed.symm, h.proper', h.proper⟩

lemma same (h : Alike ledger other) : ledger.sets.Same other.sets := fun shelf =>
  (List.perm_ext_iff_of_nodup (h.proper shelf) (h.proper' shelf)).mpr (h.mem shelf)

lemma step (h : Alike ledger other) (change : Change) :
    Alike (ledger.step change) (other.step change) where
  mem shelf key := by rw [mem_step, mem_step, h.mem, h.closed]
  closed := by rw [Bool.eq_iff_iff, closed_step, closed_step, h.closed]
  proper := h.proper.step change
  proper' := h.proper'.step change

end Alike

/-- Whether two traces keep ledgers alike and fix the same keys on the way. -/
def Agree (trace other : List Change) : Prop :=
  ∀ ledger ledger' : KeyLedger, Alike ledger ledger' →
    Alike (ledger.run trace) (ledger'.run other) ∧
      List.Forall₂ KeySets.Same (ledger.snapshots trace) (ledger'.snapshots other)

lemma agree_refl (trace : List Change) : Agree trace trace := by
  induction trace with
  | nil => exact fun _ _ h => ⟨h, .nil⟩
  | cons change trace ih =>
    intro ledger ledger' h
    obtain ⟨hrun, hsnapshots⟩ := ih _ _ (h.step change)
    refine ⟨hrun, List.rel_append ?_ hsnapshots⟩
    by_cases hclose : change = .close
    · rw [if_pos hclose, if_pos hclose]
      exact .cons h.same .nil
    · rw [if_neg hclose, if_neg hclose]
      exact .nil

lemma sameAll_trans {snapshots middle others : List KeySets}
    (h : List.Forall₂ KeySets.Same snapshots middle) (h' : List.Forall₂ KeySets.Same middle others) :
    List.Forall₂ KeySets.Same snapshots others := by
  induction h generalizing others with
  | nil => exact h'
  | cons hfirst _ ih =>
    cases h' with
    | cons hsecond hrest => exact .cons (fun shelf => (hfirst shelf).trans (hsecond shelf)) (ih hrest)

namespace Agree

variable {middle other more others : List Change}

lemma symm (h : Agree trace other) : Agree other trace := by
  intro ledger ledger' halike
  obtain ⟨hrun, hsnapshots⟩ := h _ _ halike.symm
  exact ⟨hrun.symm, hsnapshots.flip.imp fun _ _ hsame shelf => (hsame shelf).symm⟩

lemma trans (h : Agree trace middle) (h' : Agree middle other) : Agree trace other := by
  intro ledger ledger' halike
  obtain ⟨hrun, hsnapshots⟩ := h ledger ledger' halike
  -- the second pair of traces begins where both ledgers are the same
  have hself : Alike ledger' ledger' := ⟨fun _ _ => Iff.rfl, rfl, halike.proper', halike.proper'⟩
  obtain ⟨hrun', hsnapshots'⟩ := h' ledger' ledger' hself
  refine ⟨⟨fun shelf key => (hrun.mem shelf key).trans (hrun'.mem shelf key),
    hrun.closed.trans hrun'.closed, hrun.proper, hrun'.proper'⟩, ?_⟩
  exact sameAll_trans hsnapshots hsnapshots'

lemma append (h : Agree trace other) (h' : Agree more others) :
    Agree (trace ++ more) (other ++ others) := by
  intro ledger ledger' halike
  obtain ⟨hrun, hsnapshots⟩ := h ledger ledger' halike
  obtain ⟨hrun', hsnapshots'⟩ := h' _ _ hrun
  rw [run_append, run_append, snapshots_append, snapshots_append]
  exact ⟨hrun', List.rel_append hsnapshots hsnapshots'⟩

end Agree

/-- Notes add their keys to an open ledger, and no closing is among them. -/
lemma run_notes {notes : List Change} (hnotes : ∀ change ∈ notes, change.IsNote)
    (ledger : KeyLedger) : ledger.snapshots notes = [] ∧
      (ledger.run notes).closed = ledger.closed ∧
      ∀ shelf key, key ∈ (ledger.run notes).sets.on shelf ↔
        key ∈ ledger.sets.on shelf ∨
          ledger.closed = false ∧ ∃ change ∈ notes, key ∈ change.noted shelf := by
  induction notes generalizing ledger with
  | nil => exact ⟨rfl, rfl, by simp [run]⟩
  | cons change notes ih =>
    obtain ⟨hnote, hnotes⟩ := List.forall_mem_cons.mp hnotes
    obtain ⟨hsnapshots, hclosed, hmem⟩ := ih hnotes (ledger.step change)
    have hstep : (ledger.step change).closed = ledger.closed := by
      rw [Bool.eq_iff_iff, closed_step]
      simp [hnote.1, hnote.2]
    refine ⟨?_, hclosed.trans hstep, fun shelf key => ?_⟩
    · rw [snapshots, if_neg hnote.1, hsnapshots]
      rfl
    · rw [run_cons, hmem, hstep, mem_step]
      simp [hnote.2, and_or_left, or_assoc]

/-- Only the keys of notes count. -/
lemma agree_notes {notes others : List Change} (hnotes : ∀ change ∈ notes, change.IsNote)
    (hothers : ∀ change ∈ others, change.IsNote)
    (hkeys : ∀ shelf key, (∃ change ∈ notes, key ∈ change.noted shelf) ↔
      ∃ change ∈ others, key ∈ change.noted shelf) : Agree notes others := by
  intro ledger ledger' halike
  obtain ⟨hsnapshots, hclosed, hmem⟩ := run_notes hnotes ledger
  obtain ⟨hsnapshots', hclosed', hmem'⟩ := run_notes hothers ledger'
  refine ⟨⟨fun shelf key => ?_, ?_, halike.proper.run notes, halike.proper'.run others⟩, ?_⟩
  · rw [hmem, hmem', halike.mem, halike.closed, hkeys]
  · rw [hclosed, hclosed', halike.closed]
  · rw [hsnapshots, hsnapshots']
    exact .nil

/-- However the notes are rearranged, their keys are the same. -/
lemma Rearranged.agree {other : List Change} (h : Rearranged trace other) : Agree trace other := by
  have hall : ∀ keys, (Change.noteAll keys).IsNote := fun keys => ⟨by simp, by simp⟩
  -- notes are compared by their keys; the lifecycle steps come in by the parts that stay
  induction h with
  | reorder hperm hnotes =>
    refine agree_notes hnotes (fun change h => hnotes change (hperm.mem_iff.mpr h)) fun _ _ => ?_
    simp only [hperm.mem_iff]
  | repeated hnote => exact agree_notes (by simpa using hnote) (by simpa using hnote) (by simp)
  | split keys more =>
    refine agree_notes (by simp [hall]) (by simp [hall]) fun shelf key => ?_
    cases shelf <;> simp [Change.noted]
  | single key =>
    refine agree_notes (by simp [hall]) (by simp [Change.IsNote]) fun shelf key => ?_
    cases shelf <;> simp [Change.noted]
  | refl trace => exact agree_refl trace
  | symm _ ih => exact ih.symm
  | trans _ _ ih ih' => exact ih.trans ih'
  | append _ _ ih ih' => exact ih.append ih'

/-! ## Closed ledgers -/

lemma step_of_closed (hclosed : ledger.closed = true) (hreset : change ≠ .reset) :
    ledger.step change = ledger := by
  by_cases hclose : change = .close
  · rw [hclose, step, update, Change.apply]
    show { ledger with closed := true } = ledger
    rw [← hclosed]
  · rw [step, update_of_closed hclosed ⟨hclose, hreset⟩]

lemma snapshots_of_closed (hclosed : ledger.closed = true) (hreset : .reset ∉ trace) :
    ledger.snapshots trace = List.replicate (trace.count .close) ledger.sets := by
  induction trace with
  | nil => rfl
  | cons change trace ih =>
    rw [List.mem_cons, not_or] at hreset
    -- nothing is added any more, so each closing fixes the sets of the first one
    rw [snapshots, step_of_closed hclosed (Ne.symm hreset.1), ih hreset.2]
    by_cases hclose : change = .close
    · rw [if_pos hclose, hclose, List.count_cons_self, List.replicate_succ]
      rfl
    · rw [if_neg hclose, List.count_cons_of_ne hclose]
      rfl

/-! ## All traces -/

/-- A ledger loses and invents nothing. After any trace of changes each of its sets has exactly the
keys, each once, that were noted in it while the ledger was open, since it was last reset. A note is
refused in a closed ledger, which stays as it is, and nothing else is refused. A closing fixes exactly
the sets that the ledger has, and so does each closing after it until a reset. However the notes
between the lifecycle steps are ordered, repeated or put into batches, the closings fix the same keys. -/
theorem run_keeps_noted (trace : List Change) :
    let ledger := run {} trace
    (∀ shelf, (ledger.sets.on shelf).Nodup ∧
      ∀ key, key ∈ ledger.sets.on shelf ↔ IsNoted shelf key trace) ∧
    (∀ change : Change, change.IsNote → ¬ IsOpen trace →
      update change.apply ledger = ⟨ledger, .error .ledgerClosed, []⟩) ∧
    (∀ change : Change, (change.IsNote → IsOpen trace) →
      (update change.apply ledger).result = .ok ()) ∧
    (∀ between, .reset ∉ between → snapshots {} (trace ++ .close :: between) =
      snapshots {} trace ++ List.replicate (between.count .close + 1) ledger.sets) ∧
    ∀ other, Rearranged trace other →
      List.Forall₂ KeySets.Same (snapshots {} trace) (snapshots {} other) := by
  intro ledger
  have hclosed : ledger.closed = true ↔ ¬ IsOpen trace := closed_run_iff trace
  refine ⟨fun shelf => ⟨isProper_fresh.run trace shelf, fun key => mem_run_iff trace⟩, ?_, ?_, ?_, ?_⟩
  · exact fun change hnote hopen => update_of_closed (hclosed.mpr hopen) hnote
  · intro change hopen
    refine result_update fun hnote => ?_
    rw [← Bool.not_eq_true, hclosed, not_not]
    exact hopen hnote
  · intro between hreset
    have hrest : (ledger.step .close).snapshots between =
        List.replicate (between.count .close) ledger.sets := snapshots_of_closed rfl hreset
    rw [snapshots_append, snapshots, if_pos rfl, hrest, List.replicate_succ]
    rfl
  · intro other hother
    exact (hother.agree {} {} ⟨fun _ _ => Iff.rfl, rfl, isProper_fresh, isProper_fresh⟩).2

/-- One client notes two keys in a batch, another one a plural key; then the ledger is closed. -/
def oneBatch : List Change := [.noteAll ["b", "a"], .notePlural "a", .close]

/-- The same keys, one by one, in another order and one of them twice. -/
def oneByOne : List Change := [.note "a", .notePlural "a", .note "b", .note "a", .close]

lemma rearranged_oneByOne : Rearranged oneBatch oneByOne := by
  have hsplit : Rearranged [.noteAll ["b", "a"]] [.note "b", .note "a"] :=
    (Rearranged.split ["b"] ["a"]).trans ((Rearranged.single "b").append (.single "a"))
  have hagain : Rearranged [.noteAll ["b", "a"]] [.note "b", .note "a", .note "a"] :=
    hsplit.trans ((Rearranged.refl [.note "b"]).append (.repeated ⟨by decide, by decide⟩))
  have hnotes : Rearranged [.note "b", .note "a", .note "a", .notePlural "a"]
      [.note "a", .notePlural "a", .note "b", .note "a"] :=
    .reorder (by decide) (by simp [Change.IsNote])
  exact ((hagain.append (.refl [.notePlural "a"])).trans hnotes).append (.refl [.close])

theorem run_keeps_noted_oneBatch : (Change.note "c").IsNote ∧ ¬ IsOpen oneBatch ∧
    .reset ∉ [Change.note "c", .close] ∧ Rearranged oneBatch oneByOne ∧
    update (Change.note "c").apply (run {} oneBatch) =
      ⟨run {} oneBatch, .error .ledgerClosed, []⟩ ∧
    (update Change.reset.apply (run {} oneBatch)).result = .ok () ∧
    snapshots {} (oneBatch ++ [.close, .note "c", .close]) =
      snapshots {} oneBatch ++ [⟨["b", "a"], ["a"]⟩, ⟨["b", "a"], ["a"]⟩] ∧
    List.Forall₂ KeySets.Same (snapshots {} oneBatch) (snapshots {} oneByOne) := by
  have hnote : (Change.note "c").IsNote := ⟨by decide, by decide⟩
  have hclosed : ¬ IsOpen oneBatch := (closed_run_iff oneBatch).mp rfl
  have hreset : .reset ∉ [Change.note "c", .close] := by decide
  obtain ⟨-, hrefused, htaken, hsnapshots, hsame⟩ := run_keeps_noted oneBatch
  exact ⟨hnote, hclosed, hreset, rearranged_oneByOne, hrefused _ hnote hclosed,
    htaken .reset fun h => absurd rfl h.2, hsnapshots _ hreset, hsame _ rearranged_oneByOne⟩

end KeyLedger

end LocaleBundle
