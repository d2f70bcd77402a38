import LocaleBundle.Locale.Fallback
import LocaleBundle.Proofs.Entries
import Mathlib.Data.List.Chain
import Mathlib.Data.List.Perm.Subperm
import Mathlib.Logic.Relation

/-!
# Fallbacks without cycles

A walk along fallbacks either ends, at a locale without one, or comes back to a locale on its path.
`cycles` finds nothing exactly when no locale leads back to itself, and everything it finds is a
closed path.
-/

namespace LocaleBundle.Locale.Fallbacks

variable {edges : Fallbacks}

/-- Whether one locale names another as its fallback. -/
def FallsBack (edges : Fallbacks) (a b : String) : Prop := next? edges a = some b

/-- Whether the fallbacks of a locale come to an end. -/
inductive Ends (edges : Fallbacks) : String → Prop
  | last {a : String} (h : next? edges a = none) : Ends edges a
  | step {a b : String} (h : FallsBack edges a b) (hb : Ends edges b) : Ends edges a

/-- Whether a list is a closed path: its first locale again at the end, the others each once, and
every locale the fallback of the one before. -/
def IsCycle (edges : Fallbacks) (cycle : List String) : Prop :=
  ∃ a rest, cycle = a :: rest ++ [a] ∧ (a :: rest).Nodup ∧ cycle.IsChain (FallsBack edges)

lemma mem_keys_of_fallsBack {a b : String} (h : FallsBack edges a b) : a ∈ edges.keys := by
  by_contra hnot
  unfold FallsBack next? at h
  rw [Entries.get?_eq_none_iff.mpr hnot] at h
  exact absurd h (by simp)

lemma transGen_of_isChain {a b : String} {rest : List String}
    (h : (a :: rest ++ [b]).IsChain (FallsBack edges)) : Relation.TransGen (FallsBack edges) a b := by
  induction rest generalizing a with
  | nil => exact .single (List.isChain_cons_cons.mp h).1
  | cons c rest ih =>
    obtain ⟨hstep, hrest⟩ := List.isChain_cons_cons.mp h
    exact .head hstep (ih hrest)

lemma IsCycle.transGen {cycle : List String} (h : IsCycle edges cycle) :
    ∃ a, Relation.TransGen (FallsBack edges) a a := by
  obtain ⟨a, rest, rfl, -, hchain⟩ := h
  exact ⟨a, transGen_of_isChain hchain⟩

/-- A locale whose fallbacks end does not lead back to itself. -/
lemma Ends.not_transGen {a : String} (h : Ends edges a) :
    ¬ Relation.TransGen (FallsBack edges) a a := by
  induction h with
  | last hnone =>
    intro hcycle
    obtain ⟨b, hstep, -⟩ := Relation.TransGen.head'_iff.mp hcycle
    exact absurd (hnone.symm.trans hstep) (by simp)
  | @step a b hstep _ ih =>
    intro hcycle
    obtain ⟨c, hfirst, hrest⟩ := Relation.TransGen.head'_iff.mp hcycle
    obtain rfl : b = c := Option.some.inj (hstep.symm.trans hfirst)
    exact ih (Relation.TransGen.tail' hrest hstep)

/-! ## One walk -/

lemma closing_append {before after : List String} {locale : String} (h : locale ∉ before) :
    closing (before ++ locale :: after) locale = locale :: after ++ [locale] := by
  rw [closing, List.dropWhile_append_of_pos, List.dropWhile_cons_of_neg (by simp)]
  intro a ha
  exact decide_eq_true (ne_of_mem_of_not_mem ha h)

/-- Whether fallbacks lead along a path without a repetition, and on to `locale`. -/
structure IsPath (edges : Fallbacks) (path : List String) (locale : String) : Prop where
  nodup : path.Nodup
  chain : (path ++ [locale]).IsChain (FallsBack edges)

lemma isPath_nil (edges : Fallbacks) (start : String) : IsPath edges [] start :=
  ⟨List.nodup_nil, List.isChain_singleton start⟩

namespace IsPath

variable {path : List String} {locale target : String}

lemma nodup_concat (h : IsPath edges path locale) (hnew : locale ∉ path) :
    (path ++ [locale]).Nodup := by
  rw [List.nodup_append]
  refine ⟨h.nodup, by simp, ?_⟩
  rintro a ha b hb rfl
  obtain rfl := List.mem_singleton.mp hb
  exact hnew ha

lemma isChain (h : IsPath edges path locale) : path.IsChain (FallsBack edges) :=
  h.chain.left_of_append

/-- The last locale of a path names the one that it leads on to. -/
lemma exists_last (h : IsPath edges path locale) (hne : path ≠ []) :
    ∃ last, path.getLast? = some last ∧ FallsBack edges last locale := by
  obtain ⟨before, last, rfl⟩ := List.eq_nil_or_concat' path |>.resolve_left hne
  refine ⟨last, List.getLast?_concat, ?_⟩
  have hchain := h.chain
  rw [List.append_assoc, List.isChain_append] at hchain
  exact (List.isChain_cons_cons.mp hchain.2.1).1

lemma extend (h : IsPath edges path locale) (hnew : locale ∉ path)
    (hstep : FallsBack edges locale target) : IsPath edges (path ++ [locale]) target := by
  refine ⟨h.nodup_concat hnew, ?_⟩
  · rw [List.isChain_append]
    refine ⟨h.chain, List.isChain_singleton target, ?_⟩
    intro a ha b hb
    rw [List.getLast?_append_of_ne_nil _ (by simp)] at ha
    simp only [List.getLast?_singleton, Option.mem_some, List.head?_cons] at ha hb
    rw [← ha, ← hb]
    exact hstep

lemma mem_keys (h : IsPath edges path locale) : ∀ a ∈ path, a ∈ edges.keys := by
  intro a ha
  obtain ⟨before, after, rfl⟩ := List.append_of_mem ha
  have hchain := h.chain
  rw [List.append_assoc, List.cons_append, List.isChain_append] at hchain
  cases after with
  | nil => exact mem_keys_of_fallsBack (List.isChain_cons_cons.mp hchain.2.1).1
  | cons b after => exact mem_keys_of_fallsBack (List.isChain_cons_cons.mp hchain.2.1).1

lemma length_le (h : IsPath edges path locale) : path.length ≤ edges.length := by
  have hle := (h.nodup.subperm h.mem_keys).length_le
  rwa [Entries.keys, List.length_map] at hle

/-- A path that has come back to one of its locales has closed a cycle. -/
lemma isCycle_closing (h : IsPath edges path locale) (hmem : locale ∈ path) :
    IsCycle edges (closing path locale) := by
  obtain ⟨before, after, rfl⟩ := List.append_of_mem hmem
  have hnodup := List.nodup_append.mp h.nodup
  have hchain := h.chain
  rw [List.append_assoc, List.isChain_append] at hchain
  rw [closing_append fun hbefore => hnodup.2.2 locale hbefore locale List.mem_cons_self rfl]
  exact ⟨locale, after, rfl, hnodup.2.1, hchain.2.1⟩

end IsPath

/-- How a walk stops that has come to `last`: at a locale without a fallback, before one that is done,
or where it closes on a locale of its path. -/
inductive Stops (edges : Fallbacks) (done path : List String) (last : String) : Option String → Prop
  | atEnd (hnone : next? edges last = none) : Stops edges done path last none
  | merged {b : String} (hstep : FallsBack edges last b) (hdone : b ∈ done) :
    Stops edges done path last none
  | closed {b : String} (hstep : FallsBack edges last b) (hpath : b ∈ path) :
    Stops edges done path last (some b)

/-- Whether a path is all that there is to walk from `start` past the locales of `done`: each locale
once, the fallbacks in their order, and no further. -/
structure IsWalk (edges : Fallbacks) (done : List String) (start : String) (path : List String)
    (closed : Option String) : Prop where
  nodup : path.Nodup
  new : ∀ a ∈ path, a ∉ done
  chain : path.IsChain (FallsBack edges)
  head : path.head? = some start
  stops : ∃ last, path.getLast? = some last ∧ Stops edges done path last closed

variable {done path : List String} {start locale : String}

/-- A walk goes on until it stops: the fuel lasts, since a path is not longer than there are locales
with a fallback. -/
lemma isWalk_walk_of_isPath {fuel : ℕ} (hpath : IsPath edges path locale)
    (hnew : ∀ a ∈ path, a ∉ done) (hhead : (path ++ [locale]).head? = some start)
    (hstart : path = [] → locale ∉ done) (hfuel : edges.length < fuel + path.length) :
    IsWalk edges done start (walk edges done fuel path locale).1
      (walk edges done fuel path locale).2 := by
  induction fuel generalizing path locale with
  | zero =>
    have hle := hpath.length_le
    omega
  | succ fuel ih =>
    rw [walk]
    by_cases hmem : locale ∈ path
    · obtain ⟨last, hlast, hstep⟩ := hpath.exists_last (List.ne_nil_of_mem hmem)
      rw [List.head?_append_of_ne_nil _ (List.ne_nil_of_mem hmem)] at hhead
      rw [if_pos hmem]
      exact ⟨hpath.nodup, hnew, hpath.isChain, hhead, last, hlast, .closed hstep hmem⟩
    · rw [if_neg hmem]
      by_cases hdone : locale ∈ done
      · have hne : path ≠ [] := fun hnil => hstart hnil hdone
        obtain ⟨last, hlast, hstep⟩ := hpath.exists_last hne
        rw [List.head?_append_of_ne_nil _ hne] at hhead
        rw [if_pos hdone]
        exact ⟨hpath.nodup, hnew, hpath.isChain, hhead, last, hlast, .merged hstep hdone⟩
      · have hnew' : ∀ a ∈ path ++ [locale], a ∉ done :=
          List.forall_mem_append.mpr ⟨hnew, List.forall_mem_singleton.mpr hdone⟩
        rw [if_neg hdone]
        cases hnext : next? edges locale with
        | none =>
          have hnodup : (path ++ [locale]).Nodup := hpath.nodup_concat hmem
          exact ⟨hnodup, hnew', hpath.chain, hhead, locale, List.getLast?_concat, .atEnd hnext⟩
        | some target =>
          have hhead' : (path ++ [locale] ++ [target]).head? = some start := by
            rwa [List.head?_append_of_ne_nil _ (by simp)]
          have hlength : edges.length < fuel + (path ++ [locale]).length := by
            rw [List.length_append, List.length_singleton]
            omega
          exact ih (hpath.extend hmem hnext) hnew' hhead' (fun hnil => absurd hnil (by simp)) hlength

/-- What a walk from a locale that is not done comes to. -/
lemma isWalk_walk (edges : Fallbacks) (hstart : start ∉ done) :
    IsWalk edges done start (walk edges done (edges.length + 2) [] start).1
      (walk edges done (edges.length + 2) [] start).2 := by
  refine isWalk_walk_of_isPath (isPath_nil edges start) (by simp) rfl (fun _ => hstart) ?_
  rw [List.length_nil]
  omega

namespace IsWalk

variable {closed : Option String}

/-- A walk that closes has come back to a locale on its path. -/
lemma isPath {b : String} (h : IsWalk edges done start path (some b)) :
    IsPath edges path b ∧ b ∈ path := by
  obtain ⟨last, hlast, hstops⟩ := h.stops
  cases hstops with
  | closed hstep hpath =>
    refine ⟨⟨h.nodup, h.chain.append (List.isChain_singleton b) ?_⟩, hpath⟩
    intro x hx y hy
    obtain rfl := Option.some.inj (hlast.symm.trans hx)
    obtain rfl := Option.some.inj hy
    exact hstep

/-- If a walk does not close, the fallbacks of the locales it has walked end. -/
lemma ends (h : IsWalk edges done start path none) (hdone : ∀ a ∈ done, Ends edges a) :
    ∀ a ∈ path, Ends edges a := by
  obtain ⟨last, hlast, hstops⟩ := h.stops
  obtain ⟨before, rfl⟩ := List.getLast?_eq_some_iff.mp hlast
  have hends : Ends edges last := by
    cases hstops with
    | atEnd hnone => exact .last hnone
    | merged hstep hmem => exact .step hstep (hdone _ hmem)
  have hbefore := h.chain.backwards_concat_induction (Ends edges) before
    (fun _ _ hstep hb => .step hstep hb) hends
  exact List.forall_mem_append.mpr ⟨hbefore, List.forall_mem_singleton.mpr hends⟩

/-- Fallbacks lead from where a walk starts to all of its locales. -/
lemma reflTransGen (h : IsWalk edges done start path closed) :
    ∀ a ∈ path, Relation.ReflTransGen (FallsBack edges) start a := by
  obtain ⟨rest, rfl⟩ := List.head?_eq_some_iff.mp h.head
  exact h.chain.induction (Relation.ReflTransGen (FallsBack edges) start) _
    (fun _ _ hstep hreach => hreach.tail hstep) fun _ => .refl

end IsWalk

/-! ## Chains of fallbacks -/

/-- A chain is walked like any other path, with no locale done before. -/
lemma walk_eq_chainFrom (fuel : ℕ) (path : List String) (locale : String) :
    (walk edges [] fuel path locale).1 = path ++ chainFrom edges fuel path locale := by
  induction fuel generalizing path locale with
  | zero => exact (List.append_nil path).symm
  | succ fuel ih =>
    rw [walk, chainFrom]
    by_cases hmem : locale ∈ path
    · rw [if_pos hmem, if_pos hmem, List.append_nil]
    · rw [if_neg hmem, if_neg hmem, if_neg List.not_mem_nil]
      cases hnext : next? edges locale with
      | none => rfl
      | some target => rw [ih, List.append_assoc, List.singleton_append]

lemma isWalk_chain (edges : Fallbacks) (start : String) :
    ∃ closed, IsWalk edges [] start (chain edges start) closed := by
  have hstart : start ∉ ([] : List String) := List.not_mem_nil
  have hwalk := isWalk_walk edges hstart
  rw [walk_eq_chainFrom, List.nil_append] at hwalk
  exact ⟨_, hwalk⟩

/-- Locales whose fallbacks are among them have whole chains among them. -/
lemma mem_of_mem_chain {codes : List String}
    (hclosed : ∀ a ∈ codes, ∀ b, FallsBack edges a b → b ∈ codes) {start a : String}
    (hstart : start ∈ codes) (h : a ∈ chain edges start) : a ∈ codes := by
  obtain ⟨closed, hwalk⟩ := isWalk_chain edges start
  have hpath := hwalk.reflTransGen a h
  -- induction along the path; that the locale stands in the chain is used up
  clear h
  induction hpath with
  | refl => exact hstart
  | tail _ hstep ih => exact hclosed _ ih _ hstep

/-! ## All walks -/

lemma isCycle_of_mem_cyclesFrom {starts cycle : List String}
    (h : cycle ∈ cyclesFrom edges done starts) : IsCycle edges cycle := by
  induction starts generalizing done with
  | nil => exact absurd h List.not_mem_nil
  | cons start starts ih =>
    rw [cyclesFrom] at h
    by_cases hdone : start ∈ done
    · rw [if_pos hdone] at h
      exact ih h
    · rw [if_neg hdone] at h
      have hwalk := isWalk_walk edges hdone
      rcases heq : walk edges done (edges.length + 2) [] start with ⟨path, closed | locale⟩
      · rw [heq] at h
        exact ih h
      · rw [heq] at h hwalk
        rcases List.mem_cons.mp h with rfl | hrest
        · exact hwalk.isPath.1.isCycle_closing hwalk.isPath.2
        · exact ih hrest

lemma ends_of_cyclesFrom {starts : List String} (hdone : ∀ a ∈ done, Ends edges a)
    (h : cyclesFrom edges done starts = []) : ∀ a ∈ starts, Ends edges a := by
  induction starts generalizing done with
  | nil => exact fun a ha => absurd ha List.not_mem_nil
  | cons start starts ih =>
    rw [cyclesFrom] at h
    by_cases hstart : start ∈ done
    · rw [if_pos hstart] at h
      exact List.forall_mem_cons.mpr ⟨hdone start hstart, ih hdone h⟩
    · rw [if_neg hstart] at h
      have hwalk := isWalk_walk edges hstart
      rcases heq : walk edges done (edges.length + 2) [] start with ⟨path, closed | locale⟩
      · rw [heq] at h hwalk
        have hpath := hwalk.ends hdone
        refine List.forall_mem_cons.mpr ⟨hpath start (List.mem_of_mem_head? hwalk.head), ih ?_ h⟩
        exact List.forall_mem_append.mpr ⟨hdone, hpath⟩
      · rw [heq] at h
        exact absurd h (by simp)

/-- Every cycle that is found is a closed path. -/
theorem isCycle_of_mem_cycles {cycle : List String} (h : cycle ∈ cycles edges) :
    IsCycle edges cycle :=
  isCycle_of_mem_cyclesFrom h

/-- No cycle is found exactly when no locale leads back to itself. -/
theorem cycles_eq_nil_iff : cycles edges = [] ↔
    ∀ a, ¬ Relation.TransGen (FallsBack edges) a a := by
  constructor
  · intro h a hcycle
    obtain ⟨b, hstep, -⟩ := Relation.TransGen.head'_iff.mp hcycle
    have hends := ends_of_cyclesFrom (List.forall_mem_nil _) h a (mem_keys_of_fallsBack hstep)
    exact hends.not_transGen hcycle
  · intro h
    by_contra hne
    obtain ⟨cycle, hcycle⟩ := List.exists_mem_of_ne_nil _ hne
    obtain ⟨a, ha⟩ := (isCycle_of_mem_cycles hcycle).transGen
    exact h a ha

end LocaleBundle.Locale.Fallbacks
