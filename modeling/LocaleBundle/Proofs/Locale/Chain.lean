import LocaleBundle.Proofs.Locale.Fallback

/-!
# Chains of fallbacks

A chain is the longest path of fallbacks from its start on which no locale comes twice: every other
such path is the first part of it. It stops at a locale without a fallback, or where the fallback is
in the chain already. The first holds of the chains of all keys exactly if there are no cycles.
-/

namespace LocaleBundle.Locale.Fallbacks

variable {edges : Fallbacks} {done path : List String} {start : String} {closed : Option String}

/-- A locale has one fallback, so of two paths from it one goes on where the other stops. -/
lemma prefix_or_prefix {a : String} {rest more : List String}
    (hrest : (a :: rest).IsChain (FallsBack edges)) (hmore : (a :: more).IsChain (FallsBack edges)) :
    a :: rest <+: a :: more ∨ a :: more <+: a :: rest := by
  induction rest generalizing a more with
  | nil => exact Or.inl ⟨more, rfl⟩
  | cons b rest ih =>
    cases more with
    | nil => exact Or.inr ⟨b :: rest, rfl⟩
    | cons c more =>
      obtain ⟨hb, hrest⟩ := List.isChain_cons_cons.mp hrest
      obtain ⟨hc, hmore⟩ := List.isChain_cons_cons.mp hmore
      obtain rfl : b = c := Option.some.inj (hb.symm.trans hc)
      simpa only [List.cons_prefix_cons, true_and] using ih hrest hmore

namespace IsWalk

/-- All locales of a walk but its last have fallbacks. -/
lemma length_le (h : IsWalk edges done start path closed) : path.length ≤ edges.length + 1 := by
  obtain ⟨last, hlast, -⟩ := h.stops
  obtain ⟨before, rfl⟩ := List.getLast?_eq_some_iff.mp hlast
  have hpath : IsPath edges before last := ⟨(List.nodup_append.mp h.nodup).1, h.chain⟩
  rw [List.length_append, List.length_singleton]
  exact Nat.succ_le_succ hpath.length_le

/-- A walk past no other locales is the longest path from its start. -/
lemma prefix_of_isChain (h : IsWalk edges [] start path closed) {other : List String}
    (hnodup : other.Nodup) (hhead : other.head? = some start)
    (hchain : other.IsChain (FallsBack edges)) : other <+: path := by
  obtain ⟨rest, rfl⟩ := List.head?_eq_some_iff.mp h.head
  obtain ⟨more, rfl⟩ := List.head?_eq_some_iff.mp hhead
  rcases prefix_or_prefix hchain h.chain with hprefix | ⟨after, hafter⟩
  · exact hprefix
  · rw [← hafter] at hnodup hchain ⊢
    cases after with
    | nil => simp
    | cons b after =>
      -- the other path would go on with a locale that the walk has not
      obtain ⟨last, hlast, hstops⟩ := h.stops
      have hstep : FallsBack edges last b :=
        (List.isChain_append.mp hchain).2.2 last hlast b rfl
      cases hstops with
      | atEnd hnone => exact absurd (hnone.symm.trans hstep) (by simp)
      | merged _ hdone => exact absurd hdone List.not_mem_nil
      | @closed c hback hmem =>
        obtain rfl : c = b := Option.some.inj (hback.symm.trans hstep)
        exact absurd rfl ((List.nodup_append.mp hnodup).2.2 c hmem c List.mem_cons_self)

end IsWalk

lemma Ends.of_reflTransGen {a b : String} (h : Relation.ReflTransGen (FallsBack edges) a b)
    (hb : Ends edges b) : Ends edges a := by
  induction h using Relation.ReflTransGen.head_induction_on with
  | refl => exact hb
  | head hstep _ ih => exact .step hstep ih

/-- Without cycles every chain stops at a locale without a fallback. -/
lemma exists_last_chain (h : cycles edges = []) (start : String) :
    ∃ last, (chain edges start).getLast? = some last ∧ next? edges last = none := by
  obtain ⟨closed, hwalk⟩ := isWalk_chain edges start
  obtain ⟨last, hlast, hstops⟩ := hwalk.stops
  cases hstops with
  | atEnd hnone => exact ⟨last, hlast, hnone⟩
  | merged _ hdone => exact absurd hdone List.not_mem_nil
  | @closed b _ hmem =>
    -- a chain that came back would have closed a cycle
    obtain ⟨a, ha⟩ := (hwalk.isPath.1.isCycle_closing hmem).transGen
    exact absurd ha (cycles_eq_nil_iff.mp h a)

/-- Following the fallbacks of a locale gives a path without a repetition that starts with the locale
and stops only at a locale without a fallback or with one that the path has already; every other path
without a repetition is a first part of it. There is no cycle exactly if the path from every key
stops at a locale without a fallback. -/
theorem chain_maximal (edges : Fallbacks) :
    (∀ start, (chain edges start).Nodup ∧ (chain edges start).head? = some start ∧
      (chain edges start).IsChain (FallsBack edges) ∧
      (∃ last, (chain edges start).getLast? = some last ∧
        (next? edges last = none ∨ ∃ b ∈ chain edges start, FallsBack edges last b)) ∧
      (chain edges start).length ≤ edges.length + 1 ∧
      ∀ path : List String, path.Nodup → path.head? = some start → path.IsChain (FallsBack edges) →
        path <+: chain edges start) ∧
    (cycles edges = [] ↔ ∀ key ∈ edges.keys,
      ∃ last, (chain edges key).getLast? = some last ∧ next? edges last = none) := by
  refine ⟨fun start => ?_, fun hnil key _ => exists_last_chain hnil key, fun hends => ?_⟩
  · obtain ⟨closed, hwalk⟩ := isWalk_chain edges start
    obtain ⟨last, hlast, hstops⟩ := hwalk.stops
    refine ⟨hwalk.nodup, hwalk.head, hwalk.chain, ⟨last, hlast, ?_⟩, hwalk.length_le,
      fun path => hwalk.prefix_of_isChain⟩
    cases hstops with
    | atEnd hnone => exact Or.inl hnone
    | merged _ hdone => exact absurd hdone List.not_mem_nil
    | closed hstep hmem => exact Or.inr ⟨_, hmem, hstep⟩
  · refine cycles_eq_nil_iff.mpr fun a hcycle => ?_
    obtain ⟨b, hstep, -⟩ := Relation.TransGen.head'_iff.mp hcycle
    obtain ⟨last, hlast, hnone⟩ := hends a (mem_keys_of_fallsBack hstep)
    obtain ⟨closed, hwalk⟩ := isWalk_chain edges a
    have hreach := hwalk.reflTransGen last (List.mem_of_getLast? hlast)
    exact (Ends.of_reflTransGen hreach (.last hnone)).not_transGen hcycle

end LocaleBundle.Locale.Fallbacks
