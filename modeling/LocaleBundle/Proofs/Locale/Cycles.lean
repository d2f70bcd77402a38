import LocaleBundle.Proofs.Locale.Fallback

/-!
# The cycles that are found

The walks from the keys, one after the other, leave a set of locales behind that no fallback leads out
of. So a later walk that closes has closed a new cycle, on which no earlier key leads, and a locale
that leads back to itself has its cycle closed by the first walk that comes to it.
-/

namespace LocaleBundle.Locale.Fallbacks

variable {edges : Fallbacks} {done path before starts : List String} {a b start : String}
  {closed : Option String}

/-! ## What a walk leaves behind -/

/-- Whether fallbacks lead from a locale to a cycle. -/
def LeadsTo (edges : Fallbacks) (a : String) (cycle : List String) : Prop :=
  ∃ b ∈ cycle, Relation.ReflTransGen (FallsBack edges) a b

/-- Whether the fallbacks of a key come to a cycle at its first locale. -/
def Enters (edges : Fallbacks) (key : String) (cycle : List String) : Prop :=
  ∃ tail a, cycle.head? = some a ∧ (tail ++ [a]).head? = some key ∧
    (tail ++ [a]).IsChain (FallsBack edges) ∧ tail.Disjoint cycle

/-- Whether a key is the first one to lead to a cycle, and enters it at its first locale. -/
structure IsFirstTo (edges : Fallbacks) (keys : List String) (key : String) (cycle : List String) :
    Prop where
  first : ∃ earlier later, keys = earlier ++ key :: later ∧ ∀ b ∈ earlier, ¬ LeadsTo edges b cycle
  enters : Enters edges key cycle

/-- Whether no fallback leads out of some locales. -/
def IsClosed (edges : Fallbacks) (codes : List String) : Prop :=
  ∀ a ∈ codes, ∀ b, FallsBack edges a b → b ∈ codes

lemma IsClosed.mem_of_reflTransGen {codes : List String} (h : IsClosed edges codes)
    (hreach : Relation.ReflTransGen (FallsBack edges) a b) (ha : a ∈ codes) : b ∈ codes := by
  induction hreach with
  | refl => exact ha
  | tail _ hstep ih => exact h _ ih _ hstep

/-- The fallback of a locale of a path is the next one of the path, unless the path ends there. -/
lemma mem_tail_of_fallsBack (hchain : path.IsChain (FallsBack edges)) (ha : a ∈ path)
    (hstep : FallsBack edges a b) : b ∈ path.tail ∨ path.getLast? = some a := by
  induction path with
  | nil => exact absurd ha List.not_mem_nil
  | cons c path ih =>
    cases path with
    | nil => exact Or.inr (congrArg some (List.mem_singleton.mp ha).symm)
    | cons d path =>
      obtain ⟨hc, hchain⟩ := List.isChain_cons_cons.mp hchain
      rcases List.mem_cons.mp ha with rfl | ha
      · obtain rfl : d = b := Option.some.inj (hc.symm.trans hstep)
        exact Or.inl List.mem_cons_self
      · rcases ih hchain ha with htail | hlast
        · exact Or.inl (List.mem_cons_of_mem d htail)
        · exact Or.inr (by rwa [List.getLast?_cons_cons])

namespace IsWalk

/-- The fallbacks of what was walked are done before, or come later in the walk, unless the walk
closes at them. -/
lemma mem_after (earlier : List String) {after : List String} {c : String}
    (h : IsWalk edges done start (earlier ++ c :: after) closed) (ha : a ∈ c :: after)
    (hstep : FallsBack edges a b) : b ∈ done ∨ b ∈ after ∨ closed = some b := by
  rcases mem_tail_of_fallsBack h.chain.right_of_append ha hstep with hafter | hend
  · exact Or.inr (Or.inl hafter)
  · obtain ⟨last, hlast, hstops⟩ := h.stops
    rw [List.getLast?_append_of_ne_nil _ (List.cons_ne_nil c after)] at hlast
    obtain rfl : a = last := Option.some.inj (hend.symm.trans hlast)
    cases hstops with
    | atEnd hnone => exact absurd (hnone.symm.trans hstep) (by simp)
    | merged hback hdone =>
      obtain rfl := Option.some.inj (hback.symm.trans hstep)
      exact Or.inl hdone
    | closed hback _ => exact Or.inr (Or.inr (hback.symm.trans hstep))

/-- No fallback leads out of what is done after a walk. -/
lemma isClosed (h : IsWalk edges done start path closed) (hdone : IsClosed edges done) :
    IsClosed edges (done ++ path) := by
  intro a ha b hstep
  rcases List.mem_append.mp ha with hold | hnew
  · exact List.mem_append_left _ (hdone a hold b hstep)
  · obtain ⟨c, after, rfl⟩ := List.exists_cons_of_ne_nil (List.ne_nil_of_mem hnew)
    rcases h.mem_after [] hnew hstep with hold | hafter | hclosed
    · exact List.mem_append_left _ hold
    · exact List.mem_append_right _ (List.mem_cons_of_mem c hafter)
    · subst hclosed
      exact List.mem_append_right _ h.isPath.2

/-- If a walk does not close before a locale, or at it, that locale does not lead back to itself: its
fallbacks are done or come after it. -/
lemma not_transGen (h : IsWalk edges done start (before ++ a :: after) closed)
    (hdone : IsClosed edges done) (hafter : ∀ b, closed = some b → b ∈ after) :
    ¬ Relation.TransGen (FallsBack edges) a a := by
  have hnext : ∀ c ∈ a :: after, ∀ b, FallsBack edges c b → b ∈ done ++ after := by
    intro c hc b hstep
    rcases h.mem_after before hc hstep with hold | hlater | hclosed
    · exact List.mem_append_left _ hold
    · exact List.mem_append_right _ hlater
    · exact List.mem_append_right _ (hafter b hclosed)
  have hrest : IsClosed edges (done ++ after) := by
    intro c hc b hstep
    rcases List.mem_append.mp hc with hold | hlater
    · exact List.mem_append_left _ (hdone c hold b hstep)
    · exact hnext c (List.mem_cons_of_mem a hlater) b hstep
  intro hcycle
  obtain ⟨b, hstep, hreach⟩ := Relation.TransGen.head'_iff.mp hcycle
  have hback := hrest.mem_of_reflTransGen hreach (hnext a List.mem_cons_self b hstep)
  rcases List.mem_append.mp hback with hold | hlater
  · exact h.new a (List.mem_append_right _ List.mem_cons_self) hold
  · exact (List.nodup_cons.mp (List.nodup_append.mp h.nodup).2.1).1 hlater

/-- A locale of a walk that leads back to itself is on the cycle that the walk closes. -/
lemma exists_closing (h : IsWalk edges done start path closed) (hdone : IsClosed edges done)
    (ha : a ∈ path) (hcycle : Relation.TransGen (FallsBack edges) a a) :
    ∃ b, closed = some b ∧ a ∈ closing path b := by
  obtain ⟨before, after, rfl⟩ := List.append_of_mem ha
  obtain ⟨b, rfl, hb⟩ : ∃ b, closed = some b ∧ b ∉ after := by
    by_contra hnot
    push Not at hnot
    exact h.not_transGen hdone hnot hcycle
  refine ⟨b, rfl, ?_⟩
  -- so the walk came back to a locale before the given one, or to that one
  rcases List.mem_append.mp h.isPath.2 with hbefore | hrest
  · obtain ⟨first, second, rfl⟩ := List.append_of_mem hbefore
    have hnodup := (List.nodup_append.mp (List.nodup_append.mp h.nodup).1).2.2
    rw [List.append_assoc, List.cons_append,
      closing_append fun hfirst => hnodup b hfirst b List.mem_cons_self rfl]
    simp
  · obtain rfl : b = a := (List.mem_cons.mp hrest).resolve_right hb
    have hnodup := (List.nodup_append.mp h.nodup).2.2
    rw [closing_append fun hbefore => hnodup b hbefore b List.mem_cons_self rfl]
    exact List.mem_cons_self

/-- The walk enters the cycle that it closes at the first locale of it. -/
lemma enters_closing (h : IsWalk edges done start path (some b)) :
    Enters edges start (closing path b) := by
  obtain ⟨tail, after, rfl⟩ := List.append_of_mem h.isPath.2
  have hnodup := (List.nodup_append.mp h.nodup).2.2
  have hhead := h.head
  have hchain := h.chain
  rw [List.append_cons] at hhead hchain
  rw [closing_append fun htail => hnodup b htail b List.mem_cons_self rfl]
  refine ⟨tail, b, rfl, ?_, hchain.left_of_append, ?_⟩
  · rwa [List.head?_append_of_ne_nil _ (by simp)] at hhead
  · intro c hc hmem
    rcases List.mem_append.mp hmem with hcycle | hlast
    · exact hnodup c hc c hcycle rfl
    · exact hnodup c hc b List.mem_cons_self (List.mem_singleton.mp hlast)

lemma mem_of_mem_closing (h : IsWalk edges done start path (some b)) (ha : a ∈ closing path b) :
    a ∈ path := by
  rcases List.mem_append.mp ha with hdrop | hlast
  · exact (List.dropWhile_sublist _).mem hdrop
  · rw [List.mem_singleton.mp hlast]
    exact h.isPath.2

end IsWalk

/-! ## All walks -/

/-- The cycles that are found from some keys when those before them have been walked: they are not
among what is done, no two of them share a locale, every locale that leads back to itself is done or
found from the key that leads to it, and each cycle belongs to the first key that leads to it. -/
structure FindsAll (edges : Fallbacks) (done before starts : List String)
    (cycles : List (List String)) : Prop where
  new : ∀ cycle ∈ cycles, cycle.Disjoint done
  disjoint : cycles.Pairwise List.Disjoint
  complete : ∀ start ∈ starts, Relation.TransGen (FallsBack edges) start start →
    start ∈ done ∨ ∃ cycle ∈ cycles, start ∈ cycle
  firsts : ∃ keys : List String, keys.Sublist starts ∧
    List.Forall₂ (IsFirstTo edges (before ++ starts)) keys cycles

namespace FindsAll

variable {cycles : List (List String)}

/-- A key that is done is passed over. -/
lemma skip (h : FindsAll edges done (before ++ [start]) starts cycles) (hstart : start ∈ done) :
    FindsAll edges done before (start :: starts) cycles := by
  obtain ⟨keys, hsub, hfirsts⟩ := h.firsts
  rw [← List.append_cons] at hfirsts
  exact ⟨h.new, h.disjoint, List.forall_mem_cons.mpr ⟨fun _ => Or.inl hstart, h.complete⟩,
    keys, hsub.cons _, hfirsts⟩

/-- A walk that does not close finds nothing, and there was nothing to find. -/
lemma merge (h : FindsAll edges (done ++ path) (before ++ [start]) starts cycles)
    (hwalk : IsWalk edges done start path none) (hdone : IsClosed edges done) :
    FindsAll edges done before (start :: starts) cycles := by
  have hnone : ∀ a ∈ path, ¬ Relation.TransGen (FallsBack edges) a a := by
    intro a ha hcycle
    obtain ⟨b, hb, -⟩ := hwalk.exists_closing hdone ha hcycle
    exact absurd hb (by simp)
  obtain ⟨keys, hsub, hfirsts⟩ := h.firsts
  rw [← List.append_cons] at hfirsts
  refine ⟨fun cycle hcycle => (List.disjoint_append_right.mp (h.new cycle hcycle)).1, h.disjoint,
    List.forall_mem_cons.mpr ⟨fun hcycle => ?_, fun a ha hcycle => ?_⟩, keys, hsub.cons _, hfirsts⟩
  · exact absurd hcycle (hnone start (List.mem_of_mem_head? hwalk.head))
  · rcases h.complete a ha hcycle with hmem | hfound
    · exact Or.inl ((List.mem_append.mp hmem).resolve_right fun hpath => hnone a hpath hcycle)
    · exact Or.inr hfound

/-- A walk that closes finds the one cycle that it leads to, and is the first to lead there. -/
lemma close (h : FindsAll edges (done ++ path) (before ++ [start]) starts cycles)
    (hwalk : IsWalk edges done start path (some b)) (hdone : IsClosed edges done)
    (hbefore : before ⊆ done) :
    FindsAll edges done before (start :: starts) (closing path b :: cycles) := by
  have hnew : (closing path b).Disjoint done :=
    fun a ha hold => hwalk.new a (hwalk.mem_of_mem_closing ha) hold
  have hothers : ∀ cycle ∈ cycles, cycle.Disjoint done ∧ cycle.Disjoint path :=
    fun cycle hcycle => List.disjoint_append_right.mp (h.new cycle hcycle)
  have hfound : ∀ a ∈ path, Relation.TransGen (FallsBack edges) a a → a ∈ closing path b := by
    intro a ha hcycle
    obtain ⟨c, hc, hmem⟩ := hwalk.exists_closing hdone ha hcycle
    rwa [Option.some.inj hc]
  -- the keys before it are done, and so is all that they lead to
  have hfirst : ∀ key ∈ before, ¬ LeadsTo edges key (closing path b) := by
    rintro key hkey ⟨a, ha, hreach⟩
    exact hnew ha (hdone.mem_of_reflTransGen hreach (hbefore hkey))
  obtain ⟨keys, hsub, hfirsts⟩ := h.firsts
  rw [← List.append_cons] at hfirsts
  refine ⟨List.forall_mem_cons.mpr ⟨hnew, fun cycle hcycle => (hothers cycle hcycle).1⟩,
    List.pairwise_cons.mpr ⟨fun cycle hcycle a ha hmem => ?_, h.disjoint⟩,
    List.forall_mem_cons.mpr ⟨fun hcycle => ?_, fun a ha hcycle => ?_⟩, start :: keys,
    hsub.cons_cons start, .cons ⟨⟨before, starts, rfl, hfirst⟩, hwalk.enters_closing⟩ hfirsts⟩
  · exact (hothers cycle hcycle).2 hmem (hwalk.mem_of_mem_closing ha)
  · exact Or.inr ⟨_, List.mem_cons_self, hfound start (List.mem_of_mem_head? hwalk.head) hcycle⟩
  · rcases h.complete a ha hcycle with hmem | ⟨cycle, hcycles, hmem⟩
    · rcases List.mem_append.mp hmem with hold | hpath
      · exact Or.inl hold
      · exact Or.inr ⟨_, List.mem_cons_self, hfound a hpath hcycle⟩
    · exact Or.inr ⟨cycle, List.mem_cons_of_mem _ hcycles, hmem⟩

end FindsAll

lemma findsAll_cyclesFrom (hdone : IsClosed edges done) (hbefore : before ⊆ done) :
    FindsAll edges done before starts (cyclesFrom edges done starts) := by
  induction starts generalizing done before with
  | nil => exact ⟨by simp [cyclesFrom], by simp [cyclesFrom], by simp, [], .slnil, .nil⟩
  | cons start starts ih =>
    rw [cyclesFrom]
    by_cases hstart : start ∈ done
    · have hwalked : before ++ [start] ⊆ done :=
        List.append_subset.mpr ⟨hbefore, List.cons_subset.mpr ⟨hstart, List.nil_subset _⟩⟩
      rw [if_pos hstart]
      exact (ih hdone hwalked).skip hstart
    · have hwalk := isWalk_walk edges hstart
      rw [if_neg hstart]
      rcases heq : walk edges done (edges.length + 2) [] start with ⟨path, closed⟩
      rw [heq] at hwalk
      have hpath : start ∈ done ++ path :=
        List.mem_append_right _ (List.mem_of_mem_head? hwalk.head)
      have hwalked : before ++ [start] ⊆ done ++ path :=
        List.append_subset.mpr ⟨List.subset_append_of_subset_left _ hbefore,
          List.cons_subset.mpr ⟨hpath, List.nil_subset _⟩⟩
      have hrest := ih (hwalk.isClosed hdone) hwalked
      cases closed with
      | none => exact hrest.merge hwalk hdone
      | some b => exact hrest.close hwalk hdone hbefore

/-- The search for cycles makes walks that stop by themselves, and finds every cycle once. What it
finds are closed paths of fallbacks, their first locale again at the end and the others each once.
No two of them share a locale, and every locale that leads back to itself is on one and only one. They
are in the order in which the keys first lead to them, and each starts where the fallbacks of that
first key come to it. -/
theorem cycles_spec (edges : Fallbacks) :
    (∀ (done : List String) (start : String), start ∉ done →
      IsWalk edges done start (walk edges done (edges.length + 2) [] start).1
        (walk edges done (edges.length + 2) [] start).2) ∧
    (∀ cycle ∈ cycles edges, IsCycle edges cycle) ∧
    (cycles edges).Pairwise List.Disjoint ∧
    (∀ a, Relation.TransGen (FallsBack edges) a a → ∃! cycle, cycle ∈ cycles edges ∧ a ∈ cycle) ∧
    ∃ firsts : List String, firsts.Sublist edges.keys ∧
      List.Forall₂ (IsFirstTo edges edges.keys) firsts (cycles edges) := by
  have hclosed : IsClosed edges [] := fun a ha => absurd ha List.not_mem_nil
  have hfinds : FindsAll edges [] [] edges.keys (cycles edges) :=
    findsAll_cyclesFrom hclosed (List.nil_subset _)
  refine ⟨fun done start => isWalk_walk edges, fun cycle => isCycle_of_mem_cycles, hfinds.disjoint,
    fun a ha => ?_, hfinds.firsts⟩
  obtain ⟨b, hstep, -⟩ := Relation.TransGen.head'_iff.mp ha
  obtain ⟨cycle, hcycle, hmem⟩ :=
    (hfinds.complete a (mem_keys_of_fallsBack hstep) ha).resolve_left List.not_mem_nil
  refine ⟨cycle, ⟨hcycle, hmem⟩, ?_⟩
  rintro other ⟨hother, hmem'⟩
  by_contra hne
  have hsymm : Std.Symm (List.Disjoint (α := String)) := ⟨fun _ _ h _ hc hb => h hb hc⟩
  exact hfinds.disjoint.forall hother hcycle hne hmem' hmem

end LocaleBundle.Locale.Fallbacks
