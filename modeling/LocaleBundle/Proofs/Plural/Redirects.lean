import LocaleBundle.Proofs.Plural.Walk
import Mathlib.Logic.Relation

/-!
# Tables without a cycle of redirects

Where no redirect leads back to its match key, redirects end: at a template, or at an entry that names
a match key the table does not have. The walk then falls back to the wildcard, once, and that is not a
redirect, so it may still come back to where it has been: if the redirects of the wildcard run into
those it has come by. `Course` follows a walk up to the fallback and past it; what is selected is read
off where the redirects of the start and of the wildcard end.
-/

namespace LocaleBundle

namespace Plural

namespace Table

open Text

variable {table : Table} {first current key target last other s : String} {read : List String}

/-! ## Redirects and where they end -/

/-- Whether the entry of a match key is a redirect to another that the table has. -/
def Redirects (table : Table) (key target : String) : Prop :=
  ∃ n, Entries.get? key table = some (.int n) ∧ target = Numeral.text n ∧
    target ∈ Entries.keys table

/-- Whether no sequence of redirects leads from a match key back to it. -/
def IsAcyclic (table : Table) : Prop := ∀ key, ¬ Relation.TransGen table.Redirects key key

/-- Whether redirects lead from a match key to another, or to itself without any. -/
abbrev Reaches (table : Table) : String → String → Prop := Relation.ReflTransGen table.Redirects

/-- Whether the entry of a match key is a redirect to one that the table does not have. -/
def Loses (table : Table) (key : String) : Prop :=
  ∃ n, Entries.get? key table = some (.int n) ∧ Numeral.text n ∉ Entries.keys table

/-- Whether the redirects from a match key end at a template. -/
def LeadsTo (table : Table) (key s : String) : Prop :=
  ∃ last, table.Reaches key last ∧ Entries.get? last table = some (.text s)

/-- Whether the redirects from a match key end at `last`, whose own names none of the table. -/
def LosesAt (table : Table) (key last : String) : Prop := table.Reaches key last ∧ table.Loses last

lemma redirects_unique : Relator.RightUnique table.Redirects := by
  rintro key _ _ ⟨n, hn, rfl, -⟩ ⟨m, hm, rfl, -⟩
  obtain rfl : n = m := by simpa using hn.symm.trans hm
  rfl

lemma not_redirects_of_text (h : Entries.get? key table = some (.text s)) :
    ¬ table.Redirects key target := by
  rintro ⟨n, hn, -⟩
  exact absurd (h.symm.trans hn) (by simp)

lemma Loses.not_redirects (h : table.Loses key) : ¬ table.Redirects key target := by
  obtain ⟨n, hn, habsent⟩ := h
  rintro ⟨m, hm, rfl, hthere⟩
  obtain rfl : n = m := by simpa using hn.symm.trans hm
  exact habsent hthere

/-- Where no redirect leads on, redirects end. -/
lemma Reaches.eq_of_end (h : table.Reaches key target) (hend : ∀ b, ¬ table.Redirects key b) :
    target = key := by
  rcases Relation.ReflTransGen.cases_head h with rfl | ⟨b, hstep, -⟩
  · rfl
  · exact absurd hstep (hend b)

/-- Redirects that end have the same end from all that they come by. -/
lemma Reaches.reaches_end (h : table.Reaches first key) (hlast : table.Reaches first last)
    (hend : ∀ b, ¬ table.Redirects last b) : table.Reaches key last := by
  rcases Relation.ReflTransGen.total_of_right_unique redirects_unique h hlast with hon | hback
  · exact hon
  · rw [Reaches.eq_of_end hback hend]

lemma LosesAt.unique (h : table.LosesAt key last) (h' : table.LosesAt key other) : last = other := by
  have hreach := Reaches.reaches_end h.1 h'.1 fun _ => h'.2.not_redirects
  exact (Reaches.eq_of_end hreach fun _ => h.2.not_redirects).symm

lemma LeadsTo.unique {s' : String} (h : table.LeadsTo key s) (h' : table.LeadsTo key s') : s = s' := by
  obtain ⟨last, hlast, hs⟩ := h
  obtain ⟨other, hother, hs'⟩ := h'
  have hreach := Reaches.reaches_end hlast hother fun _ => not_redirects_of_text hs'
  obtain rfl := Reaches.eq_of_end hreach fun _ => not_redirects_of_text hs
  simpa using hs.symm.trans hs'

lemma LeadsTo.not_losesAt (h : table.LeadsTo key s) : ¬ table.LosesAt key last := by
  intro hloses
  obtain ⟨other, hother, hs⟩ := h
  have hreach := Reaches.reaches_end hother hloses.1 fun _ => hloses.2.not_redirects
  obtain rfl := Reaches.eq_of_end hreach fun _ => not_redirects_of_text hs
  obtain ⟨n, hn, -⟩ := hloses.2
  exact absurd (hs.symm.trans hn) (by simp)

/-- From a match key that the table does not have, redirects lead nowhere. -/
lemma Reaches.mem_keys (h : table.Reaches key last) (hlast : last ∈ Entries.keys table) :
    key ∈ Entries.keys table := by
  rcases Relation.ReflTransGen.cases_head h with rfl | ⟨b, ⟨n, hn, -⟩, -⟩
  · exact hlast
  · exact Entries.mem_keys_of_get? hn

lemma LosesAt.mem_keys (h : table.LosesAt key last) : key ∈ Entries.keys table := by
  obtain ⟨hreach, n, hn, -⟩ := h
  exact Reaches.mem_keys hreach (Entries.mem_keys_of_get? hn)

lemma LeadsTo.mem_keys (h : table.LeadsTo key s) : key ∈ Entries.keys table := by
  obtain ⟨last, hreach, hs⟩ := h
  exact Reaches.mem_keys hreach (Entries.mem_keys_of_get? hs)

/-- If all that redirects lead to is lost, there is no cycle. -/
lemma isAcyclic_of_loses (h : ∀ key n, (key, Value.int n) ∈ table →
    Numeral.text n ∈ Entries.keys table → table.Loses (Numeral.text n)) : table.IsAcyclic := by
  intro key hcycle
  obtain ⟨b, ⟨n, hn, rfl, hthere⟩, hreach⟩ := Relation.TransGen.head'_iff.mp hcycle
  have hloses := h key n (Entries.mem_of_get? hn) hthere
  obtain rfl := Reaches.eq_of_end hreach fun _ => hloses.not_redirects
  exact hloses.not_redirects ⟨n, hn, rfl, hthere⟩

/-! ## The course of a walk -/

/-- Where a walk is when it has read `read`. It has come along the redirects of its start, and has the
rest of them ahead. Or it has read them all to where they lose themselves, has gone on at the wildcard
and come along the redirects of that. -/
inductive Course (table : Table) (first : String) (read : List String) (current : String) : Prop
  | direct (hreach : ∀ key, table.Reaches first key ↔ key ∈ read ∨ table.Reaches current key)
    (hback : ∀ key ∈ read, Relation.TransGen table.Redirects key current)
  | fallen {last : String} (hloses : table.LosesAt first last)
    (hapart : ¬ table.Reaches first wildcard) (hwild : table.Reaches wildcard current)
    (hseen : wildcard ∈ read ++ [current]) (hreach : ∀ key, table.Reaches first key → key ∈ read)
    (hback : ∀ key ∈ read, table.Reaches first key ∨ Relation.TransGen table.Redirects key current)

namespace Course

/-- A redirect goes on along the redirects of the start, or of the wildcard. -/
lemma redirect (h : Course table first read current) (hstep : table.Redirects current target) :
    Course table first (read ++ [current]) target := by
  have hon : ∀ key, Relation.TransGen table.Redirects key current → Relation.TransGen table.Redirects key target :=
    fun key hkey => hkey.tail hstep
  cases h with
  | direct hreach hback =>
    -- a match key has one redirect, so what lay ahead is `current` and what lies ahead of `target`
    have hnext : ∀ key, table.Reaches current key ↔ key = current ∨ table.Reaches target key := by
      intro key
      refine ⟨fun hkey => ?_, ?_⟩
      · rcases Relation.ReflTransGen.cases_head hkey with rfl | ⟨b, hb, hkey⟩
        · exact Or.inl rfl
        · rw [redirects_unique hb hstep] at hkey
          exact Or.inr hkey
      · rintro (rfl | hkey)
        · exact .refl
        · exact hkey.head hstep
    refine .direct (fun key => ?_) (List.forall_mem_append.mpr ⟨?_, ?_⟩)
    · rw [hreach, hnext, List.mem_append, List.mem_singleton, or_assoc]
    · exact fun key hkey => hon key (hback key hkey)
    · exact List.forall_mem_singleton.mpr (.single hstep)
  | fallen hloses hapart hwild hseen hreach hback =>
    refine .fallen hloses hapart (hwild.tail hstep) (List.mem_append_left _ hseen)
      (fun key hkey => List.mem_append_left _ (hreach key hkey))
      (List.forall_mem_append.mpr ⟨?_, ?_⟩)
    · exact fun key hkey => (hback key hkey).imp_right (hon key)
    · exact List.forall_mem_singleton.mpr (Or.inr (.single hstep))

/-- A redirect that is lost is the end of the start's redirects if the wildcard has not been read. -/
lemma fallBack (h : Course table first read current) (hloses : table.Loses current)
    (hnew : wildcard ∉ read ++ [current]) :
    Course table first (read ++ [current]) wildcard := by
  cases h with
  | direct hreach hback =>
    have hread : ∀ key, table.Reaches first key → key ∈ read ++ [current] := by
      intro key hkey
      rcases (hreach key).mp hkey with hold | hnext
      · exact List.mem_append_left _ hold
      · rw [Reaches.eq_of_end hnext fun _ => hloses.not_redirects]
        exact List.mem_append_right _ List.mem_cons_self
    have hcurrent : table.Reaches first current := (hreach current).mpr (Or.inr .refl)
    refine .fallen ⟨hcurrent, hloses⟩ (fun hwild => hnew (hread _ hwild)) .refl
      (List.mem_append_right _ List.mem_cons_self) hread (List.forall_mem_append.mpr ⟨?_, ?_⟩)
    · exact fun key hkey => Or.inl ((hreach key).mpr (Or.inl hkey))
    · exact List.forall_mem_singleton.mpr (Or.inl hcurrent)
  | fallen _ _ _ hseen _ _ => exact absurd hseen hnew

end Course

/-- Every walk keeps to its course. -/
lemma Walk.course (h : Walk table first read current) : Course table first read current := by
  induction h with
  | start => exact .direct (by simp) (List.forall_mem_nil _)
  | step _ _ hentry hgoes ih =>
    cases hgoes with
    | target hthere => exact ih.redirect ⟨_, hentry, rfl, hthere⟩
    | wildcard habsent _ hnew => exact ih.fallBack ⟨_, hentry, habsent⟩ hnew

/-! ## What is selected -/

/-- Whether the redirects of a start, which do not come by the wildcard, and those of the wildcard end
in the same redirect to nowhere. -/
def RunsIntoWildcard (table : Table) (first : String) : Prop :=
  ¬ table.Reaches first wildcard ∧ ∃ last, table.LosesAt first last ∧ table.LosesAt wildcard last

/-- What a search comes to from a match key, by where the redirects of that and of the wildcard end. -/
inductive Outcome (table : Table) (first : String) : Except Error (Option String) → Prop
  | found {s : String} (hleads : table.LeadsTo first s) : Outcome table first (.ok (some s))
  | lost {last : String} (hloses : table.LosesAt first last)
    (hwild : wildcard ∉ Entries.keys table ∨ table.Reaches first wildcard) :
    Outcome table first (.ok none)
  | fallen {last s : String} (hloses : table.LosesAt first last)
    (hapart : ¬ table.Reaches first wildcard) (hleads : table.LeadsTo wildcard s) :
    Outcome table first (.ok (some s))
  | lostTwice {last other : String} (hloses : table.LosesAt first last)
    (hapart : ¬ table.Reaches first wildcard) (hother : table.LosesAt wildcard other)
    (hne : other ≠ last) : Outcome table first (.ok none)
  | back {path : List String} (hruns : table.RunsIntoWildcard first) :
    Outcome table first (.error (.fault (.redirectCycle path)))

section

variable {result : Except Error (Option String)} {value : Value} {locale : Option String}

/-- Without a cycle, a walk comes back only past the wildcard, and to a match key of its start's
redirects. -/
lemma Ends.outcome (hacyclic : table.IsAcyclic) (h : Ends table (some first) read result) :
    Outcome table first result := by
  cases h with
  | template hwalk _ hentry =>
    cases hwalk.course with
    | direct hreach _ => exact .found ⟨_, (hreach _).mpr (Or.inr .refl), hentry⟩
    | fallen hloses hapart hwild _ _ _ => exact .fallen hloses hapart ⟨_, hwild, hentry⟩
  | @lost _ current read n hwalk hnew hentry hlost =>
    have hloses : table.Loses current := ⟨n, hentry, hlost.1⟩
    cases hwalk.course with
    | direct hreach _ =>
      refine .lost ⟨(hreach _).mpr (Or.inr .refl), hloses⟩ (hlost.2.imp_right fun hread => ?_)
      rcases List.mem_append.mp hread with hold | hcurrent
      · exact (hreach _).mpr (Or.inl hold)
      · rw [List.mem_singleton.mp hcurrent]
        exact (hreach _).mpr (Or.inr .refl)
    | @fallen last hfirst hapart hwild _ hreach _ =>
      have hne : current ≠ last := fun heq => hnew (heq ▸ hreach last hfirst.1)
      exact .lostTwice hfirst hapart ⟨hwild, hloses⟩ hne
  | @cycle _ current read hwalk hmem =>
    cases hwalk.course with
    | direct _ hback => exact absurd (hback current hmem) (hacyclic current)
    | @fallen last hfirst hapart hwild _ _ hback =>
      -- the walk came by `current` before it fell back, so its redirects end as those of the start do
      have hcurrent := (hback current hmem).resolve_right (hacyclic current)
      have hon := Reaches.reaches_end hcurrent hfirst.1 fun _ => hfirst.2.not_redirects
      exact .back ⟨hapart, last, hfirst, hwild.trans hon, hfirst.2⟩

namespace Outcome

variable (h : Outcome table first result)

include h

lemma exists_end : (∃ s, table.LeadsTo first s) ∨ ∃ last, table.LosesAt first last := by
  cases h with
  | found hleads => exact Or.inl ⟨_, hleads⟩
  | lost hloses _ => exact Or.inr ⟨_, hloses⟩
  | fallen hloses _ _ => exact Or.inr ⟨_, hloses⟩
  | lostTwice hloses _ _ _ => exact Or.inr ⟨_, hloses⟩
  | back hruns =>
    obtain ⟨-, last, hloses, -⟩ := hruns
    exact Or.inr ⟨last, hloses⟩

lemma of_leadsTo (hleads : table.LeadsTo first s) : result = .ok (some s) := by
  cases h with
  | found hleads' => rw [hleads.unique hleads']
  | lost hloses _ => exact absurd hloses hleads.not_losesAt
  | fallen hloses _ _ => exact absurd hloses hleads.not_losesAt
  | lostTwice hloses _ _ _ => exact absurd hloses hleads.not_losesAt
  | back hruns =>
    obtain ⟨-, last, hloses, -⟩ := hruns
    exact absurd hloses hleads.not_losesAt

lemma of_losesAt (hloses : table.LosesAt first last) (hwild : table.Reaches first wildcard) :
    result = .ok none := by
  cases h with
  | found hleads => exact absurd hloses hleads.not_losesAt
  | lost _ _ => rfl
  | fallen _ hapart _ => exact absurd hwild hapart
  | lostTwice _ _ _ _ => rfl
  | back hruns => exact absurd hwild hruns.1

lemma exists_error_iff : (∃ e, result = .error e) ↔ table.RunsIntoWildcard first := by
  constructor
  · rintro ⟨e, he⟩
    cases h with
    | back hruns => exact hruns
    | found | lost | fallen | lostTwice => exact absurd he (by simp)
  · rintro ⟨hapart, last, hloses, hlast⟩
    cases h with
    | found hleads => exact absurd hloses hleads.not_losesAt
    | lost _ hwild => exact absurd hwild (not_or.mpr ⟨not_not.mpr hlast.mem_keys, hapart⟩)
    | fallen _ _ hleads => exact absurd hlast hleads.not_losesAt
    | lostTwice hloses' _ hother hne =>
      exact absurd ((hother.unique hlast).trans (hloses.unique hloses')) hne
    | back _ => exact ⟨_, rfl⟩

end Outcome

variable [Cldr]

/-- Without a locale a search starts without a failure, and nothing is logged. -/
lemma exists_start (table : Table) (value : Value) :
    ∃ start?, table.start value none = Logged.ok start? := by
  simp only [start, startAmong]
  -- null, a match key of the table, and any other value
  split
  · exact ⟨_, rfl⟩
  · split
    · exact ⟨_, rfl⟩
    · exact ⟨_, rfl⟩

lemma start_null (hwild : wildcard ∈ Entries.keys table) :
    (table.start .null locale).result = .ok (some wildcard) := by
  simp only [start, startAmong, if_pos (Entries.contains_iff_mem_keys.mpr hwild)]
  rfl

lemma select_of_start_none (hstart : (table.start value locale).result = .ok none) :
    (table.select value locale).result = .ok none :=
  (select_of_ends hstart .noStart).1

lemma select_null_of_notMem (hwild : wildcard ∉ Entries.keys table) :
    (table.select .null locale).result = .ok none := by
  refine select_of_start_none ?_
  simp only [start, startAmong, if_neg (mt Entries.contains_iff_mem_keys.mp hwild)]
  rfl

lemma outcome_select (hcases : table.HasCases) (hacyclic : table.IsAcyclic)
    (hstart : (table.start value locale).result = .ok (some first)) :
    Outcome table first (table.select value locale).result := by
  obtain ⟨read, result, hends⟩ := exists_ends hcases hstart
  rw [(select_of_ends hstart hends).1]
  exact hends.outcome hacyclic

/-- A search that is lost selects what null does, unless the wildcard has been read or its redirects
are lost at the same place. -/
lemma Outcome.eq_select_null (hcases : table.HasCases) (hacyclic : table.IsAcyclic)
    (h : Outcome table first result) (hloses : table.LosesAt first last)
    (hapart : ¬ table.Reaches first wildcard) (hwild : ¬ table.LosesAt wildcard last) :
    result = (table.select .null locale).result := by
  cases h with
  | found hleads => exact absurd hloses hleads.not_losesAt
  | lost _ hreach => exact (select_null_of_notMem (hreach.resolve_right hapart)).symm
  | fallen _ _ hleads =>
    exact ((outcome_select hcases hacyclic (start_null hleads.mem_keys)).of_leadsTo hleads).symm
  | lostTwice _ _ hother _ =>
    exact ((outcome_select hcases hacyclic (start_null hother.mem_keys)).of_losesAt hother .refl).symm
  | back hruns =>
    obtain ⟨-, other, hother, hlast⟩ := hruns
    rw [hother.unique hloses] at hlast
    exact absurd hlast hwild

/-- In a table of templates and redirects without a cycle, the redirects from where a search starts
end, at a template or in one to nowhere. The template is selected. A search that is lost selects what
null does, or nothing if it has come by the wildcard. It fails in one case only: if it is lost and the
redirects of the wildcard run into its own, it comes back to a match key, which counts as a cycle. -/
theorem select_of_acyclic (hcases : table.HasCases) (hacyclic : table.IsAcyclic) (value : Value) :
    ∃ start?, table.start value none = Logged.ok start? ∧
      (start? = none → (table.select value none).result = .ok none) ∧
      (∀ e, (table.select value none).result = .error e →
        ∃ path, e = .fault (.redirectCycle path)) ∧
      ((∃ e, (table.select value none).result = .error e) ↔
        ∃ first ∈ start?, table.RunsIntoWildcard first) ∧
      ∀ first ∈ start?,
        ((∃ s, table.LeadsTo first s) ∨ ∃ last, table.LosesAt first last) ∧
        (∀ s, table.LeadsTo first s → (table.select value none).result = .ok (some s)) ∧
        ∀ last, table.LosesAt first last →
          (table.Reaches first wildcard → (table.select value none).result = .ok none) ∧
          (¬ table.Reaches first wildcard → ¬ table.LosesAt wildcard last →
            (table.select value none).result = (table.select .null none).result) := by
  obtain ⟨start?, hlogged⟩ := exists_start table value
  have hstart : (table.start value none).result = .ok start? := by rw [hlogged]; rfl
  refine ⟨start?, hlogged, ?_⟩
  cases start? with
  | none =>
    have hnone := select_of_start_none hstart
    refine ⟨fun _ => hnone, ?_, ?_, fun first hfirst => absurd hfirst (by simp)⟩
    · exact fun e he => absurd (hnone.symm.trans he) (by simp)
    · simp [hnone]
  | some first =>
    have hout := outcome_select hcases hacyclic hstart
    refine ⟨fun hnone => absurd hnone (by simp), ?_, ?_, ?_⟩
    · intro e he
      rw [he] at hout
      cases hout with
      | back => exact ⟨_, rfl⟩
    · rw [hout.exists_error_iff]
      simp
    · intro other hother
      obtain rfl := Option.some.inj hother
      refine ⟨hout.exists_end, fun s hleads => hout.of_leadsTo hleads, fun last hloses => ⟨?_, ?_⟩⟩
      · exact hout.of_losesAt hloses
      · exact hout.eq_select_null hcases hacyclic hloses

end

/-- A redirect to another that is lost, and a template under the wildcard. -/
def detour : Table := [("1", .int 2), ("2", .int 9), ("*", .text "many")]

theorem select_of_acyclic_detour : detour.HasCases ∧ detour.IsAcyclic ∧
    (detour.select (.int 1) none).result = .ok (some "many") := by
  have hcases : detour.HasCases := by simp [HasCases, detour]
  have hlost : detour.Loses "2" := ⟨9, rfl, by decide⟩
  have hwild : detour.LeadsTo wildcard "many" := ⟨wildcard, .refl, rfl⟩
  have hacyclic : detour.IsAcyclic := by
    refine isAcyclic_of_loses fun key n hmem hthere => ?_
    simp only [detour, List.mem_cons, Prod.mk.injEq, Value.int.injEq, reduceCtorEq, and_false,
      List.not_mem_nil, or_false] at hmem
    obtain ⟨-, rfl⟩ | ⟨-, rfl⟩ := hmem
    · exact hlost
    · exact absurd hthere (by decide)
  have hloses : detour.LosesAt "1" "2" := ⟨.single ⟨2, rfl, rfl, by decide⟩, hlost⟩
  have hapart : ¬ detour.Reaches "1" wildcard := fun hreach => hwild.not_losesAt
    ⟨Reaches.reaches_end hreach hloses.1 fun _ => hlost.not_redirects, hlost⟩
  obtain ⟨start?, hstart, -, -, -, hfirst⟩ := select_of_acyclic hcases hacyclic (.int 1)
  obtain rfl : some "1" = start? := Except.ok.inj (congrArg Logged.result hstart)
  exact ⟨hcases, hacyclic, ((hfirst "1" rfl).2.2 "2" hloses).2 hapart hwild.not_losesAt⟩

/-- A wildcard that leads back to a redirect that is lost makes no cycle of redirects, and still a
search fails with one, as it comes back. A search that starts at the wildcard does not. -/
theorem select_roundabout : roundabout.HasCases ∧ roundabout.IsAcyclic ∧
    (roundabout.select (.int 1) none).result = .error (.fault (.redirectCycle ["1", "*", "1"])) ∧
    (roundabout.select (.int 4) none).result = .ok none := by
  have hlost : roundabout.Loses "1" := ⟨7, rfl, by decide⟩
  have hacyclic : roundabout.IsAcyclic := by
    refine isAcyclic_of_loses fun key n hmem hthere => ?_
    simp only [roundabout, List.mem_cons, Prod.mk.injEq, Value.int.injEq, List.not_mem_nil,
      or_false] at hmem
    obtain ⟨-, rfl⟩ | ⟨-, rfl⟩ := hmem
    · exact absurd hthere (by decide)
    · exact hlost
  exact ⟨by simp [HasCases, roundabout], hacyclic, rfl, rfl⟩

end Table

end Plural

end LocaleBundle
