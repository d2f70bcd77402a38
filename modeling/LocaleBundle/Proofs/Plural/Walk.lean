import LocaleBundle.Plural.Rules
import LocaleBundle.Plural.Table
import LocaleBundle.Proofs.Entries
import LocaleBundle.Proofs.Logged
import Mathlib.Data.List.Dedup
import Mathlib.Data.List.Perm.Subperm

/-!
# The walk along redirects

Where a search starts, and how its redirects go on, a table lays down one walk: from match key to match
key, each read once, until a template is read, a redirect is lost, or the walk comes back to a match
key. `Walk` is that walk and `Ends` its end; what `select` gives is read off the end, and its log has
a line for each redirect on the way.
-/

namespace LocaleBundle

namespace Plural

/-! ## Where a search starts -/

section

variable {isThere : String → Bool} {value : Value} {locale start? : Option String}

/-- Whether the match key at which a search starts is there, if it starts at one, and it does wherever
the wildcard is there. -/
def IsStart (isThere : String → Bool) (start? : Option String) : Prop :=
  (∀ first ∈ start?, isThere first = true) ∧ (start? = none → isThere wildcard = false)

lemma isStart_some {first : String} (h : isThere first = true) : IsStart isThere (some first) := by
  refine ⟨fun other hother => ?_, fun hnone => absurd hnone (by simp)⟩
  rwa [← Option.some.inj hother]

lemma isStart_otherwise (isThere : String → Bool) :
    IsStart isThere (if isThere wildcard then some wildcard else none) := by
  cases hwild : isThere wildcard with
  | true => exact isStart_some hwild
  | false => exact ⟨fun first hfirst => absurd hfirst (by simp), fun _ => hwild⟩

variable [Cldr]

lemma isStart_startAmong (h : (startAmong isThere value locale).result = .ok start?) :
    IsStart isThere start? := by
  have hotherwise := isStart_otherwise isThere
  simp only [startAmong] at h
  -- null, a match key of the table, no locale, a number and its category, and no number
  split at h
  · rwa [← Except.ok.inj h]
  · split at h
    · rename_i hthere
      rw [← Except.ok.inj h]
      exact isStart_some hthere
    · split at h
      · rwa [← Except.ok.inj h]
      · split at h
        · obtain ⟨category, -, hcategory⟩ := Logged.exists_of_bind_result h
          split at hcategory
          · rename_i hthere
            rw [← Except.ok.inj hcategory]
            exact isStart_some hthere
          · rwa [← Except.ok.inj hcategory]
        · rwa [← Except.ok.inj h]

end

namespace Table

open Text

variable {table : Table} {first current next template : String} {read : List String} {n : Int}

/-! ## Walks -/

/-- Whether a table has templates and redirects only. -/
def HasCases (table : Table) : Prop := ∀ e ∈ table, (∃ s, e.2 = .text s) ∨ ∃ n, e.2 = .int n

/-- Where a redirect goes on when some match keys have been read: at its target, or if the table does
not have that at the wildcard, which must not have been read. -/
inductive Goes (table : Table) (read : List String) (target : String) : String → Prop
  | target (hthere : target ∈ Entries.keys table) : Goes table read target target
  | wildcard (habsent : target ∉ Entries.keys table) (hthere : wildcard ∈ Entries.keys table)
    (hnew : wildcard ∉ read) : Goes table read target wildcard

/-- Whether a redirect goes on nowhere. -/
def IsLost (table : Table) (read : List String) (target : String) : Prop :=
  target ∉ Entries.keys table ∧ (wildcard ∉ Entries.keys table ∨ wildcard ∈ read)

/-- `Walk table first read current`: from `first`, redirects lead to `current` once the entries of
`read` have been read, in this order. A walk does not go on from a match key that it comes back to. -/
inductive Walk (table : Table) (first : String) : List String → String → Prop
  | start (hthere : first ∈ Entries.keys table) : Walk table first [] first
  | step {read : List String} {current next : String} {n : Int} (h : Walk table first read current)
    (hnew : current ∉ read) (hentry : Entries.get? current table = some (.int n))
    (hgoes : Goes table (read ++ [current]) (Numeral.text n) next) :
    Walk table first (read ++ [current]) next

/-- How a search ends that starts at a match key, or at none: the match keys whose entries it has
read, in their order, and its result. -/
inductive Ends (table : Table) : Option String → List String → Except Error (Option String) → Prop
  | noStart : Ends table none [] (.ok none)
  | template {first current template : String} {read : List String}
    (hwalk : Walk table first read current) (hnew : current ∉ read)
    (hentry : Entries.get? current table = some (.text template)) :
    Ends table (some first) (read ++ [current]) (.ok (some template))
  | lost {first current : String} {read : List String} {n : Int}
    (hwalk : Walk table first read current) (hnew : current ∉ read)
    (hentry : Entries.get? current table = some (.int n))
    (hlost : IsLost table (read ++ [current]) (Numeral.text n)) :
    Ends table (some first) (read ++ [current]) (.ok none)
  | cycle {first current : String} {read : List String} (hwalk : Walk table first read current)
    (hback : current ∈ read) :
    Ends table (some first) read (.error (.fault (.redirectCycle (read ++ [current]))))

lemma nodup_concat (hread : read.Nodup) (hnew : current ∉ read) : (read ++ [current]).Nodup := by
  rw [← List.concat_eq_append]
  exact hread.concat hnew

namespace Walk

variable (h : Walk table first read current)

include h

/-- No match key is read twice. -/
lemma nodup : read.Nodup := by
  induction h with
  | start => exact List.nodup_nil
  | step _ hnew _ _ ih => exact nodup_concat ih hnew

lemma mem_keys : current ∈ Entries.keys table := by
  cases h with
  | start hthere => exact hthere
  | step _ _ _ hgoes =>
    cases hgoes with
    | target hthere => exact hthere
    | wildcard _ hthere _ => exact hthere

/-- All that a walk has left behind are redirects. -/
lemma exists_int : ∀ key ∈ read, ∃ n, Entries.get? key table = some (.int n) := by
  induction h with
  | start => exact List.forall_mem_nil _
  | step _ _ hentry _ ih => exact List.forall_mem_append.mpr ⟨ih, List.forall_mem_singleton.mpr ⟨_, hentry⟩⟩

/-- What has been read is in the table. -/
lemma subset_keys : read ⊆ Entries.keys table := by
  intro key hkey
  obtain ⟨n, hentry⟩ := h.exists_int key hkey
  exact Entries.mem_keys_of_get? hentry

end Walk

lemma length_le_dedup (hnodup : read.Nodup) (hread : read ⊆ Entries.keys table) :
    read.length ≤ (Entries.keys table).dedup.length :=
  (hnodup.subperm fun _ hkey => List.mem_dedup.mpr (hread hkey)).length_le

lemma length_dedup_keys_le (table : Table) : (Entries.keys table).dedup.length ≤ table.length := by
  have hle := (List.dedup_sublist (Entries.keys table)).length_le
  rwa [Entries.keys, List.length_map] at hle

namespace Ends

variable {start? : Option String} {result : Except Error (Option String)}

/-- A search reads each match key at most once, and none that the table does not have. -/
lemma nodup_and_subset (h : Ends table start? read result) :
    read.Nodup ∧ read ⊆ Entries.keys table := by
  have hadded : ∀ {first current : String} {read : List String}, Walk table first read current →
      current ∉ read → (read ++ [current]).Nodup ∧ read ++ [current] ⊆ Entries.keys table := by
    intro first current read hwalk hnew
    exact ⟨nodup_concat hwalk.nodup hnew, List.append_subset.mpr
      ⟨hwalk.subset_keys, List.cons_subset.mpr ⟨hwalk.mem_keys, List.nil_subset _⟩⟩⟩
  cases h with
  | noStart => exact ⟨List.nodup_nil, List.nil_subset _⟩
  | template hwalk hnew _ => exact hadded hwalk hnew
  | lost hwalk hnew _ _ => exact hadded hwalk hnew
  | cycle hwalk _ => exact ⟨hwalk.nodup, hwalk.subset_keys⟩

end Ends

/-- A walk can be gone to its end, since it gets longer with every step and no longer than the
table. -/
lemma exists_ends_of_walk (hcases : table.HasCases) (more : ℕ) (hwalk : Walk table first read current)
    (hmore : table.length < read.length + more) : ∃ read result, Ends table (some first) read result := by
  induction more generalizing read current with
  | zero =>
    have hread := length_le_dedup hwalk.nodup hwalk.subset_keys
    have hkeys := length_dedup_keys_le table
    omega
  | succ more ih =>
    by_cases hnew : current ∈ read
    · exact ⟨_, _, .cycle hwalk hnew⟩
    have hnext : ∀ {n next}, Entries.get? current table = some (.int n) →
        Goes table (read ++ [current]) (Numeral.text n) next →
        ∃ read result, Ends table (some first) read result := by
      intro n next hentry hgoes
      apply ih (hwalk.step hnew hentry hgoes)
      rw [List.length_append, List.length_singleton]
      omega
    obtain ⟨entry, hentry⟩ : ∃ entry, Entries.get? current table = some entry :=
      Option.isSome_iff_exists.mp (Entries.contains_iff_mem_keys.mpr hwalk.mem_keys)
    obtain ⟨template, htemplate⟩ | ⟨n, hn⟩ := hcases _ (Entries.mem_of_get? hentry)
    · simp only at htemplate
      exact ⟨_, _, .template hwalk hnew (htemplate ▸ hentry)⟩
    · simp only at hn
      rw [hn] at hentry
      -- the target comes first, and the wildcard after it
      by_cases htarget : Numeral.text n ∈ Entries.keys table
      · exact hnext hentry (.target htarget)
      · by_cases hwild : wildcard ∈ Entries.keys table ∧ wildcard ∉ read ++ [current]
        · exact hnext hentry (.wildcard htarget hwild.1 hwild.2)
        · rw [not_and_or, not_not] at hwild
          exact ⟨_, _, .lost hwalk hnew hentry ⟨htarget, hwild⟩⟩

/-! ## The walk that is taken -/

/-- The line that is logged when a redirect is read; a template has none. -/
def redirectLine? (table : Table) (key : String) : Option LogRecord :=
  match Entries.get? key table with
  | some (.int n) => some ⟨.debug, "Plural redirect " ++ key ++ " -> " ++ Numeral.text n⟩
  | _ => none

lemma redirectLine?_int (hentry : Entries.get? current table = some (.int n)) :
    table.redirectLine? current =
      some ⟨.debug, "Plural redirect " ++ current ++ " -> " ++ Numeral.text n⟩ := by
  rw [redirectLine?, hentry]

/-- The lines for what was read. -/
def redirectLines (table : Table) (read : List String) : List LogRecord :=
  read.filterMap table.redirectLine?

lemma redirectLines_concat_int (hentry : Entries.get? current table = some (.int n)) :
    table.redirectLines (read ++ [current]) = table.redirectLines read ++
      [⟨.debug, "Plural redirect " ++ current ++ " -> " ++ Numeral.text n⟩] := by
  rw [redirectLines, List.filterMap_append, List.filterMap_cons_some (redirectLine?_int hentry)]
  rfl

section

variable {fuel : ℕ}

lemma follow_cycle (hback : current ∈ read) :
    follow table (fuel + 1) read current =
      Logged.fail (.fault (.redirectCycle (read ++ [current]))) := by
  rw [follow, if_pos hback]

lemma follow_template (hnew : current ∉ read)
    (hentry : Entries.get? current table = some (.text template)) :
    follow table (fuel + 1) read current = Logged.ok (some template) := by
  simp only [follow, if_neg hnew, hentry, Logged.pure_eq]

/-- Where a redirect goes on if its target is not there. -/
lemma wildcard_new_iff : (Entries.contains wildcard table && !read.contains wildcard) = true ↔
    wildcard ∈ Entries.keys table ∧ wildcard ∉ read := by
  rw [Bool.and_eq_true, Bool.not_eq_true', ← Bool.not_eq_true, List.contains_iff_mem,
    Entries.contains_iff_mem_keys]

lemma follow_goes (hnew : current ∉ read) (hentry : Entries.get? current table = some (.int n))
    (hgoes : Goes table (read ++ [current]) (Numeral.text n) next) :
    follow table (fuel + 1) read current =
      ⟨(follow table fuel (read ++ [current]) next).result,
        ⟨.debug, "Plural redirect " ++ current ++ " -> " ++ Numeral.text n⟩ ::
          (follow table fuel (read ++ [current]) next).log⟩ := by
  simp only [follow, if_neg hnew, hentry, Logged.record_bind]
  cases hgoes with
  | target hthere => rw [if_pos (Entries.contains_iff_mem_keys.mpr hthere)]
  | wildcard habsent hthere hnew =>
    have hwild := wildcard_new_iff.mpr ⟨hthere, hnew⟩
    rw [if_neg (mt Entries.contains_iff_mem_keys.mp habsent), if_pos hwild]

lemma follow_lost (hnew : current ∉ read) (hentry : Entries.get? current table = some (.int n))
    (hlost : IsLost table (read ++ [current]) (Numeral.text n)) :
    follow table (fuel + 1) read current =
      ⟨.ok none, [⟨.debug, "Plural redirect " ++ current ++ " -> " ++ Numeral.text n⟩]⟩ := by
  simp only [follow, if_neg hnew, hentry, Logged.record_bind]
  have hwild : ¬ (Entries.contains wildcard table && !(read ++ [current]).contains wildcard) = true := by
    rw [wildcard_new_iff, not_and_or, not_not]
    exact hlost.2
  rw [if_neg (mt Entries.contains_iff_mem_keys.mp hlost.1), if_neg hwild]
  rfl

end

/-- A search goes along the walk and logs the redirects on it. -/
lemma follow_of_walk (h : Walk table first read current) (fuel : ℕ) :
    follow table (read.length + fuel) [] first =
      ⟨(follow table fuel read current).result,
        table.redirectLines read ++ (follow table fuel read current).log⟩ := by
  induction h generalizing fuel with
  | start => rw [List.length_nil, Nat.zero_add]; rfl
  | @step read current next n _ hnew hentry hgoes ih =>
    rw [List.length_append, List.length_singleton, Nat.add_assoc, Nat.add_comm 1 fuel, ih,
      follow_goes hnew hentry hgoes, redirectLines_concat_int hentry, List.append_assoc]
    rfl

lemma redirectLines_concat_template (hentry : Entries.get? current table = some (.text template)) :
    table.redirectLines (read ++ [current]) = table.redirectLines read := by
  have hnone : table.redirectLine? current = none := by rw [redirectLine?, hentry]
  rw [redirectLines, List.filterMap_append, List.filterMap_cons_none hnone, List.filterMap_nil,
    List.append_nil]
  rfl

section

variable {start? : Option String} {result : Except Error (Option String)} {value : Value}
  {locale : Option String}

/-- There is enough fuel for every walk. -/
lemma follow_of_ends (h : Ends table (some first) read result) :
    follow table (table.length + 1) [] first = ⟨result, table.redirectLines read⟩ := by
  have hfuel : ∀ {read : List String}, read.Nodup → read ⊆ Entries.keys table →
      ∃ fuel, table.length + 1 = read.length + (fuel + 1) := by
    intro read hnodup hread
    have hle := length_le_dedup hnodup hread
    have hkeys := length_dedup_keys_le table
    exact ⟨table.length - read.length, by omega⟩
  cases h with
  | template hwalk hnew hentry =>
    obtain ⟨fuel, hfuel⟩ := hfuel hwalk.nodup hwalk.subset_keys
    rw [hfuel, follow_of_walk hwalk, follow_template hnew hentry, redirectLines_concat_template hentry]
    simp only [Logged.ok, List.append_nil]
  | lost hwalk hnew hentry hlost =>
    obtain ⟨fuel, hfuel⟩ := hfuel hwalk.nodup hwalk.subset_keys
    rw [hfuel, follow_of_walk hwalk, follow_lost hnew hentry hlost, redirectLines_concat_int hentry]
  | cycle hwalk hback =>
    obtain ⟨fuel, hfuel⟩ := hfuel hwalk.nodup hwalk.subset_keys
    rw [hfuel, follow_of_walk hwalk, follow_cycle hback]
    simp only [Logged.fail, List.append_nil]

variable [Cldr]

/-- Every search ends. -/
lemma exists_ends (hcases : table.HasCases) (hstart : (table.start value locale).result = .ok start?) :
    ∃ read result, Ends table start? read result := by
  have hthere := (isStart_startAmong hstart).1
  cases start? with
  | none => exact ⟨_, _, .noStart⟩
  | some first =>
    have hfirst : first ∈ Entries.keys table := Entries.contains_iff_mem_keys.mp (hthere first rfl)
    exact exists_ends_of_walk hcases (table.length + 1) (.start hfirst) (by omega)

/-- A template is selected as the search ends. -/
lemma select_of_ends (hstart : (table.start value locale).result = .ok start?)
    (h : Ends table start? read result) :
    (table.select value locale).result = result ∧
      (table.select value locale).log =
        (table.start value locale).log ++ table.redirectLines read := by
  cases hlogged : table.start value locale with
  | mk found log =>
    rw [hlogged] at hstart
    simp only at hstart
    subst hstart
    cases start? with
    | none =>
      cases h with
      | noStart => simp [select, hlogged, Bind.bind, Logged.bind, Logged.ok, redirectLines]
    | some first => simp [select, hlogged, Bind.bind, Logged.bind, follow_of_ends h]

/-- A search that ends nowhere was not stopped by a template under the wildcard: it would have started
there at the latest, and a redirect that is lost would have gone on there. -/
lemma Ends.result_ne_none (h : Ends table start? read result)
    (hstart : (table.start value locale).result = .ok start?)
    (hwild : Entries.get? wildcard table = some (.text template)) : result ≠ .ok none := by
  have hthere : Entries.contains wildcard table = true := by rw [Entries.contains, hwild]; rfl
  intro hnone
  cases h with
  | noStart => exact absurd (hthere.symm.trans ((isStart_startAmong hstart).2 rfl)) (by simp)
  | template => exact absurd (Except.ok.inj hnone) (by simp)
  | cycle => exact absurd hnone (by simp)
  | lost hwalk hnew hentry hlost =>
    rcases hlost.2 with habsent | hread
    · exact habsent (Entries.contains_iff_mem_keys.mp hthere)
    · -- what has been read are redirects
      have hredirects := List.forall_mem_append.mpr
        ⟨hwalk.exists_int, List.forall_mem_singleton.mpr ⟨_, hentry⟩⟩
      obtain ⟨n, hn⟩ := hredirects wildcard hread
      exact absurd (hn.symm.trans hwild) (by simp)

/-! ## What is selected -/

/-- A table of templates and redirects selects what the walk through it comes to, from the match key
at which the search for a value starts, if that is determined. It selects a template if the walk reads
that template, and none if there is no start or a redirect on the walk is lost; it fails only if the
walk comes back to a match key, with its path. The search reads every match key at most once, and
logs the redirects that it reads. With a template under the wildcard some template is selected, or
the walk comes back. -/
theorem select_iff_walk (hcases : table.HasCases)
    (hstart : (table.start value locale).result = .ok start?) :
    (∀ s, (table.select value locale).result = .ok (some s) ↔
      ∃ first ∈ start?, ∃ read current, Walk table first read current ∧ current ∉ read ∧
        Entries.get? current table = some (.text s)) ∧
    (∀ e, (table.select value locale).result = .error e ↔
      ∃ first ∈ start?, ∃ read current, Walk table first read current ∧ read.Nodup ∧
        current ∈ read ∧ e = .fault (.redirectCycle (read ++ [current]))) ∧
    ((table.select value locale).result = .ok none ↔ start? = none ∨
      ∃ first ∈ start?, ∃ read current n, Walk table first read current ∧ current ∉ read ∧
        Entries.get? current table = some (.int n) ∧
        IsLost table (read ++ [current]) (Numeral.text n)) ∧
    (∃ read, Ends table start? read (table.select value locale).result ∧ read.Nodup ∧
      read ⊆ Entries.keys table ∧ read.length ≤ (Entries.keys table).dedup.length ∧
      (table.select value locale).log =
        (table.start value locale).log ++ table.redirectLines read) ∧
    ((∃ s, Entries.get? wildcard table = some (.text s)) →
      (table.select value locale).result ≠ .ok none) := by
  obtain ⟨read, result, hends⟩ := exists_ends hcases hstart
  obtain ⟨hresult, hlog⟩ := select_of_ends hstart hends
  have hgives : ∀ {read result}, Ends table start? read result →
      (table.select value locale).result = result := fun h => (select_of_ends hstart h).1
  obtain ⟨hnodup, hsubset⟩ := hends.nodup_and_subset
  refine ⟨fun s => ⟨fun hs => ?_, ?_⟩, fun e => ⟨fun he => ?_, ?_⟩, ⟨fun hnone => ?_, ?_⟩, ?_, ?_⟩
  · rw [hresult] at hs
    subst hs
    cases hends with
    | template hwalk hnew hentry => exact ⟨_, rfl, _, _, hwalk, hnew, hentry⟩
  · rintro ⟨first, rfl, read, current, hwalk, hnew, hentry⟩
    exact hgives (.template hwalk hnew hentry)
  · rw [hresult] at he
    subst he
    cases hends with
    | cycle hwalk hback => exact ⟨_, rfl, _, _, hwalk, hwalk.nodup, hback, rfl⟩
  · rintro ⟨first, rfl, read, current, hwalk, -, hback, rfl⟩
    exact hgives (.cycle hwalk hback)
  · rw [hresult] at hnone
    subst hnone
    cases hends with
    | noStart => exact Or.inl rfl
    | lost hwalk hnew hentry hlost =>
      exact Or.inr ⟨_, rfl, _, _, _, hwalk, hnew, hentry, hlost⟩
  · rintro (rfl | ⟨first, rfl, read, current, n, hwalk, hnew, hentry, hlost⟩)
    · exact hgives .noStart
    · exact hgives (.lost hwalk hnew hentry hlost)
  · rw [hresult]
    exact ⟨read, hends, hnodup, hsubset, length_le_dedup hnodup hsubset, hlog⟩
  · rintro ⟨s, hwild⟩
    rw [hresult]
    exact hends.result_ne_none hstart hwild

end

/-- A redirect that is lost, and a wildcard that leads back to it. -/
def roundabout : Table := [("1", .int 7), ("*", .int 1)]

theorem select_iff_walk_roundabout : roundabout.HasCases ∧
    (roundabout.start (.int 1) none).result = .ok (some "1") ∧
    (roundabout.select (.int 1) none).result =
      .error (.fault (.redirectCycle ["1", "*", "1"])) := by
  have hcases : roundabout.HasCases :=
    List.forall_mem_cons.mpr ⟨Or.inr ⟨7, rfl⟩, List.forall_mem_singleton.mpr (Or.inr ⟨1, rfl⟩)⟩
  have hstart : (roundabout.start (.int 1) none).result = .ok (some "1") := rfl
  have hfirst : Walk roundabout "1" [] "1" := .start (by decide)
  have hwild : Walk roundabout "1" ["1"] "*" :=
    hfirst.step (by decide) rfl (.wildcard (by decide) (by decide) (by decide))
  have hback : Walk roundabout "1" ["1", "*"] "1" :=
    hwild.step (by decide) rfl (.target (by decide))
  obtain ⟨-, hcycle, -⟩ := select_iff_walk hcases hstart
  exact ⟨hcases, hstart, (hcycle _).mpr
    ⟨"1", rfl, ["1", "*"], "1", hback, by decide, by decide, rfl⟩⟩

end Table

end Plural

end LocaleBundle
