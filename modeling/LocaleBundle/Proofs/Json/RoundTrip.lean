import LocaleBundle.Proofs.Json.IsJson
import LocaleBundle.Proofs.Json.Scalar
import LocaleBundle.Proofs.Json.Text

/-!
# Values are read back

Whatever layout a JSON value is written in and whatever follows it, reading takes the text of the
value off the front and returns the value.
-/

namespace LocaleBundle.Json

open Text Numeral

/-! ## Where a value starts -/

/-- A value that is a word or a number. -/
inductive IsScalar : Value → Prop
  | null : IsScalar .null
  | bool (b : Bool) : IsScalar (.bool b)
  | int (n : ℤ) : IsScalar (.int n)
  | float (x : Binary64) : IsScalar (.float x)

/-- What is written of such a value is its text. -/
lemma scalarText_write (layout : Layout) (level : ℕ) {v : Value} (hv : IsScalar v) :
    ScalarText v (write layout level v) := by
  cases hv with
  | null =>
    have hmem : ("null", Value.null) ∈ literals := by simp [literals]
    exact .word hmem
  | bool b =>
    cases b with
    | false =>
      have hmem : ("false", Value.bool false) ∈ literals := by simp [literals]
      exact .word hmem
    | true =>
      have hmem : ("true", Value.bool true) ∈ literals := by simp [literals]
      exact .word hmem
  | int n =>
    rw [write]
    exact scalarText_ofInt n
  | float x =>
    rw [write]
    exact scalarText_render x

/-- The text of a value starts with no blank, no closing bracket and no byte order mark. -/
lemma exists_cons_write (layout : Layout) (level : ℕ) {v : Value} (hv : v.IsJson) :
    ∃ c s, write layout level v = c :: s ∧ isBlank c = false ∧ c ≠ ']' ∧ c ≠ '\ufeff' := by
  have hscalar : IsScalar v → ∃ c s, write layout level v = c :: s ∧ isBlank c = false ∧
      c ≠ ']' ∧ c ≠ '\ufeff' := by
    intro hv
    obtain ⟨c, s, hcons, hc⟩ := exists_cons_scalarText (scalarText_write layout level hv)
    exact ⟨c, s, hcons, isBlank_of_startsScalar hc, ne_of_startsScalar hc rfl,
      ne_of_startsScalar hc rfl⟩
  cases hv with
  | null => exact hscalar .null
  | bool b => exact hscalar (.bool b)
  | int n => exact hscalar (.int n)
  | float x => exact hscalar (.float x)
  | text s => exact ⟨'"', _, rfl, rfl, by decide, by decide⟩
  | @list items hitems =>
    cases items with
    | nil => exact ⟨'[', _, rfl, rfl, by decide, by decide⟩
    | cons v items => exact ⟨'[', _, by rw [write]; rfl, rfl, by decide, by decide⟩
  | @map entries hkeys hvalues =>
    cases entries with
    | nil => exact ⟨'\x7b', _, rfl, rfl, by decide, by decide⟩
    | cons e entries => exact ⟨'\x7b', _, by rw [write]; rfl, rfl, by decide, by decide⟩

/-! ## Blanks -/

lemma skipBlanks_cons {c : Char} (hc : isBlank c = false) (s : List Char) :
    skipBlanks (c :: s) = c :: s := by
  rw [skipBlanks, List.dropWhile_cons_of_neg]
  rw [hc]
  exact Bool.false_ne_true

lemma skipBlanks_append {blanks : List Char} (h : ∀ c ∈ blanks, isBlank c = true)
    (s : List Char) : skipBlanks (blanks ++ s) = skipBlanks s := by
  rw [skipBlanks, List.dropWhile_append_of_pos h]
  rfl

lemma skipBlanks_write (layout : Layout) (level : ℕ) {v : Value} (hv : v.IsJson) (s : List Char) :
    skipBlanks (write layout level v ++ s) = write layout level v ++ s := by
  obtain ⟨c, tail, hcons, hc, -, -⟩ := exists_cons_write layout level hv
  rw [hcons, List.cons_append, skipBlanks_cons hc]

lemma isBlank_of_mem_lineBreak {layout : Layout} {level : ℕ} {c : Char}
    (h : c ∈ layout.lineBreak level) : isBlank c = true := by
  cases layout with
  | compact => exact absurd h List.not_mem_nil
  | indented step =>
    rcases List.mem_cons.mp h with rfl | h
    · rfl
    · rw [(List.mem_replicate.mp h).2]
      rfl

lemma skipBlanks_lineBreak (layout : Layout) (level : ℕ) (s : List Char) :
    skipBlanks (layout.lineBreak level ++ s) = skipBlanks s :=
  skipBlanks_append (fun _ => isBlank_of_mem_lineBreak) s

lemma skipBlanks_lineBreak_cons (layout : Layout) (level : ℕ) {c : Char} (hc : isBlank c = false)
    (s : List Char) : skipBlanks (layout.lineBreak level ++ c :: s) = c :: s := by
  rw [skipBlanks_lineBreak, skipBlanks_cons hc]

/-- Items are set apart by a comma and blanks. -/
lemma exists_between (layout : Layout) (level : ℕ) :
    ∃ blanks, layout.between level = ',' :: blanks ∧ ∀ c ∈ blanks, isBlank c = true := by
  cases layout with
  | compact => exact ⟨[' '], rfl, List.forall_mem_singleton.mpr rfl⟩
  | indented step =>
    exact ⟨(Layout.indented step).lineBreak level, rfl, fun _ => isBlank_of_mem_lineBreak⟩

/-! ## What may follow a value -/

lemma endsNumber_cons {c : Char} (h : c.isDigit = false ∧ c ≠ '.' ∧ c ≠ 'e' ∧ c ≠ 'E')
    (s : List Char) : EndsNumber (c :: s) := by
  intro d hd
  rw [List.head?_cons, Option.mem_some_iff] at hd
  rwa [← hd]

lemma endsNumber_lineBreak (layout : Layout) (level : ℕ) {s : List Char} (hs : EndsNumber s) :
    EndsNumber (layout.lineBreak level ++ s) := by
  cases layout with
  | compact => exact hs
  | indented step => exact endsNumber_cons (by decide) _

/-! ## Reading what was written -/

/-- The text of a value is taken off a text and read as that value. -/
def ReadsBack (layout : Layout) (v : Value) : Prop :=
  ∀ (level fuel : ℕ) (rest : List Char), EndsNumber rest →
    2 * (write layout level v).length ≤ fuel →
    readValue fuel (write layout level v ++ rest) = .ok (v, rest)

variable {layout : Layout}

/-- Items after one that was read are read one by one, up to the bracket. -/
lemma readItems_write {v : Value} {items : List Value} (hjson : ∀ w ∈ v :: items, w.IsJson)
    (hback : ∀ w ∈ v :: items, ReadsBack layout w) (level outer fuel : ℕ) (rest : List Char)
    (hfuel : 2 * (write layout level v ++ writeItems layout level items).length < fuel) :
    readItems fuel (write layout level v ++ (writeItems layout level items
      ++ (layout.lineBreak outer ++ ']' :: rest))) = .ok (v :: items, rest) := by
  induction items generalizing v fuel with
  | nil =>
    rw [writeItems, List.append_nil] at hfuel
    obtain ⟨fuel, rfl⟩ : ∃ n, fuel = n + 1 := ⟨fuel - 1, by omega⟩
    have hends : EndsNumber (layout.lineBreak outer ++ ']' :: rest) :=
      endsNumber_lineBreak layout outer (endsNumber_cons (by decide) rest)
    have hv := hback v List.mem_cons_self level fuel _ hends (by omega)
    rw [writeItems, List.nil_append, readItems, hv]
    simp only [skipBlanks_lineBreak_cons layout outer (c := ']') rfl]
  | cons w items ih =>
    obtain ⟨blanks, hbetween, hblanks⟩ := exists_between layout level
    have hw : w.IsJson := hjson w (by simp)
    rw [writeItems, hbetween, List.length_append, List.length_append, List.length_append,
      List.length_cons] at hfuel
    obtain ⟨fuel, rfl⟩ : ∃ n, fuel = n + 1 := ⟨fuel - 1, by omega⟩
    -- the text after the first item starts with the comma
    have hsplit : writeItems layout level (w :: items) ++ (layout.lineBreak outer ++ ']' :: rest)
        = ',' :: (blanks ++ (write layout level w ++ (writeItems layout level items
          ++ (layout.lineBreak outer ++ ']' :: rest)))) := by
      rw [writeItems, hbetween]
      simp
    have hends : ∀ s, EndsNumber (',' :: s) := endsNumber_cons (by decide)
    have hrest := ih (fun u hu => hjson u (List.mem_cons_of_mem v hu))
      (fun u hu => hback u (List.mem_cons_of_mem v hu)) fuel
      (by rw [List.length_append]; omega)
    rw [hsplit, readItems, hback v List.mem_cons_self level fuel _ (hends _) (by omega)]
    simp only [skipBlanks_cons (c := ',') rfl]
    rw [skipBlanks_append hblanks, skipBlanks_write layout level hw, hrest]
    rfl

lemma writeText_append (t : String) (s : List Char) :
    writeText t ++ s = '"' :: (t.toList.flatMap escape ++ '"' :: s) := by
  rw [writeText, List.cons_append, List.cons_append, List.append_assoc, List.singleton_append]

/-- The last member is read as its name and its value. -/
lemma readMembers_last {k : String} {v : Value} (hjson : v.IsJson) (hback : ReadsBack layout v)
    (level fuel : ℕ) {s rest : List Char} (hs : EndsNumber s)
    (hfuel : 2 * (write layout level v).length ≤ fuel) (hskip : skipBlanks s = '\x7d' :: rest) :
    readMembers (fuel + 1) (writeText k ++ ':' :: ' ' :: (write layout level v ++ s))
      = .ok ([(k, v)], rest) := by
  have hvalue : skipBlanks (' ' :: (write layout level v ++ s)) = write layout level v ++ s :=
    skipBlanks_write layout level hjson s
  rw [writeText_append, readMembers, readText_flatMap_escape]
  simp only [skipBlanks_cons (c := ':') rfl, hvalue, hback level fuel s hs hfuel, hskip]

/-- Before a comma a member is read, and then the others. -/
lemma readMembers_comma {k : String} {v : Value} (hjson : v.IsJson) (hback : ReadsBack layout v)
    (level fuel : ℕ) {s more rest : List Char} {members : List (String × Value)}
    (hs : EndsNumber s) (hfuel : 2 * (write layout level v).length ≤ fuel)
    (hskip : skipBlanks s = ',' :: more)
    (hmore : readMembers fuel (skipBlanks more) = .ok (members, rest)) :
    readMembers (fuel + 1) (writeText k ++ ':' :: ' ' :: (write layout level v ++ s))
      = .ok ((k, v) :: members, rest) := by
  have hvalue : skipBlanks (' ' :: (write layout level v ++ s)) = write layout level v ++ s :=
    skipBlanks_write layout level hjson s
  rw [writeText_append, readMembers, readText_flatMap_escape]
  simp only [skipBlanks_cons (c := ':') rfl, hvalue, hback level fuel s hs hfuel, hskip, hmore,
    Except.map]

lemma readMembers_write {k : String} {v : Value} {entries : Entries Value}
    (hjson : ∀ e ∈ (k, v) :: entries, e.2.IsJson)
    (hback : ∀ e ∈ (k, v) :: entries, ReadsBack layout e.2) (level outer fuel : ℕ)
    (rest : List Char)
    (hfuel : 2 * (write layout level v ++ writeEntries layout level entries).length < fuel) :
    readMembers fuel (writeText k ++ ':' :: ' ' :: (write layout level v
      ++ (writeEntries layout level entries ++ (layout.lineBreak outer ++ '\x7d' :: rest))))
      = .ok ((k, v) :: entries, rest) := by
  have hv : v.IsJson := hjson (k, v) List.mem_cons_self
  have hvback : ReadsBack layout v := hback (k, v) List.mem_cons_self
  induction entries generalizing k v fuel with
  | nil =>
    rw [writeEntries, List.append_nil] at hfuel
    obtain ⟨fuel, rfl⟩ : ∃ n, fuel = n + 1 := ⟨fuel - 1, by omega⟩
    have hends : EndsNumber (layout.lineBreak outer ++ '\x7d' :: rest) :=
      endsNumber_lineBreak layout outer (endsNumber_cons (by decide) rest)
    rw [writeEntries, List.nil_append]
    exact readMembers_last hv hvback level fuel hends (by omega)
      (skipBlanks_lineBreak_cons layout outer rfl rest)
  | cons e entries ih =>
    obtain ⟨name, w⟩ := e
    obtain ⟨blanks, hbetween, hblanks⟩ := exists_between layout level
    rw [writeEntries, hbetween] at hfuel
    simp only [List.length_append, List.length_cons] at hfuel
    obtain ⟨fuel, rfl⟩ : ∃ n, fuel = n + 1 := ⟨fuel - 1, by omega⟩
    -- as for items, what follows the first member starts with the comma
    have hsplit : writeEntries layout level ((name, w) :: entries)
        ++ (layout.lineBreak outer ++ '\x7d' :: rest)
        = ',' :: (blanks ++ (writeText name ++ ':' :: ' ' :: (write layout level w
          ++ (writeEntries layout level entries
          ++ (layout.lineBreak outer ++ '\x7d' :: rest))))) := by
      rw [writeEntries, hbetween]
      simp
    have hends : ∀ s, EndsNumber (',' :: s) := endsNumber_cons (by decide)
    have hquote : ∀ s, skipBlanks (writeText name ++ s) = writeText name ++ s := by
      intro s
      rw [writeText_append, skipBlanks_cons rfl]
    have hrest := ih (fun u hu => hjson u (List.mem_cons_of_mem _ hu))
      (fun u hu => hback u (List.mem_cons_of_mem _ hu)) fuel
      (by rw [List.length_append]; omega) (hjson (name, w) (by simp)) (hback (name, w) (by simp))
    rw [hsplit]
    refine readMembers_comma hv hvback level fuel (hends _) (by omega) (skipBlanks_cons rfl _) ?_
    rw [skipBlanks_append hblanks, hquote]
    exact hrest

lemma readsBack_scalar {v : Value} (hv : IsScalar v) : ReadsBack layout v := by
  intro level fuel s hs hfuel
  have htext := scalarText_write layout level hv
  obtain ⟨c, tail, hcons, -⟩ := exists_cons_scalarText htext
  rw [hcons, List.length_cons] at hfuel
  obtain ⟨fuel, rfl⟩ : ∃ n, fuel = n + 1 := ⟨fuel - 1, by omega⟩
  exact readValue_scalarText htext hs fuel

lemma readsBack_text (t : String) : ReadsBack layout (.text t) := by
  intro level fuel s hs hfuel
  have hpos : 0 < (write layout level (.text t)).length := by
    rw [write, writeText, List.cons_append, List.length_cons]
    omega
  obtain ⟨fuel, rfl⟩ : ∃ n, fuel = n + 1 := ⟨fuel - 1, by omega⟩
  rw [write, writeText_append, readValue, readText_flatMap_escape]
  rfl

lemma readsBack_list {items : List Value} (hjson : ∀ v ∈ items, v.IsJson)
    (hback : ∀ v ∈ items, ReadsBack layout v) : ReadsBack layout (.list items) := by
  intro level fuel s hs hfuel
  cases items with
  | nil =>
    obtain ⟨fuel, rfl⟩ : ∃ n, fuel = n + 1 := ⟨fuel - 1, by simp [write] at hfuel; omega⟩
    rw [write, List.cons_append, readValue]
    rfl
  | cons v items =>
    rw [write] at hfuel ⊢
    simp only [List.length_append, List.length_cons, List.length_nil] at hfuel
    obtain ⟨fuel, rfl⟩ : ∃ n, fuel = n + 1 := ⟨fuel - 1, by omega⟩
    have hitems := readItems_write hjson hback (level + 1) level fuel s
      (by rw [List.length_append]; omega)
    have hv : v.IsJson := hjson v List.mem_cons_self
    obtain ⟨c, tail, hcons, -, hbracket, -⟩ := exists_cons_write layout (level + 1) hv
    have hskip : skipBlanks (layout.lineBreak (level + 1) ++ (write layout (level + 1) v
        ++ (writeItems layout (level + 1) items ++ (layout.lineBreak level ++ ']' :: s))))
        = write layout (level + 1) v
        ++ (writeItems layout (level + 1) items ++ (layout.lineBreak level ++ ']' :: s)) := by
      rw [skipBlanks_lineBreak, skipBlanks_write layout (level + 1) hv]
    simp only [List.cons_append, List.append_assoc, List.nil_append]
    rw [readValue, hskip]
    split
    · -- the first item is no closing bracket
      rename_i hclose
      rw [hcons, List.cons_append] at hclose
      exact absurd (List.cons.inj hclose).1 hbracket
    · rw [hitems]
      rfl

lemma readsBack_map {entries : Entries Value} (hkeys : entries.keys.Nodup)
    (hjson : ∀ e ∈ entries, e.2.IsJson) (hback : ∀ e ∈ entries, ReadsBack layout e.2) :
    ReadsBack layout (.map entries) := by
  intro level fuel s hs hfuel
  cases entries with
  | nil =>
    obtain ⟨fuel, rfl⟩ : ∃ n, fuel = n + 1 := ⟨fuel - 1, by simp [write] at hfuel; omega⟩
    rw [write, List.cons_append, readValue]
    rfl
  | cons e entries =>
    obtain ⟨k, v⟩ := e
    rw [write] at hfuel ⊢
    simp only [List.length_append, List.length_cons, List.length_nil] at hfuel
    obtain ⟨fuel, rfl⟩ : ∃ n, fuel = n + 1 := ⟨fuel - 1, by omega⟩
    have hmembers := readMembers_write hjson hback (level + 1) level fuel s
      (by rw [List.length_append]; omega)
    have hskip : ∀ more, skipBlanks (layout.lineBreak (level + 1) ++ (writeText k ++ more))
        = writeText k ++ more := by
      intro more
      rw [skipBlanks_lineBreak, writeText_append, skipBlanks_cons rfl]
    simp only [List.cons_append, List.append_assoc, List.nil_append]
    rw [readValue, hskip]
    split
    · rename_i hclose
      rw [writeText_append] at hclose
      exact absurd (List.cons.inj hclose).1 (by decide)
    · rw [hmembers]
      simp only [Except.map, Entries.ofPairs_of_nodup hkeys]

/-- Reading what was written, with any text after it that does not go on with a number. -/
theorem readsBack {v : Value} (hv : v.IsJson) : ReadsBack layout v := by
  induction hv with
  | null => exact readsBack_scalar .null
  | bool b => exact readsBack_scalar (.bool b)
  | int n => exact readsBack_scalar (.int n)
  | float x => exact readsBack_scalar (.float x)
  | text t => exact readsBack_text t
  | list hitems ih => exact readsBack_list hitems ih
  | map hkeys hvalues ih => exact readsBack_map hkeys hvalues ih

lemma encode_of_isJson (layout : Layout) {v : Value} (hv : v.IsJson) :
    encode layout v = .ok (write layout 0 v) := by
  rw [encode, unwritable?_of_isJson hv]

/-- The text of a value is taken off whatever follows it. -/
theorem read_write (layout : Layout) (level : ℕ) {v : Value} (hv : v.IsJson) {s : List Char}
    (hs : EndsNumber s) : read (write layout level v ++ s) = .ok (v, s) :=
  readsBack hv level _ s hs (by rw [List.length_append]; omega)

lemma endsNumber_blanks {blanks : List Char} (h : ∀ c ∈ blanks, isBlank c = true) :
    EndsNumber blanks := by
  cases blanks with
  | nil => simp [EndsNumber]
  | cons c blanks =>
    have hc := h c List.mem_cons_self
    simp only [isBlank, Bool.or_eq_true, decide_eq_true_eq] at hc
    refine endsNumber_cons ?_ blanks
    rcases hc with ((rfl | rfl) | rfl) | rfl <;> decide

/-- The text of a value, with blanks after it, is that value and nothing else. -/
theorem readDocument_write_append (layout : Layout) (level : ℕ) {v : Value} (hv : v.IsJson)
    {blanks : List Char} (hblanks : ∀ c ∈ blanks, isBlank c = true) :
    readDocument (write layout level v ++ blanks) = .ok v := by
  have hread := read_write layout level hv (endsNumber_blanks hblanks)
  have hskip := skipBlanks_write layout level hv blanks
  have hrest : skipBlanks blanks = [] := by
    have happend := skipBlanks_append hblanks []
    rwa [List.append_nil] at happend
  obtain ⟨c, tail, hcons, -, -, hmark⟩ := exists_cons_write layout level hv
  rw [hcons, List.cons_append] at hread hskip ⊢
  rw [readDocument, hskip, hread]
  · simp only [hrest]
  · rintro rest ⟨rfl, -⟩
    exact hmark rfl

/-- The text of a value is that value and nothing else. -/
theorem readDocument_write (layout : Layout) (level : ℕ) {v : Value} (hv : v.IsJson) :
    readDocument (write layout level v) = .ok v := by
  have hread := readDocument_write_append layout level hv (List.forall_mem_nil _)
  rwa [List.append_nil] at hread

end LocaleBundle.Json
