import LocaleBundle.Proofs.Json.RoundTrip
import LocaleBundle.Proofs.Json.Literal
import LocaleBundle.Token

/-!
# The grammar of calls

What stands behind a call mark is the text of a string, then the texts of literals, each after a
comma, and a closing parenthesis, with blanks before each of them. Reading a call takes exactly such
a text off the front. So the key, the arguments and the end of a call are determined by the text
behind the mark.
-/

namespace LocaleBundle

open Json

namespace Json

/-- What is left of a text without its leading blanks. -/
lemma exists_of_skipBlanks (s : List Char) :
    ∃ blanks, (∀ c ∈ blanks, isBlank c = true) ∧ s = blanks ++ skipBlanks s :=
  ⟨s.takeWhile isBlank, fun _ => List.mem_takeWhile_imp, List.takeWhile_append_dropWhile.symm⟩

lemma exists_cons_literalText {v : Value} {t : List Char} (h : LiteralText v t) :
    ∃ c s, t = c :: s ∧ isBlank c = false := by
  cases h with
  | text h => exact ⟨'"', _, rfl, rfl⟩
  | scalar h =>
    obtain ⟨c, s, hcons, hc⟩ := exists_cons_scalarText h
    exact ⟨c, s, hcons, isBlank_of_startsScalar hc⟩

lemma skipBlanks_literalText {v : Value} {t : List Char} (h : LiteralText v t) (s : List Char) :
    skipBlanks (t ++ s) = t ++ s := by
  obtain ⟨c, tail, rfl, hc⟩ := exists_cons_literalText h
  exact skipBlanks_cons hc (tail ++ s)

end Json

namespace Token

/-- The texts of the arguments of a call, up to and with the closing parenthesis. -/
inductive ArgumentsText : List Value → List Char → Prop
  | close {blanks : List Char} (hblanks : ∀ c ∈ blanks, isBlank c = true) :
    ArgumentsText [] (blanks ++ [')'])
  | argument {before after t rest : List Char} {v : Value} {args : List Value}
    (hbefore : ∀ c ∈ before, isBlank c = true) (hafter : ∀ c ∈ after, isBlank c = true)
    (hv : LiteralText v t) (hargs : ArgumentsText args rest) :
    ArgumentsText (v :: args) (before ++ ',' :: (after ++ (t ++ rest)))

/-- The texts of a call behind its mark. -/
inductive CallText : String → List Value → List Char → Prop
  | mk {blanks t rest : List Char} {key : String} {args : List Value}
    (hblanks : ∀ c ∈ blanks, isBlank c = true) (hkey : LiteralText (.text key) t)
    (hargs : ArgumentsText args rest) : CallText key args (blanks ++ (t ++ rest))

variable {key : String} {args : List Value} {s t rest : List Char}

/-! ## Texts of calls are read -/

/-- A number before the arguments ends where they begin. -/
lemma ArgumentsText.endsNumber (h : ArgumentsText args t) (rest : List Char) :
    EndsNumber (t ++ rest) := by
  have hblanks : ∀ {blanks : List Char} {c : Char} (more : List Char),
      (∀ c ∈ blanks, isBlank c = true) → EndsNumber (c :: more) →
      EndsNumber (blanks ++ c :: more) := by
    intro blanks c more hblanks hc
    cases blanks with
    | nil => exact hc
    | cons b blanks => exact fun d hd => endsNumber_blanks hblanks d hd
  cases h with
  | close h =>
    rw [List.append_assoc]
    exact hblanks _ h (endsNumber_cons (by decide) _)
  | argument h =>
    rw [List.append_assoc]
    exact hblanks _ h (endsNumber_cons (by decide) _)

lemma readArgs_append (h : ArgumentsText args t) {fuel : ℕ} (hfuel : t.length ≤ fuel) (count : ℕ)
    (rest : List Char) : readArgs fuel count (t ++ rest) = .ok (args, rest) := by
  induction h generalizing fuel count with
  | @close blanks hblanks =>
    rw [List.length_append, List.length_singleton] at hfuel
    obtain ⟨fuel, rfl⟩ : ∃ n, fuel = n + 1 := ⟨fuel - 1, by omega⟩
    have hskip : skipBlanks (blanks ++ [')'] ++ rest) = ')' :: rest := by
      rw [List.append_assoc, skipBlanks_append hblanks]
      rfl
    simp only [readArgs, hskip]
  | @argument before after t more v args hbefore hafter hv hargs ih =>
    simp only [List.length_append, List.length_cons] at hfuel
    obtain ⟨fuel, rfl⟩ : ∃ n, fuel = n + 1 := ⟨fuel - 1, by omega⟩
    have hcomma : skipBlanks (before ++ ',' :: (after ++ (t ++ more)) ++ rest) =
        ',' :: (after ++ (t ++ (more ++ rest))) := by
      rw [List.append_assoc, skipBlanks_append hbefore]
      simp only [List.cons_append, List.append_assoc]
      rfl
    have hvalue : skipBlanks (after ++ (t ++ (more ++ rest))) = t ++ (more ++ rest) := by
      rw [skipBlanks_append hafter, skipBlanks_literalText hv]
    have hread := read_append hv (hargs.endsNumber rest)
    have hrest := ih (by omega : more.length ≤ fuel) (count + 1)
    simp only [readArgs, hcomma, hvalue, hread]
    -- lists and maps would be refused here
    cases hv.isLiteral with
    | null => simp only [hrest, Except.map]
    | bool b => simp only [hrest, Except.map]
    | int n => simp only [hrest, Except.map]
    | float x => simp only [hrest, Except.map]
    | text s => simp only [hrest, Except.map]

lemma readCall_append (h : CallText key args t) (rest : List Char) :
    readCall (t ++ rest) = .ok (key, args, rest) := by
  cases h with
  | @mk blanks t more _ _ hblanks hkey hargs =>
    have hskip : skipBlanks (blanks ++ (t ++ more) ++ rest) = t ++ (more ++ rest) := by
      rw [List.append_assoc, skipBlanks_append hblanks, List.append_assoc,
        skipBlanks_literalText hkey]
    have hread := read_append hkey (hargs.endsNumber rest)
    have hlength : more.length ≤ (more ++ rest).length + 1 := by
      rw [List.length_append]
      omega
    unfold readCall
    rw [hskip, hread]
    simp only [readArgs_append hargs hlength 0 rest, Except.map]

/-! ## What is read is the text of a call -/

lemma exists_of_readArgs {fuel count : ℕ} (h : readArgs fuel count s = .ok (args, rest)) :
    ∃ t, ArgumentsText args t ∧ s = t ++ rest := by
  induction fuel generalizing count s args with
  | zero => exact absurd h (by simp [readArgs])
  | succ fuel ih =>
    obtain ⟨blanks, hblanks, hs⟩ := exists_of_skipBlanks s
    simp only [readArgs] at h
    split at h
    · exact absurd h (by simp)
    · rename_i hskip
      obtain ⟨rfl, rfl⟩ := Prod.mk.inj (Except.ok.inj h)
      rw [hs, hskip]
      exact ⟨_, .close hblanks, by simp⟩
    · rename_i more hskip
      obtain ⟨after, hafter, hmore⟩ := exists_of_skipBlanks more
      split at h
      · exact absurd h (by simp)
      · exact absurd h (by simp)
      · exact absurd h (by simp)
      · rename_i v left hlist hmap hread
        obtain ⟨others, hothers, rfl⟩ := exists_of_map_eq_ok h
        obtain ⟨tail, htail, rfl⟩ := ih hothers
        obtain ⟨items, rfl⟩ | ⟨entries, rfl⟩ | ⟨t, ht, hleft⟩ := exists_of_readValue hread
        · exact absurd rfl (hlist items)
        · exact absurd rfl (hmap entries)
        · rw [hs, hskip, hmore, hleft]
          exact ⟨_, .argument hblanks hafter ht htail, by simp⟩
    · exact absurd h (by simp)

lemma exists_of_readCall (h : readCall s = .ok (key, args, rest)) :
    ∃ t, CallText key args t ∧ s = t ++ rest := by
  obtain ⟨blanks, hblanks, hs⟩ := exists_of_skipBlanks s
  unfold readCall at h
  split at h
  · exact absurd h (by simp)
  · rename_i name after hread
    cases hargs : readArgs (after.length + 1) 0 after with
    | error e =>
      rw [hargs] at h
      exact absurd h (by simp [Except.map])
    | ok reading =>
      obtain ⟨others, left⟩ := reading
      rw [hargs] at h
      obtain ⟨rfl, hothers⟩ := Prod.mk.inj (Except.ok.inj h)
      obtain ⟨rfl, rfl⟩ := Prod.mk.inj hothers
      obtain ⟨tail, htail, rfl⟩ := exists_of_readArgs hargs
      obtain ⟨items, hitems⟩ | ⟨entries, hentries⟩ | ⟨t, ht, hkey⟩ := exists_of_readValue hread
      · exact absurd hitems (by simp)
      · exact absurd hentries (by simp)
      · rw [hs, hkey]
        exact ⟨_, .mk hblanks ht htail, by simp⟩
  · exact absurd h (by simp)

/-- A call is read exactly if the text behind the mark begins with the text of one; what is left is
what follows that text. -/
lemma readCall_eq_ok_iff : readCall s = .ok (key, args, rest) ↔
    ∃ t, CallText key args t ∧ s = t ++ rest := by
  constructor
  · exact exists_of_readCall
  · rintro ⟨t, ht, rfl⟩
    exact readCall_append ht rest

/-- No text begins with two different calls. -/
lemma CallText.unique {key' : String} {args' : List Value} {t' : List Char}
    (h : CallText key args t) (h' : CallText key' args' t') (hs : t <+: s) (hs' : t' <+: s) :
    key = key' ∧ args = args' ∧ t = t' := by
  obtain ⟨rest, rfl⟩ := hs
  obtain ⟨rest', hsplit⟩ := hs'
  have hread := readCall_append h rest
  rw [← hsplit, readCall_append h' rest'] at hread
  obtain ⟨rfl, hrest⟩ := Prod.mk.inj (Except.ok.inj hread)
  obtain ⟨rfl, rfl⟩ := Prod.mk.inj hrest
  exact ⟨rfl, rfl, (List.append_cancel_right hsplit).symm⟩

end Token

end LocaleBundle
