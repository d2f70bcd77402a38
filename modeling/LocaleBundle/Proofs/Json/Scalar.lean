import LocaleBundle.Json.Writer
import LocaleBundle.Proofs.Json.Number

/-!
# The texts of words and numbers

No word starts with a digit, and the only word that starts with a minus sign has a letter after
it, so a number is never taken for a word. The reader takes exactly the text of a word or of a number
off the front, and such a text is what is written of the value.
-/

namespace LocaleBundle.Json

open Text Numeral

/-- The texts of words and numbers. -/
inductive ScalarText : Value → List Char → Prop
  | word {word : String} {v : Value} (h : (word, v) ∈ literals) : ScalarText v word.toList
  | number {negative : Bool} {v : Value} {t : List Char} (h : UnsignedText negative v t) :
    ScalarText v ((if negative then ['-'] else []) ++ t)

/-! ## Words -/

/-- A word is read as its value: no word is a lead of another. -/
lemma readLiteral?_append {word : String} {v : Value} (h : (word, v) ∈ literals) (s : List Char) :
    readLiteral? (word.toList ++ s) = some (v, s) := by
  simp only [literals, List.mem_cons, List.not_mem_nil, or_false, Prod.mk.injEq] at h
  rcases h with ⟨rfl, rfl⟩ | ⟨rfl, rfl⟩ | ⟨rfl, rfl⟩ | ⟨rfl, rfl⟩ | ⟨rfl, rfl⟩ | ⟨rfl, rfl⟩ <;> rfl

lemma exists_of_readLiteral? {s rest : List Char} {v : Value}
    (h : readLiteral? s = some (v, rest)) :
    ∃ word, (word, v) ∈ literals ∧ s = word.toList ++ rest := by
  obtain ⟨⟨word, w⟩, hmem, hword⟩ := List.exists_of_findSome?_eq_some h
  obtain ⟨tail, hafter, htail⟩ := Option.map_eq_some_iff.mp hword
  obtain ⟨rfl, rfl⟩ := Prod.mk.inj htail
  exact ⟨word, hmem, eq_append_of_after? hafter⟩

/-! ## Numbers -/

/-- A text whose first character is a digit. -/
def StartsWithDigit (s : List Char) : Prop := ∃ c rest, s = c :: rest ∧ c.isDigit = true

lemma ne_of_isDigit {c d : Char} (hc : c.isDigit = true) (hd : d.isDigit = false) : d ≠ c := by
  rintro rfl
  exact Bool.false_ne_true (hd.symm.trans hc)

lemma IsWhole.startsWithDigit {whole : List Char} (h : IsWhole whole) (s : List Char) :
    StartsWithDigit (whole ++ s) := by
  have hne : whole ≠ [] := by
    rcases h with rfl | ⟨-, hne, -⟩
    · decide
    · exact hne
  obtain ⟨c, rest, rfl⟩ := List.exists_cons_of_ne_nil hne
  exact ⟨c, rest ++ s, rfl, h.isDigit c List.mem_cons_self⟩

lemma UnsignedText.startsWithDigit {negative : Bool} {v : Value} {t : List Char}
    (h : UnsignedText negative v t) (s : List Char) : StartsWithDigit (t ++ s) := by
  cases h with
  | int hwhole => exact hwhole.startsWithDigit s
  | float hwhole =>
    rw [List.append_assoc]
    exact hwhole.startsWithDigit _

/-- Words start with other characters than numbers. -/
lemma readLiteral?_number (negative : Bool) {s : List Char} (hs : StartsWithDigit s) :
    readLiteral? ((if negative then ['-'] else []) ++ s) = none := by
  obtain ⟨c, rest, rfl, hc⟩ := hs
  have hne : ∀ d : Char, d.isDigit = false → d ≠ c := fun _ => ne_of_isDigit hc
  cases negative with
  | false =>
    simp [readLiteral?, literals, after?, hne 'n' rfl, hne 't' rfl, hne 'f' rfl, hne 'N' rfl,
      hne 'I' rfl, hne '-' rfl]
  | true =>
    -- only `-Infinity` starts with the sign
    simp [readLiteral?, literals, after?, hne 'I' rfl]

/-- A number is read with its sign. -/
lemma readScalar_number {negative : Bool} {s rest : List Char} {v : Value}
    (hs : StartsWithDigit s) (hread : readUnsigned? negative s = some (v, rest)) :
    readScalar ((if negative then ['-'] else []) ++ s) = .ok (v, rest) := by
  have hword := readLiteral?_number negative hs
  cases negative with
  | false =>
    obtain ⟨c, tail, rfl, hc⟩ := hs
    have hminus : c ≠ '-' := (ne_of_isDigit hc rfl).symm
    simp only [Bool.false_eq_true, if_false, List.nil_append] at hword ⊢
    rw [readScalar, hword, hread]
    rintro rest' ⟨rfl, -⟩
    exact hminus rfl
  | true =>
    simp only [if_true, List.singleton_append] at hword ⊢
    simp [readScalar, hword, hread]

/-! ## Reading -/

/-- The text of a word or a number is read whole. -/
lemma readScalar_append {v : Value} {t s : List Char} (h : ScalarText v t) (hs : EndsNumber s) :
    readScalar (t ++ s) = .ok (v, s) := by
  cases h with
  | word h =>
    have hword := readLiteral?_append h s
    simp only [readScalar, hword]
  | number h =>
    rw [List.append_assoc]
    exact readScalar_number (h.startsWithDigit s) (readUnsigned?_append h hs)

/-- What is read is the text of a word or of a number. -/
lemma exists_of_readScalar {s rest : List Char} {v : Value} (h : readScalar s = .ok (v, rest)) :
    ∃ t, ScalarText v t ∧ s = t ++ rest := by
  simp only [readScalar] at h
  split at h
  · rename_i hword
    obtain rfl := Except.ok.inj h
    obtain ⟨word, hmem, rfl⟩ := exists_of_readLiteral? hword
    exact ⟨_, .word hmem, rfl⟩
  · rename_i hnumber
    obtain rfl := Except.ok.inj h
    -- with a minus sign or without
    split at hnumber
    · obtain ⟨t, ht, rfl⟩ := exists_of_readUnsigned? hnumber
      exact ⟨_, .number ht, rfl⟩
    · obtain ⟨t, ht, rfl⟩ := exists_of_readUnsigned? hnumber
      exact ⟨_, .number ht, rfl⟩
  · exact absurd h (by simp)

/-! ## Where a text starts -/

/-- The characters that words and numbers start with. -/
def startsScalar (c : Char) : Bool := c.isDigit || ['-', 'n', 't', 'f', 'N', 'I'].contains c

lemma startsScalar_of_isDigit {c : Char} (hc : c.isDigit = true) : startsScalar c = true := by
  rw [startsScalar, hc]
  rfl

lemma ne_of_startsScalar {c d : Char} (hc : startsScalar c = true) (hd : startsScalar d = false) :
    c ≠ d := by
  rintro rfl
  exact Bool.false_ne_true (hd.symm.trans hc)

lemma isBlank_of_startsScalar {c : Char} (hc : startsScalar c = true) : isBlank c = false := by
  simp [isBlank, ne_of_startsScalar hc (d := ' ') rfl, ne_of_startsScalar hc (d := '\t') rfl,
    ne_of_startsScalar hc (d := '\n') rfl, ne_of_startsScalar hc (d := '\r') rfl]

lemma exists_cons_scalarText {v : Value} {t : List Char} (h : ScalarText v t) :
    ∃ c s, t = c :: s ∧ startsScalar c = true := by
  cases h with
  | word h =>
    simp only [literals, List.mem_cons, List.not_mem_nil, or_false, Prod.mk.injEq] at h
    rcases h with ⟨rfl, -⟩ | ⟨rfl, -⟩ | ⟨rfl, -⟩ | ⟨rfl, -⟩ | ⟨rfl, -⟩ | ⟨rfl, -⟩ <;>
      exact ⟨_, _, rfl, rfl⟩
  | @number negative v t h =>
    cases negative with
    | false =>
      obtain ⟨c, s, hcons, hc⟩ := h.startsWithDigit []
      rw [List.append_nil] at hcons
      exact ⟨c, s, hcons, startsScalar_of_isDigit hc⟩
    | true => exact ⟨'-', t, rfl, rfl⟩

/-- No string, list or map starts as a word or a number does. -/
lemma readValue_scalarText {v : Value} {t s : List Char} (h : ScalarText v t) (hs : EndsNumber s)
    (fuel : ℕ) : readValue (fuel + 1) (t ++ s) = .ok (v, s) := by
  have hread := readScalar_append h hs
  obtain ⟨c, tail, rfl, hc⟩ := exists_cons_scalarText h
  rw [List.cons_append] at hread ⊢
  rw [readValue, hread]
  · rintro rest ⟨rfl, -⟩
    exact ne_of_startsScalar hc (d := '"') rfl rfl
  · rintro rest ⟨rfl, -⟩
    exact ne_of_startsScalar hc (d := '[') rfl rfl
  · rintro rest ⟨rfl, -⟩
    exact ne_of_startsScalar hc (d := '\x7b') rfl rfl

/-! ## Writing -/

lemma scalarText_ofInt (n : ℤ) : ScalarText (.int n) (ofInt n) := by
  have htext : UnsignedText (decide (n < 0)) _ _ := .int (isWhole_ofNat n.natAbs)
  rw [toNat_ofNat, signed_natAbs] at htext
  have hnumber := ScalarText.number htext
  rw [ofInt]
  by_cases hn : n < 0
  · simpa [hn] using hnumber
  · simpa [hn] using hnumber

lemma scalarText_render (x : Binary64) : ScalarText (.float x) (DoubleText.json.render x) := by
  cases x with
  | nan =>
    have hmem : ("NaN", Value.float .nan) ∈ literals := by simp [literals]
    exact .word hmem
  | infinity negative =>
    cases negative with
    | false =>
      have hmem : ("Infinity", Value.float (.infinity false)) ∈ literals := by simp [literals]
      exact .word hmem
    | true =>
      have hmem : ("-Infinity", Value.float (.infinity true)) ∈ literals := by simp [literals]
      exact .word hmem
  | finite negative k =>
    -- what is read of a text with nothing after it is the whole text
    have hread := readUnsigned?_magnitude DoubleText.json negative k.isLt
      (s := []) (fun c hc => absurd hc (by simp))
    rw [Binary64.ofOrdinal, dif_pos k.isLt] at hread
    obtain ⟨t, ht, hmagnitude⟩ := exists_of_readUnsigned? hread
    rw [List.append_nil, List.append_nil] at hmagnitude
    rw [DoubleText.render, hmagnitude]
    exact .number ht

end LocaleBundle.Json
