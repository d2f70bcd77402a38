import LocaleBundle.Proofs.Json.Scalar
import LocaleBundle.Proofs.Json.Text

/-!
# The texts of literals

The values that are no lists and no maps are literals: strings, words and numbers. Reading a value
takes exactly the text of a literal off the front, unless the value is a list or a map, and it takes
all of such a text unless the text after it goes on with a number.
-/

namespace LocaleBundle

/-- Words, numbers and texts: the values that a call may have as arguments. -/
inductive Value.IsLiteral : Value → Prop
  | null : IsLiteral .null
  | bool (b : Bool) : IsLiteral (.bool b)
  | int (n : ℤ) : IsLiteral (.int n)
  | float (x : Binary64) : IsLiteral (.float x)
  | text (s : String) : IsLiteral (.text s)

lemma Value.IsLiteral.isJson {v : Value} (h : v.IsLiteral) : v.IsJson := by
  cases h with
  | null => exact .null
  | bool b => exact .bool b
  | int n => exact .int n
  | float x => exact .float x
  | text s => exact .text s

namespace Json

/-- The texts of literals. -/
inductive LiteralText : Value → List Char → Prop
  | text {pieces : List Piece} {body : List Char} (h : PiecesText pieces body) :
    LiteralText (.text (String.ofList (joinPieces pieces))) ('"' :: (body ++ ['"']))
  | scalar {v : Value} {t : List Char} (h : ScalarText v t) : LiteralText v t

lemma LiteralText.isLiteral {v : Value} {t : List Char} (h : LiteralText v t) : v.IsLiteral := by
  cases h with
  | text h => exact .text _
  | scalar h =>
    cases h with
    | word h =>
      simp only [literals, List.mem_cons, List.not_mem_nil, or_false, Prod.mk.injEq] at h
      rcases h with ⟨-, rfl⟩ | ⟨-, rfl⟩ | ⟨-, rfl⟩ | ⟨-, rfl⟩ | ⟨-, rfl⟩ | ⟨-, rfl⟩
      · exact .null
      · exact .bool true
      · exact .bool false
      · exact .float _
      · exact .float _
      · exact .float _
    | number h =>
      cases h with
      | int => exact .int _
      | float => exact .float _

lemma readText_append {pieces : List Piece} {body : List Char} (h : PiecesText pieces body)
    (s : List Char) :
    readText (body ++ '"' :: s) = .ok (String.ofList (joinPieces pieces), s) := by
  rw [readText, readPieces_append h]
  rfl

/-- The text of a literal is read whole. -/
lemma readValue_append {v : Value} {t s : List Char} (h : LiteralText v t) (hs : EndsNumber s)
    (fuel : ℕ) : readValue (fuel + 1) (t ++ s) = .ok (v, s) := by
  cases h with
  | text h =>
    rw [List.cons_append, List.append_assoc, List.singleton_append, readValue, readText_append h]
    rfl
  | scalar h => exact readValue_scalarText h hs fuel

lemma read_append {v : Value} {t s : List Char} (h : LiteralText v t) (hs : EndsNumber s) :
    read (t ++ s) = .ok (v, s) := readValue_append h hs _

lemma exists_of_readText {s rest : List Char} {t : String} (h : readText s = .ok (t, rest)) :
    ∃ pieces body, PiecesText pieces body ∧ t = String.ofList (joinPieces pieces) ∧
      s = body ++ '"' :: rest := by
  unfold readText at h
  obtain ⟨pieces, hpieces, rfl⟩ :=
    exists_of_map_eq_ok (f := fun pieces => String.ofList (joinPieces pieces)) h
  obtain ⟨body, hbody, hs⟩ := exists_of_readPieces hpieces
  exact ⟨pieces, body, hbody, rfl, hs⟩

/-- What was read is a list or a map, or the text of a literal was taken off. -/
lemma exists_of_readValue {fuel : ℕ} {s rest : List Char} {v : Value}
    (h : readValue fuel s = .ok (v, rest)) :
    (∃ items, v = .list items) ∨ (∃ entries, v = .map entries) ∨
      ∃ t, LiteralText v t ∧ s = t ++ rest := by
  cases fuel with
  | zero => exact absurd h (by simp [readValue])
  | succ fuel =>
    simp only [readValue] at h
    split at h
    · obtain ⟨t, ht, rfl⟩ := exists_of_map_eq_ok h
      obtain ⟨pieces, body, hbody, rfl, rfl⟩ := exists_of_readText ht
      exact Or.inr (Or.inr ⟨_, .text hbody, by simp⟩)
    · left
      split at h
      · obtain ⟨rfl, -⟩ := Prod.mk.inj (Except.ok.inj h)
        exact ⟨[], rfl⟩
      · obtain ⟨items, -, rfl⟩ := exists_of_map_eq_ok h
        exact ⟨items, rfl⟩
    · right
      left
      split at h
      · obtain ⟨rfl, -⟩ := Prod.mk.inj (Except.ok.inj h)
        exact ⟨[], rfl⟩
      · obtain ⟨members, -, rfl⟩ :=
          exists_of_map_eq_ok (f := fun members => Value.map (Entries.ofPairs members)) h
        exact ⟨_, rfl⟩
    · obtain ⟨t, ht, rfl⟩ := exists_of_readScalar h
      exact Or.inr (Or.inr ⟨t, .scalar ht, rfl⟩)

/-! ## Writing -/

/-- What is written of a text is the text of it as a string. -/
lemma literalText_writeText (s : String) : LiteralText (.text s) (writeText s) := by
  obtain ⟨pieces, hpieces, hjoin⟩ := exists_piecesText_escape s.toList
  have htext := LiteralText.text hpieces
  rwa [hjoin, String.ofList_toList] at htext

end Json

end LocaleBundle
