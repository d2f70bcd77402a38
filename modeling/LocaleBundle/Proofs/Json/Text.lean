import LocaleBundle.Proofs.Json.IsJson
import Mathlib.Tactic.IntervalCases

/-!
# The texts of strings

In a string, a character stands for itself, as a letter after a backslash, or as the four hexadecimal
digits of sixteen bits. The reader takes exactly such pieces up to the first quote between them.

A character is written in one of the three ways, as a piece that stands for that character whatever
comes after it. So what is written of a text is read as that text.
-/

namespace LocaleBundle.Json

/-! ## Reading pieces -/

/-- The texts that a piece of a string has. -/
inductive PieceText : Piece → List Char → Prop
  | char {c : Char} (hquote : c ≠ '"') (hslash : c ≠ '\\') (hcontrol : ¬ c.toNat < 0x20) :
    PieceText (.char c) [c]
  | escape {letter c : Char} (h : shortEscape? letter = some c) :
    PieceText (.char c) ['\\', letter]
  | unit {a b c d : Char} {n : ℕ} (h : hexUnit? a b c d = some n) :
    PieceText (.unit n) ['\\', 'u', a, b, c, d]

/-- The texts that pieces have one after the other. -/
inductive PiecesText : List Piece → List Char → Prop
  | nil : PiecesText [] []
  | cons {piece : Piece} {pieces : List Piece} {t ts : List Char} (hpiece : PieceText piece t)
    (hpieces : PiecesText pieces ts) : PiecesText (piece :: pieces) (t ++ ts)

/-- The text of a piece is read as that piece, when more text follows. -/
lemma readPieces_pieceText {piece : Piece} {t : List Char} (h : PieceText piece t)
    (opening : List Char) (next : Char) (s : List Char) :
    readPieces opening (t ++ next :: s) =
      (readPieces opening (next :: s)).map fun (pieces, rest) => (piece :: pieces, rest) := by
  cases h with
  | char hquote hslash hcontrol => simp [readPieces, hslash, hcontrol]
  | @escape letter c h =>
    have hletter : letter ≠ 'u' := by
      rintro rfl
      exact absurd h (by simp [shortEscape?])
    simp [readPieces, h, hletter]
  | unit h => simp [readPieces, h]

lemma readPieces_append {pieces : List Piece} {ts : List Char} (h : PiecesText pieces ts)
    (opening rest : List Char) :
    readPieces opening (ts ++ '"' :: rest) = .ok (pieces, rest) := by
  induction h with
  | nil => rfl
  | @cons piece pieces t ts hpiece hpieces ih =>
    -- the closing quote is the text that follows the last piece
    obtain ⟨next, s, hnext⟩ : ∃ next s, ts ++ '"' :: rest = next :: s :=
      List.exists_cons_of_ne_nil (by simp)
    rw [List.append_assoc, hnext, readPieces_pieceText hpiece, ← hnext, ih]
    rfl

/-- Pieces that are read are all there is before the closing quote. -/
lemma exists_of_readPieces {opening s rest : List Char} {pieces : List Piece}
    (h : readPieces opening s = .ok (pieces, rest)) :
    ∃ ts, PiecesText pieces ts ∧ s = ts ++ '"' :: rest := by
  fun_induction readPieces opening s generalizing pieces rest with
  | case1 => exact absurd h (by simp)
  | case2 after =>
    obtain ⟨rfl, rfl⟩ := Prod.mk.inj (Except.ok.inj h)
    exact ⟨[], .nil, rfl⟩
  | case3 => exact absurd h (by simp)
  | case4 => exact absurd h (by simp)
  | case5 a b c d next after n hunit ih =>
    obtain ⟨tail, htail, rfl⟩ := exists_of_map_eq_ok (f := fun pieces => Piece.unit n :: pieces) h
    obtain ⟨ts, hts, hs⟩ := ih htail
    exact ⟨_, .cons (.unit hunit) hts, by rw [hs]; rfl⟩
  | case6 => exact absurd h (by simp)
  | case7 => exact absurd h (by simp)
  | case8 letter after _ _ c hletter ih =>
    obtain ⟨tail, htail, rfl⟩ := exists_of_map_eq_ok (f := fun pieces => Piece.char c :: pieces) h
    obtain ⟨ts, hts, hs⟩ := ih htail
    exact ⟨_, .cons (.escape hletter) hts, by rw [hs]; rfl⟩
  | case9 => exact absurd h (by simp)
  | case10 c after hquote hlast _ _ hletter hcontrol ih =>
    -- a backslash is read with what comes after it
    have hslash : c ≠ '\\' := by
      intro hc
      cases after with
      | nil => exact hlast hc rfl
      | cons letter more => exact hletter letter more hc rfl
    obtain ⟨tail, htail, rfl⟩ := exists_of_map_eq_ok (f := fun pieces => Piece.char c :: pieces) h
    obtain ⟨ts, hts, hs⟩ := ih htail
    exact ⟨_, .cons (.char hquote hslash hcontrol) hts, by rw [hs]; rfl⟩

/-! ## Texts are read back -/

/-- Whether a piece stands for a character of its own, whatever comes after it. -/
inductive Piece.Shows (c : Char) : Piece → Prop
  | char : Piece.Shows c (.char c)
  | unit (h : c.toNat < 0x20) : Piece.Shows c (.unit c.toNat)

lemma unitChar_of_lt {c : Char} (h : c.toNat < 0x20) : joinPieces.unitChar c.toNat = c := by
  have hhigh : isHighSurrogate c.toNat = false := by
    rw [isHighSurrogate, Bool.and_eq_false_iff, decide_eq_false_iff_not]
    omega
  have hlow : isLowSurrogate c.toNat = false := by
    rw [isLowSurrogate, Bool.and_eq_false_iff, decide_eq_false_iff_not]
    omega
  rw [joinPieces.unitChar, hhigh, hlow]
  exact Char.ofNat_toNat c

lemma joinPieces_cons {c : Char} {piece : Piece} (h : piece.Shows c) (pieces : List Piece) :
    joinPieces (piece :: pieces) = c :: joinPieces pieces := by
  cases h with
  | char => rfl
  | unit hlt =>
    -- a small unit is no half of a pair, so what comes next does not matter
    have hhigh : isHighSurrogate c.toNat = false := by
      rw [isHighSurrogate, Bool.and_eq_false_iff, decide_eq_false_iff_not]
      omega
    cases pieces with
    | nil => simp [joinPieces, unitChar_of_lt hlt]
    | cons next pieces =>
      cases next with
      | char d => simp [joinPieces, unitChar_of_lt hlt]
      | unit low => simp [joinPieces, hhigh, unitChar_of_lt hlt]

/-- Four hexadecimal digits are read as the number they are made from. -/
lemma exists_hex_four : ∀ n < 0x20, ∃ a b c d, Text.Numeral.hex 4 n = [a, b, c, d] ∧
    hexUnit? a b c d = some n := by
  intro n hn
  interval_cases n <;> exact ⟨_, _, _, _, rfl, rfl⟩

/-- The text of a character is that of one piece, which stands for the character. -/
lemma exists_pieceText_escape (c : Char) :
    ∃ piece : Piece, piece.Shows c ∧ PieceText piece (escape c) := by
  by_cases hquote : c = '"'
  · subst hquote
    exact ⟨_, .char, .escape rfl⟩
  by_cases hslash : c = '\\'
  · subst hslash
    exact ⟨_, .char, .escape rfl⟩
  by_cases hn : c = '\n'
  · subst hn
    exact ⟨_, .char, .escape rfl⟩
  by_cases hr : c = '\r'
  · subst hr
    exact ⟨_, .char, .escape rfl⟩
  by_cases ht : c = '\t'
  · subst ht
    exact ⟨_, .char, .escape rfl⟩
  by_cases hb : c = '\x08'
  · subst hb
    exact ⟨_, .char, .escape rfl⟩
  by_cases hf : c = '\x0c'
  · subst hf
    exact ⟨_, .char, .escape rfl⟩
  by_cases hcontrol : c.toNat < 0x20
  · -- the other control characters are written by their number
    obtain ⟨h₁, h₂, h₃, h₄, hhex, hunit⟩ := exists_hex_four c.toNat hcontrol
    have hescape : escape c = '\\' :: 'u' :: Text.Numeral.hex 4 c.toNat := by
      simp [escape, hquote, hslash, hn, hr, ht, hb, hf, hcontrol]
    rw [hescape, hhex]
    exact ⟨_, .unit hcontrol, .unit hunit⟩
  · have hescape : escape c = [c] := by
      simp [escape, hquote, hslash, hn, hr, ht, hb, hf, hcontrol]
    rw [hescape]
    exact ⟨_, .char, .char hquote hslash hcontrol⟩

lemma exists_piecesText_escape (cs : List Char) :
    ∃ pieces, PiecesText pieces (cs.flatMap escape) ∧ joinPieces pieces = cs := by
  induction cs with
  | nil => exact ⟨[], .nil, rfl⟩
  | cons c cs ih =>
    obtain ⟨pieces, hpieces, hjoin⟩ := ih
    obtain ⟨piece, hshows, hpiece⟩ := exists_pieceText_escape c
    refine ⟨piece :: pieces, .cons hpiece hpieces, ?_⟩
    rw [joinPieces_cons hshows, hjoin]

/-- What is written of a text is read as that text, whatever comes after it. -/
theorem readText_flatMap_escape (s : String) (rest : List Char) :
    readText (s.toList.flatMap escape ++ '"' :: rest) = .ok (s, rest) := by
  obtain ⟨pieces, hpieces, hjoin⟩ := exists_piecesText_escape s.toList
  rw [readText, readPieces_append hpieces]
  simp [Except.map, hjoin]

end LocaleBundle.Json
