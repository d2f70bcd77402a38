import LocaleBundle.Proofs.Template.Binding
import Mathlib.Data.List.TakeWhile

/-!
# Filling a template from left to right

A template is filled piece by piece, so what a text starts with decides how the filled text
starts. What the arguments contribute is fixed before they are known: `fill` puts together
parts that depend on the template and the number of the arguments only.
-/

namespace LocaleBundle.Template

open Text

/-- The characters of a template with the arguments put in. -/
def fillChars (args : List Value) (s : List Char) : List Char :=
  (pieces s).flatMap (Piece.filled args)

lemma fill_eq_ofList (template : String) (args : List Value) :
    fill template args = String.ofList (fillChars args template.toList) := rfl

/-! ## One piece at a time -/

lemma piecesFrom_skip (read s : List Char) :
    piecesFrom read.length (read ++ s) = piecesFrom 0 s := by
  induction read with
  | nil => rfl
  | cons c read ih => exact ih

lemma pieces_plain {c : Char} (hc : c ≠ '$') (s : List Char) :
    pieces (c :: s) = .plain c :: pieces s := by
  rw [pieces, piecesFrom, if_neg hc]
  rfl

lemma pieces_dollars (s : List Char) : pieces ('$' :: '$' :: s) = .dollar :: pieces s := by
  have hskip : piecesFrom 1 ('$' :: s) = piecesFrom 0 s := piecesFrom_skip ['$'] s
  rw [pieces, piecesFrom, if_pos rfl, List.head?_cons, if_pos rfl, hskip]
  rfl

lemma takeWhile_isDigit_eq_nil {s : List Char} (h : ∀ c ∈ s.head?, isDigit c = false) :
    s.takeWhile isDigit = [] := by
  cases s with
  | nil => rfl
  | cons c s => exact List.takeWhile_cons_of_neg (by simp [h c rfl])

/-- Behind a run of digits stands no digit. -/
lemma isDigit_head_dropWhile (s : List Char) :
    ∀ c ∈ (s.dropWhile isDigit).head?, isDigit c = false := by
  intro c hc
  obtain ⟨tail, htail⟩ := List.head?_eq_some_iff.mp hc
  have hne : s.dropWhile isDigit ≠ [] := by
    rw [htail]
    exact List.cons_ne_nil c tail
  have hhead := List.head_dropWhile_not isDigit hne
  simpa [htail] using hhead

/-- A dollar sign with neither another one nor a digit behind it is plain. -/
lemma pieces_lone {s : List Char} (hdollar : s.head? ≠ some '$')
    (hdigit : ∀ c ∈ s.head?, isDigit c = false) : pieces ('$' :: s) = .plain '$' :: pieces s := by
  rw [pieces, piecesFrom, if_pos rfl, if_neg hdollar, takeWhile_isDigit_eq_nil hdigit, if_pos rfl]
  rfl

/-- A slot takes all digits after its dollar sign. -/
lemma pieces_slot {digits : List Char} (hne : digits ≠ [])
    (hdigits : ∀ c ∈ digits, isDigit c = true) {s : List Char}
    (hs : ∀ c ∈ s.head?, isDigit c = false) :
    pieces ('$' :: (digits ++ s)) = .slot digits :: pieces s := by
  have hhead : (digits ++ s).head? ≠ some '$' := by
    obtain ⟨d, ds, rfl⟩ := List.exists_cons_of_ne_nil hne
    intro h
    obtain rfl : d = '$' := Option.some.inj h
    have hdollar := hdigits '$' List.mem_cons_self
    rw [isDigit_dollar] at hdollar
    exact Bool.false_ne_true hdollar
  have hrun : (digits ++ s).takeWhile isDigit = digits := by
    rw [List.takeWhile_append_of_pos hdigits, takeWhile_isDigit_eq_nil hs, List.append_nil]
  rw [pieces, piecesFrom, if_pos rfl, if_neg hhead, hrun, if_neg hne, piecesFrom_skip]
  rfl

@[simp] lemma fillChars_nil (args : List Value) : fillChars args [] = [] := rfl

/-! ## Parts that do not depend on the arguments -/

/-- What a filled template is made of: text of its own, and the texts of arguments. -/
inductive Part where
  | own (text : List Char)
  | argument (index : ℕ)

/-- A part's text. -/
def Part.text (args : List Value) : Part → List Char
  | .own text => text
  | .argument index => args[index]?.elim [] fun v => v.argumentText.toList

/-- The parts of a piece when there are `count` arguments. -/
def Piece.parts (count : ℕ) : Piece → List Part
  | .plain c => [.own [c]]
  | .dollar => [.own ['$']]
  | .slot digits =>
    match bind? count digits with
    | none => [.own ('$' :: digits)]
    | some (index, rest) => [.argument index, .own rest]

lemma flatMap_text_parts (args : List Value) (piece : Piece) :
    (piece.parts args.length).flatMap (Part.text args) = piece.filled args := by
  cases piece with
  | plain c => rfl
  | dollar => rfl
  | slot digits =>
    rw [Piece.parts, Piece.filled]
    cases bind? args.length digits with
    | none => simp [Part.text]
    | some bound => simp [Part.text]

/-- The texts of the arguments are put in as they are: a template and a number of arguments
fix the text around them. -/
lemma fill_eq_parts (template : String) (args : List Value) :
    fill template args = String.ofList
      (((pieces template.toList).flatMap (Piece.parts args.length)).flatMap (Part.text args)) := by
  rw [fill, List.flatMap_assoc]
  simp only [flatMap_text_parts]

/-- Nothing but the texts of the arguments is put in. -/
lemma fill_congr (template : String) {args args' : List Value}
    (h : args.map Value.argumentText = args'.map Value.argumentText) :
    fill template args = fill template args' := by
  have hlength : args.length = args'.length := by
    have hlengths := congrArg List.length h
    rwa [List.length_map, List.length_map] at hlengths
  have htext : Part.text args = Part.text args' := by
    funext part
    cases part with
    | own text => rfl
    | argument index =>
      have hindex : (args[index]?).map Value.argumentText = (args'[index]?).map Value.argumentText := by
        rw [← List.getElem?_map, ← List.getElem?_map, h]
      rw [Part.text, Part.text]
      cases hleft : args[index]? with
      | none =>
        rw [hleft, Option.map_none, eq_comm, Option.map_eq_none_iff] at hindex
        rw [hindex]
      | some v =>
        rw [hleft, Option.map_some, eq_comm, Option.map_eq_some_iff] at hindex
        obtain ⟨v', hv', htexts⟩ := hindex
        rw [hv', Option.elim_some, Option.elim_some, htexts]
  rw [fill_eq_parts, fill_eq_parts, hlength, htext]

end LocaleBundle.Template
