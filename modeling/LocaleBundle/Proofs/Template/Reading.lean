import LocaleBundle.Proofs.Template.Filling
import Mathlib.Data.List.Forall2

/-!
# How a template is read

A template is plain text with `$$` and slots in it, and there is one way to read it so: from left to
right, a slot taking all digits after its dollar sign. What a template is filled to follows from its
reading piece by piece, and so does how many arguments it needs. The arguments come in after that, so
their texts are not read.
-/

namespace LocaleBundle.Template

open Text

/-- How a text is read as a template. A dollar sign is plain only if neither another one nor a digit
follows, and no digit follows the digits of a slot. -/
inductive Reading : List Char → List Piece → Prop
  | nil : Reading [] []
  | plain {c : Char} {s : List Char} {pieces : List Piece} (hc : c ≠ '$') (h : Reading s pieces) :
      Reading (c :: s) (.plain c :: pieces)
  | lone {s : List Char} {pieces : List Piece} (hdollar : s.head? ≠ some '$')
      (hdigit : ∀ c ∈ s.head?, isDigit c = false) (h : Reading s pieces) :
      Reading ('$' :: s) (.plain '$' :: pieces)
  | dollars {s : List Char} {pieces : List Piece} (h : Reading s pieces) :
      Reading ('$' :: '$' :: s) (.dollar :: pieces)
  | slot {digits s : List Char} {pieces : List Piece} (hne : digits ≠ [])
      (hdigits : ∀ c ∈ digits, isDigit c = true) (hend : ∀ c ∈ s.head?, isDigit c = false)
      (h : Reading s pieces) : Reading ('$' :: (digits ++ s)) (.slot digits :: pieces)

/-- Whether a slot stays as it is written: no lead of its digits is the number of an argument. -/
def StaysAsWritten (count : ℕ) (digits : List Char) : Prop :=
  ∀ lead, lead <+: digits → ¬ Names count lead

/-- What a piece gives with the arguments put in. A slot gives the text of the argument that the
longest lead of its digits names, and the digits left over. -/
inductive Gives (args : List Value) : Piece → List Char → Prop
  | plain (c : Char) : Gives args (.plain c) [c]
  | dollar : Gives args .dollar ['$']
  | bound {digits lead rest : List Char} {v : Value} (h : IsBound args.length digits lead rest)
      (hv : args[digitsValue lead - 1]? = some v) :
      Gives args (.slot digits) (v.argumentText.toList ++ rest)
  | asWritten {digits : List Char} (h : StaysAsWritten args.length digits) :
      Gives args (.slot digits) ('$' :: digits)

variable {args : List Value} {count : ℕ} {digits text : List Char} {piece : Piece}
  {read : List Piece}

/-! ## Reading -/

/-- The pieces of a template are a reading of it. -/
lemma reading_piecesFrom (skip : ℕ) (s : List Char) : Reading (s.drop skip) (piecesFrom skip s) := by
  fun_induction piecesFrom skip s with
  | case1 =>
    rw [List.drop_nil]
    exact .nil
  | case2 skip c s ih => exact ih
  | case3 s hdollar ih =>
    obtain ⟨tail, rfl⟩ := List.head?_eq_some_iff.mp hdollar
    exact .dollars ih
  | case4 s hdollar digits hnone ih =>
    refine .lone hdollar (fun c hc => ?_) ih
    rw [← Bool.not_eq_true]
    intro hdigit
    obtain ⟨tail, rfl⟩ := List.head?_eq_some_iff.mp hc
    have hrun : (c :: tail).takeWhile isDigit = c :: tail.takeWhile isDigit :=
      List.takeWhile_cons_of_pos hdigit
    exact List.cons_ne_nil _ _ (hrun.symm.trans hnone)
  | case5 s hdollar digits hsome ih =>
    have hcut : s.drop digits.length = s.dropWhile isDigit := by
      conv_lhs => rw [← List.takeWhile_append_dropWhile (p := isDigit) (l := s)]
      exact List.drop_left
    rw [hcut] at ih
    have hread := Reading.slot hsome (fun c hc => List.mem_takeWhile_imp hc)
      (isDigit_head_dropWhile s) ih
    rwa [List.takeWhile_append_dropWhile] at hread
  | case6 c s hc ih => exact .plain hc ih

/-- A template has one reading, its pieces. -/
lemma reading_iff {s : List Char} : Reading s read ↔ read = pieces s := by
  constructor
  · intro h
    induction h with
    | nil => rfl
    | plain hc h ih => rw [pieces_plain hc, ih]
    | lone hdollar hdigit h ih => rw [pieces_lone hdollar hdigit, ih]
    | dollars h ih => rw [pieces_dollars, ih]
    | slot hne hdigits hend h ih => rw [pieces_slot hne hdigits hend, ih]
  · rintro rfl
    exact reading_piecesFrom 0 s

/-! ## Filling -/

lemma bind?_eq_none_iff : bind? count digits = none ↔ StaysAsWritten count digits := by
  rw [← Option.not_isSome_iff_eq_none, isSome_bind?_iff]
  simp only [StaysAsWritten, not_exists, not_and]

lemma gives_iff : Gives args piece text ↔ text = piece.filled args := by
  constructor
  · intro h
    cases h with
    | plain c => rfl
    | dollar => rfl
    | bound h hv =>
      rw [Piece.filled, bind?_eq_some_iff.mpr ⟨_, h, rfl⟩]
      simp only [hv, Option.elim_some]
    | asWritten h => rw [Piece.filled, bind?_eq_none_iff.mpr h]
  · rintro rfl
    cases piece with
    | plain c => exact .plain c
    | dollar => exact .dollar
    | slot digits =>
      rw [Piece.filled]
      cases hbind : bind? args.length digits with
      | none => exact .asWritten (bind?_eq_none_iff.mp hbind)
      | some bound =>
        obtain ⟨lead, hbound, hindex⟩ := bind?_eq_some_iff.mp hbind
        -- the number of an argument counts from one
        have hlt : digitsValue lead - 1 < args.length := by
          have hnames := hbound.names
          unfold Names at hnames
          omega
        have hv : args[digitsValue lead - 1]? = some args[digitsValue lead - 1] :=
          List.getElem?_eq_getElem hlt
        have hgives := Gives.bound hbound hv
        simp only [hindex, hv, Option.elim_some]
        exact hgives

/-- The pieces of a template are filled one by one. -/
lemma fill_eq_iff {template filled : String} : fill template args = filled ↔
    ∃ texts, List.Forall₂ (Gives args) (pieces template.toList) texts ∧
      filled.toList = texts.flatten := by
  have hall : ∀ texts, List.Forall₂ (Gives args) (pieces template.toList) texts ↔
      texts = (pieces template.toList).map (Piece.filled args) := by
    intro texts
    rw [eq_comm, ← List.forall₂_eq_eq_eq, List.forall₂_map_left_iff]
    exact ⟨fun h => h.imp fun _ _ hgives => (gives_iff.mp hgives).symm,
      fun h => h.imp fun _ _ heq => gives_iff.mpr heq.symm⟩
  simp only [hall, exists_eq_left, ← List.flatMap_def]
  rw [fill, ← String.toList_inj, String.toList_ofList, eq_comm]

/-! ## Serving -/

lemma isServed_iff {template : String} {m : ℤ} : isServed template m = true ↔
    ∀ digits, .slot digits ∈ pieces template.toList → ¬ StaysAsWritten m.toNat digits := by
  rw [isServed, List.all_eq_true]
  constructor
  · intro h digits hdigits
    have hserved : (bind? m.toNat digits).isSome = true := h _ hdigits
    rwa [← bind?_eq_none_iff, ← Option.not_isSome_iff_eq_none, not_not]
  · intro h piece hpiece
    cases piece with
    | plain c => rfl
    | dollar => rfl
    | slot digits =>
      have hnot := h digits hpiece
      rwa [← bind?_eq_none_iff, ← Option.not_isSome_iff_eq_none, not_not] at hnot

/-- More arguments serve what fewer serve. -/
lemma isServed_mono {template : String} {m m' : ℤ} (hle : m ≤ m')
    (h : isServed template m = true) : isServed template m' = true := by
  rw [isServed_iff] at h ⊢
  intro digits hdigits hstays
  refine h digits hdigits fun lead hlead hnames => hstays lead hlead (hnames.mono ?_)
  omega

/-! ## The reading of a template -/

/-- A template has one reading. It is filled to what the pieces of the reading give, one after the
other: plain text gives itself, `$$` a dollar sign, a slot the text of the argument that the longest
lead of its digits names with the digits left over, and any other slot itself. Around the texts of the
arguments stands what the template and their number fix. The template is served exactly if no slot
stays as it is written, and then by more arguments as well; a negative number of them is none. Leads
and integers are assumed to have no more digits than are read and written (see `Text.digitsValue`). -/
theorem fill_of_reading (template : String) :
    (∃! read, Reading template.toList read) ∧
    (∃ parts : ℕ → List Part, ∀ args,
      fill template args = String.ofList ((parts args.length).flatMap (Part.text args))) ∧
    ∀ read, Reading template.toList read →
      (∀ args filled, fill template args = filled ↔
        ∃ texts, List.Forall₂ (Gives args) read texts ∧ filled.toList = texts.flatten) ∧
      (∀ m : ℤ, isServed template m = true ↔
        ∀ digits, .slot digits ∈ read → ¬ StaysAsWritten m.toNat digits) ∧
      ∀ m m' : ℤ, m ≤ m' → isServed template m = true → isServed template m' = true := by
  refine ⟨⟨_, reading_iff.mpr rfl, fun _ hread => reading_iff.mp hread⟩,
    ⟨fun count => (pieces template.toList).flatMap (Piece.parts count), fill_eq_parts template⟩,
    fun read hread => ?_⟩
  obtain rfl := reading_iff.mp hread
  exact ⟨fun args filled => fill_eq_iff, fun m => isServed_iff, fun m m' hle => isServed_mono hle⟩

/-- One argument, whose text looks like a slot, for a slot with two digits and one with the number
zero. -/
theorem fill_of_reading_slots :
    Reading "$$$12 $0".toList [.dollar, .slot ['1', '2'], .plain ' ', .slot ['0']] ∧
    fill "$$$12 $0" [.text "$1"] = "$$12 $0" ∧ isServed "$$$12 $0" 1 = false := by
  have hread : Reading "$$$12 $0".toList [.dollar, .slot ['1', '2'], .plain ' ', .slot ['0']] :=
    reading_iff.mpr (by decide)
  obtain ⟨-, -, hall⟩ := fill_of_reading "$$$12 $0"
  obtain ⟨hfill, hserved, -⟩ := hall _ hread
  have htwelve : Gives [.text "$1"] (.slot ['1', '2']) ['$', '1', '2'] := gives_iff.mpr rfl
  have hzero : StaysAsWritten 1 ['0'] := bind?_eq_none_iff.mp (by decide)
  refine ⟨hread, (hfill _ _).mpr ⟨[['$'], ['$', '1', '2'], [' '], ['$', '0']], ?_, rfl⟩, ?_⟩
  · exact .cons .dollar (.cons htwelve (.cons (.plain ' ') (.cons (.asWritten hzero) .nil)))
  · rw [← Bool.not_eq_true, hserved 1]
    intro hnone
    exact hnone ['0'] (by decide) hzero

end LocaleBundle.Template
