import LocaleBundle.Proofs.Key.Inversion
import LocaleBundle.Proofs.Key.Pieces

/-!
# A key as a template

Filling a key gives back the text of the template literal, as long as every slot is read with
its own number. The digits that follow a slot in the text are offered to it as well, so a slot
is misread exactly when its number together with the first of those digits is still the number
of an argument.
-/

namespace LocaleBundle.Key

open Text Template

/-- The text of a template literal: its segments with the texts of the arguments between
them. -/
def literalText (segments : List String) (args : List Value) : String :=
  segments.headD "" ++
    String.join (List.zipWith (fun arg segment => arg.argumentText ++ segment) args segments.tail)

/-- Whether a slot among `count` takes the first character of the segment behind it as a digit
of its own number. -/
def TakesDigit (count slot : ℕ) (segment : List Char) : Prop :=
  ∃ c d, segment.head? = some c ∧ digitValue? c = some d ∧ 10 * slot + d ≤ count

/-! ## Filled pieces -/

/-- Text of a segment is filled to itself. -/
lemma flatMap_filled_ofChar (args : List Value) (segment : List Char) :
    (segment.map Piece.ofChar).flatMap (Piece.filled args) = segment := by
  induction segment with
  | nil => rfl
  | cons c segment ih =>
    have hc : (Piece.ofChar c).filled args = [c] := by
      unfold Piece.ofChar
      by_cases hdollar : c = '$'
      · rw [if_pos hdollar, hdollar]
        rfl
      · rw [if_neg hdollar]
        rfl
    rw [List.map_cons, List.flatMap_cons, hc, ih]
    rfl

lemma fillChars_escape (args : List Value) (segment s : List Char) :
    fillChars args (escape segment ++ s) = segment ++ fillChars args s := by
  rw [fillChars, pieces_escape, List.flatMap_append, flatMap_filled_ofChar]
  rfl

/-- A slot and its segment are filled before what follows them. -/
lemma fillChars_slotted_cons (args : List Value) (slot : ℕ) (segment : List Char)
    (rest : List (List Char)) :
    fillChars args (slotted slot (segment :: rest)) =
      (Piece.slot (Numeral.ofNat slot ++ segment.takeWhile isDigit)).filled args ++
        (segment.dropWhile isDigit ++ fillChars args (slotted (slot + 1) rest)) := by
  rw [fillChars, pieces_slotted_cons, List.flatMap_cons, List.flatMap_append, flatMap_filled_ofChar]
  rfl

/-! ## Slots that are read with their own number -/

/-- The number of a slot and a digit after it. -/
lemma le_digitsValue_ofNat_cons {c : Char} {d : ℕ} (hd : digitValue? c = some d) (slot : ℕ)
    (more : List Char) :
    10 * slot + d ≤ digitsValue (Numeral.ofNat slot ++ c :: more) := by
  have hle := digitsValue_le_append (Numeral.ofNat slot ++ [c]) more
  rw [digitsValue_append_singleton, digitsValue_ofNat, hd, Option.getD_some] at hle
  rwa [List.append_assoc, List.singleton_append] at hle

lemma filled_slot_of_not_takesDigit {args : List Value} {slot : ℕ} (hslot : 1 ≤ slot)
    {arg : Value} (harg : args[slot - 1]? = some arg) {segment : List Char}
    (h : ¬ TakesDigit args.length slot segment) :
    (Piece.slot (Numeral.ofNat slot ++ segment.takeWhile isDigit)).filled args =
      arg.argumentText.toList ++ segment.takeWhile isDigit := by
  have hcount : slot ≤ args.length := by
    have hlt := (List.getElem?_eq_some_iff.mp harg).1
    omega
  have hlonger : ∀ taken, taken ≠ [] → taken <+: segment.takeWhile isDigit →
      ¬ Names args.length (Numeral.ofNat slot ++ taken) := by
    intro taken hne hpre hnames
    obtain ⟨c, more, rfl⟩ := List.exists_cons_of_ne_nil hne
    have hc : isDigit c = true :=
      List.mem_takeWhile_imp (hpre.subset List.mem_cons_self)
    obtain ⟨d, hd⟩ := Option.isSome_iff_exists.mp hc
    have hhead : segment.head? = some c := by
      obtain ⟨tail, htail⟩ := hpre.trans (List.takeWhile_prefix isDigit)
      rw [← htail]
      rfl
    exact h ⟨c, d, hhead, hd, (le_digitsValue_ofNat_cons hd slot more).trans hnames.2⟩
  rw [Piece.filled, bind?_append_of_longest (Numeral.ofNat_ne_nil slot)
    (names_ofNat hslot hcount) _ hlonger, digitsValue_ofNat]
  simp only [harg, Option.elim_some]

lemma fillChars_slotted {args : List Value} (rest : List (List Char)) :
    ∀ slot, 1 ≤ slot → slot + rest.length = args.length + 1 →
      (∀ j segment, rest[j]? = some segment → ¬ TakesDigit args.length (slot + j) segment) →
      fillChars args (slotted slot rest) =
        (List.zipWith (fun arg segment => arg.argumentText.toList ++ segment)
          (args.drop (slot - 1)) rest).flatten := by
  induction rest with
  | nil =>
    intro slot _ _ _
    simp [slotted]
  | cons segment rest ih =>
    intro slot hslot hlen hfree
    rw [List.length_cons] at hlen
    have hhere : ¬ TakesDigit args.length slot segment := hfree 0 segment rfl
    have hnext : ∀ j segment', rest[j]? = some segment' →
        ¬ TakesDigit args.length (slot + 1 + j) segment' := by
      intro j segment' hj
      rw [Nat.add_right_comm, Nat.add_assoc]
      exact hfree (j + 1) segment' hj
    obtain ⟨arg, harg⟩ : ∃ arg, args[slot - 1]? = some arg :=
      ⟨_, List.getElem?_eq_getElem (by omega)⟩
    have hdrop : args.drop (slot - 1) = arg :: args.drop (slot + 1 - 1) := by
      obtain ⟨hlt, rfl⟩ := List.getElem?_eq_some_iff.mp harg
      rw [List.drop_eq_getElem_cons hlt]
      congr 2
      omega
    rw [fillChars_slotted_cons, filled_slot_of_not_takesDigit hslot harg hhere,
      ih (slot + 1) (by omega) (by omega) hnext, hdrop, List.zipWith_cons_cons, List.flatten_cons,
      List.append_assoc, ← List.append_assoc (segment.takeWhile isDigit),
      List.takeWhile_append_dropWhile, List.append_assoc]

/-! ## Slots that are misread

With empty arguments the filled key holds segments only, and every digit that a slot takes is
missing from them. -/

/-- Arguments without any text. -/
def blanks (count : ℕ) : List Value := List.replicate count (.text "")

lemma length_blanks (count : ℕ) : (blanks count).length = count := List.length_replicate

lemma argument_blanks (count index : ℕ) :
    ((blanks count)[index]?.elim [] fun v => v.argumentText.toList) = [] := by
  rw [blanks, List.getElem?_replicate]
  split
  · rfl
  · rfl

lemma filled_slot_blanks {count slot : ℕ} (hslot : 1 ≤ slot) (hcount : slot ≤ count)
    (segment : List Char) :
    ∃ taken left, segment.takeWhile isDigit = taken ++ left ∧
      (Piece.slot (Numeral.ofNat slot ++ segment.takeWhile isDigit)).filled (blanks count) = left ∧
      (TakesDigit count slot segment → taken ≠ []) := by
  by_cases htakes : TakesDigit count slot segment
  · -- the slot's number with one digit more still names an argument
    obtain ⟨c, d, hhead, hd, hle⟩ := htakes
    have hc : isDigit c = true := by rw [isDigit, hd]; rfl
    obtain ⟨tail, rfl⟩ : ∃ tail, segment = c :: tail := by
      cases segment with
      | nil => simp at hhead
      | cons c' tail => exact ⟨tail, by rw [Option.some.inj hhead]⟩
    have hnames : Names count (Numeral.ofNat slot ++ [c]) := by
      rw [Names, digitsValue_append_singleton, digitsValue_ofNat, hd, Option.getD_some]
      omega
    obtain ⟨taken, left, hrun, hbind⟩ :=
      exists_bind?_append (by simp) hnames (tail.takeWhile isDigit)
    refine ⟨c :: taken, left, ?_, ?_, fun _ => List.cons_ne_nil _ _⟩
    · rw [List.takeWhile_cons_of_pos hc, hrun, List.cons_append]
    · rw [List.append_assoc, List.singleton_append] at hbind
      rw [List.takeWhile_cons_of_pos hc, Piece.filled, length_blanks, hbind]
      simp only [argument_blanks, List.nil_append]
  · obtain ⟨taken, left, hrun, hbind⟩ := exists_bind?_append (Numeral.ofNat_ne_nil slot)
      (names_ofNat hslot hcount) (segment.takeWhile isDigit)
    refine ⟨taken, left, hrun, ?_, fun h => absurd h htakes⟩
    rw [Piece.filled, length_blanks, hbind]
    simp only [argument_blanks, List.nil_append]

lemma length_fillChars_slotted_blanks (count : ℕ) (rest : List (List Char)) :
    ∀ slot, 1 ≤ slot → slot + rest.length = count + 1 →
      (fillChars (blanks count) (slotted slot rest)).length ≤ rest.flatten.length ∧
      ((∃ j segment, rest[j]? = some segment ∧ TakesDigit count (slot + j) segment) →
        (fillChars (blanks count) (slotted slot rest)).length < rest.flatten.length) := by
  induction rest with
  | nil =>
    intro slot _ _
    simp [slotted]
  | cons segment rest ih =>
    intro slot hslot hlen
    rw [List.length_cons] at hlen
    obtain ⟨hle, hlt⟩ := ih (slot + 1) (by omega) (by omega)
    obtain ⟨taken, left, hrun, hfilled, htaken⟩ :=
      filled_slot_blanks hslot (by omega : slot ≤ count) segment
    have hsegment : segment.length
        = (taken ++ left).length + (segment.dropWhile isDigit).length := by
      rw [← hrun, ← List.length_append, List.takeWhile_append_dropWhile]
    rw [List.length_append] at hsegment
    rw [fillChars_slotted_cons, hfilled, List.length_append, List.length_append,
      List.flatten_cons, List.length_append]
    refine ⟨by omega, ?_⟩
    rintro ⟨j, segment', hj, htakes⟩
    cases j with
    | zero =>
      obtain rfl : segment = segment' := Option.some.inj hj
      have hpos := List.length_pos_iff.mpr (htaken htakes)
      omega
    | succ j =>
      rw [Nat.add_comm j 1, ← Nat.add_assoc] at htakes
      have := hlt ⟨j, segment', hj, htakes⟩
      omega

/-! ## Whole keys -/

lemma toList_fill_ofSegments (first : String) (others : List String) (args : List Value) :
    (fill (ofSegments (first :: others)) args).toList =
      first.toList ++ fillChars args (slotted 1 (others.map String.toList)) := by
  rw [fill_eq_ofList, String.toList_ofList, ofSegments, String.toList_ofList, List.map_cons, join,
    fillChars_escape]

lemma toList_literalText (first : String) (others : List String) (args : List Value) :
    (literalText (first :: others) args).toList =
      first.toList ++ (List.zipWith (fun arg segment => arg.argumentText.toList ++ segment)
        args (others.map String.toList)).flatten := by
  rw [literalText, String.toList_append, String.toList_join, List.headD_cons, List.tail_cons,
    List.zipWith_map_right, List.flatMap_def, List.map_zipWith]
  simp only [String.toList_append]

/-- The blank text of a template literal is its segments. -/
lemma length_literalText_blanks (first : String) (others : List String) :
    (literalText (first :: others) (blanks others.length)).toList.length =
      first.toList.length + (others.map String.toList).flatten.length := by
  have hzip : List.zipWith (fun arg segment => arg.argumentText.toList ++ segment)
      (blanks others.length) (others.map String.toList) = others.map String.toList := by
    induction others with
    | nil => rfl
    | cons segment others ih =>
      rw [blanks, List.length_cons, List.replicate_succ, List.map_cons, List.zipWith_cons_cons]
      rw [blanks] at ih
      rw [ih]
      rfl
  rw [toList_literalText, hzip, List.length_append]

lemma fill_ofSegments_of_not_takesDigit {segments : List String} (hne : segments ≠ [])
    (hfree : ∀ slot segment, 1 ≤ slot → segments[slot]? = some segment →
      ¬ TakesDigit (segments.length - 1) slot segment.toList)
    {args : List Value} (hargs : args.length = segments.length - 1) :
    fill (ofSegments segments) args = literalText segments args := by
  obtain ⟨first, others, rfl⟩ := List.exists_cons_of_ne_nil hne
  rw [List.length_cons, Nat.add_sub_cancel] at hargs
  have hslots : ∀ j segment, (others.map String.toList)[j]? = some segment →
      ¬ TakesDigit args.length (1 + j) segment := by
    intro j segment hj
    rw [List.getElem?_map, Option.map_eq_some_iff] at hj
    obtain ⟨text, htext, rfl⟩ := hj
    have := hfree (j + 1) text (by omega) htext
    rwa [List.length_cons, Nat.add_sub_cancel, ← hargs, Nat.add_comm j 1] at this
  apply String.toList_injective
  rw [toList_fill_ofSegments, toList_literalText, fillChars_slotted _ 1 le_rfl
    (by rw [List.length_map]; omega) hslots]
  rfl

lemma fill_ofSegments_blanks_ne {segments : List String} {slot : ℕ} {segment : String}
    (hslot : 1 ≤ slot) (hsegment : segments[slot]? = some segment)
    (htakes : TakesDigit (segments.length - 1) slot segment.toList) :
    fill (ofSegments segments) (blanks (segments.length - 1)) ≠
      literalText segments (blanks (segments.length - 1)) := by
  obtain ⟨first, others, rfl⟩ : ∃ first others, segments = first :: others := by
    cases segments with
    | nil => simp at hsegment
    | cons first others => exact ⟨first, others, rfl⟩
  obtain ⟨j, rfl⟩ := Nat.exists_eq_add_of_le' hslot
  rw [List.length_cons, Nat.add_sub_cancel] at htakes ⊢
  rw [List.getElem?_cons_succ] at hsegment
  have hlt := (length_fillChars_slotted_blanks others.length
    (others.map String.toList) 1 le_rfl (by rw [List.length_map]; omega)).2
    ⟨j, segment.toList, by rw [List.getElem?_map, hsegment]; rfl, by rwa [Nat.add_comm 1 j]⟩
  intro heq
  have hlen := congrArg (fun text => text.toList.length) heq
  simp only [toList_fill_ofSegments, List.length_append, length_literalText_blanks] at hlen
  omega

/-- A key, filled, is the text of its template literal exactly as long as no slot takes a digit
of the segment behind it. With fewer than ten slots none can, and without slots the text is the
only segment. Whatever the template, the texts of the arguments are put in as they are: the
text around them depends on the template and the number of the arguments alone. Runs of digits and
integers are assumed to have no more digits than are read and written (see `Text.digitsValue`). -/
theorem fill_ofSegments_eq_literalText_iff :
    (∀ segments : List String, segments ≠ [] →
      ((∀ args : List Value, args.length = segments.length - 1 →
          fill (ofSegments segments) args = literalText segments args) ↔
        ¬ ∃ slot segment, 1 ≤ slot ∧ segments[slot]? = some segment ∧
          TakesDigit (segments.length - 1) slot segment.toList)) ∧
    (∀ segments : List String, segments ≠ [] → segments.length - 1 ≤ 9 →
      ∀ args : List Value, args.length = segments.length - 1 →
        fill (ofSegments segments) args = literalText segments args) ∧
    (∀ text : String, fill (ofSegments [text]) [] = text) ∧
    ∀ (template : String) (count : ℕ), ∃ parts : List Part, ∀ args : List Value,
      args.length = count →
        fill template args = String.ofList (parts.flatMap (Part.text args)) := by
  refine ⟨fun segments hne => ⟨fun hfill => ?_, fun hfree args hargs => ?_⟩,
    fun segments hne hfew args hargs => ?_, fun text => ?_, fun template count => ?_⟩
  · rintro ⟨slot, segment, hslot, hsegment, htakes⟩
    exact fill_ofSegments_blanks_ne hslot hsegment htakes (hfill _ (length_blanks _))
  · exact fill_ofSegments_of_not_takesDigit hne
      (fun slot segment hslot hsegment htakes => hfree ⟨slot, segment, hslot, hsegment, htakes⟩)
      hargs
  · refine fill_ofSegments_of_not_takesDigit hne ?_ hargs
    rintro slot segment hslot - ⟨c, d, -, -, hle⟩
    omega
  · have hslots : ∀ slot segment, 1 ≤ slot → [text][slot]? = some segment →
        ¬ TakesDigit ([text].length - 1) slot segment.toList := by
      rintro slot segment hslot hsegment -
      rw [List.getElem?_eq_none (by rw [List.length_singleton]; exact hslot)] at hsegment
      exact Option.some_ne_none _ hsegment.symm
    have hfill : fill (ofSegments [text]) [] = literalText [text] [] :=
      fill_ofSegments_of_not_takesDigit (List.cons_ne_nil _ _) hslots rfl
    rw [hfill, literalText]
    simp
  · exact ⟨(pieces template.toList).flatMap (Piece.parts count), fun args hargs => by
      rw [fill_eq_parts, hargs]⟩

/-- Ten slots and a zero behind the first: slot one is read as slot ten. Of two slots it is
not. -/
theorem fill_ofSegments_ten_slots :
    (["", "0", "", "", "", "", "", "", "", "", ""] : List String) ≠ [] ∧
    (¬ ∀ args : List Value, args.length = 10 →
      fill (ofSegments ["", "0", "", "", "", "", "", "", "", "", ""]) args =
        literalText ["", "0", "", "", "", "", "", "", "", "", ""] args) ∧
    [Value.text "$2", .int 5].length = 2 ∧
    fill (ofSegments ["a", "0 $", "1"]) [.text "$2", .int 5] =
      literalText ["a", "0 $", "1"] [.text "$2", .int 5] :=
  ⟨by decide,
    fun h => (fill_ofSegments_eq_literalText_iff.1
      ["", "0", "", "", "", "", "", "", "", "", ""] (by decide)).1 h
      ⟨1, "0", le_rfl, rfl, '0', 0, rfl, by decide, by decide⟩,
    rfl,
    fill_ofSegments_eq_literalText_iff.2.1 _ (by decide) (by decide) _ rfl⟩

end LocaleBundle.Key
