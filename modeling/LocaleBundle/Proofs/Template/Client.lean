import LocaleBundle.Proofs.Number.FewestDigits
import LocaleBundle.Proofs.Template.Binding
import LocaleBundle.Proofs.Token.RoundTrip
import LocaleBundle.Proofs.Token.Scan

/-!
# Arguments as client code prints them

Client code knows one kind of number, the double, and prints its shortest digits: in full up to
twenty-one places before the point, as a fraction from the sixth place behind it on, and else with an
exponent that has no zeros in front. NaN and the infinities have words. An argument that is put into a
template is printed otherwise: here it is said which of the literals of a call come out alike.
-/

namespace LocaleBundle

namespace Client

open Text.Numeral

/-- The first digit, and the others after a point. -/
def pointed : List Char → List Char
  | [] => []
  | [d] => [d]
  | d :: rest => d :: '.' :: rest

/-- The digits of a number, the first `point` of them before the point: whole numbers are filled up with
zeros, fractions begin with them, and what is too great or too small has an exponent. -/
def layOut (digits : List Char) (point : ℤ) : List Char :=
  if digits.length ≤ point ∧ point ≤ 21 then
    digits ++ List.replicate (point.toNat - digits.length) '0'
  else if 0 < point ∧ point ≤ 21 then
    digits.take point.toNat ++ '.' :: digits.drop point.toNat
  else if -6 < point ∧ point ≤ 0 then
    '0' :: '.' :: (List.replicate (-point).toNat '0' ++ digits)
  else
    pointed digits ++ 'e' :: (if point < 1 then '-' else '+') :: ofNat (point - 1).natAbs

/-- The digits of a magnitude, as few as read as it. -/
def digits (k : ℕ) : List Char := ofNat (Binary64.shortest k).digits

/-- How many places a magnitude has before the point. -/
def point (k : ℕ) : ℤ := (Binary64.shortest k).exponent + (digits k).length

/-- A magnitude as client code prints it. -/
def magnitude (k : ℕ) : List Char := if k = 0 then ['0'] else layOut (digits k) (point k)

/-- A double as client code prints it; zero has no sign. -/
def number : Binary64 → List Char
  | .nan => "NaN".toList
  | .infinity negative => (if negative then ['-'] else []) ++ "Infinity".toList
  | .finite negative k => (if negative ∧ k.val ≠ 0 then ['-'] else []) ++ magnitude k

end Client

/-- A literal as client code prints it. It reads each number as the nearest double. -/
def Value.clientText? : Value → Option String
  | .text s => some s
  | .bool b => some (if b then "true" else "false")
  | .null => some "null"
  | .int n => some (String.ofList (Client.number (Binary64.ofRatio (n < 0) n.natAbs 1)))
  | .float x => some (String.ofList (Client.number x))
  | _ => none

namespace Client

/-- Whether a whole number is printed as it is: it has at most twenty-one digits, and they are the
shortest of its double. -/
def IsPlain (n : ℕ) : Prop :=
  n = 0 ∨ n < 10 ^ 21 ∧ (Binary64.shortest (Binary64.roundOrdinal n 1)).value = n

/-- The literals that come out alike: all texts and words, but for NaN and the infinities, whole numbers
that are printed as they are, and fractions unless their first digit is the fifth to ninth one behind the
point. -/
def PrintsAlike : Value → Prop
  | .int n => IsPlain n.natAbs
  | .float .nan => False
  | .float (.infinity _) => False
  | .float (.finite _ k) =>
    if Binary64.isWhole k then IsPlain (Binary64.floor k) else point k < -8 ∨ -4 < point k
  | _ => True

open Text.Numeral Binary64

variable {k n : ℕ}

/-! ## Whole numbers -/

lemma isDigit_of_mem_digits {c : Char} (h : c ∈ digits k) : c.isDigit = true :=
  isDigit_of_mem_ofNat h

lemma ofNat_injective : Function.Injective ofNat :=
  Function.LeftInverse.injective toNat_ofNat

/-- A numeral is laid out only where the digits have no point behind them. -/
lemma eq_of_ofNat_eq_layOut {ds : List Char} {before : ℤ} (h : ofNat n = layOut ds before) :
    (ds.length ≤ before ∧ before ≤ 21) ∧
      ofNat n = ds ++ List.replicate (before.toNat - ds.length) '0' := by
  have hno : ∀ c, c.isDigit = false → c ∉ layOut ds before := by
    intro c hc hmem
    rw [← h] at hmem
    exact absurd ((isDigit_of_mem_ofNat hmem).symm.trans hc) (by simp)
  have hpoint := hno '.' (by decide)
  have hexponent := hno 'e' (by decide)
  rw [layOut] at h hpoint hexponent
  by_cases hfull : ds.length ≤ before ∧ before ≤ 21
  · rw [if_pos hfull] at h
    exact ⟨hfull, h⟩
  · rw [if_neg hfull] at hpoint hexponent
    by_cases hpart : 0 < before ∧ before ≤ 21
    · rw [if_pos hpart] at hpoint
      exact absurd (by simp) hpoint
    · rw [if_neg hpart] at hpoint hexponent
      by_cases hsmall : -6 < before ∧ before ≤ 0
      · rw [if_pos hsmall] at hpoint
        exact absurd (by simp) hpoint
      · rw [if_neg hsmall] at hexponent
        exact absurd (by simp) hexponent

/-- A whole number is printed as it is exactly if it is plain. -/
lemma ofNat_eq_magnitude_iff (hfinite : roundOrdinal n 1 < overflowOrdinal) :
    ofNat n = magnitude (roundOrdinal n 1) ↔ IsPlain n := by
  by_cases hn : n = 0
  · subst hn
    rw [roundOrdinal_zero, magnitude, if_pos rfl]
    exact iff_of_true rfl (.inl rfl)
  · have hzero : roundOrdinal n 1 ≠ 0 := mt roundOrdinal_eq_zero_iff.mp hn
    have hdigits := digits_shortest_ne_zero hzero hfinite
    rw [magnitude, if_neg hzero, IsPlain, or_iff_right hn]
    generalize roundOrdinal n 1 = k at *
    constructor
    · intro h
      -- the zeros behind the digits are those of the exponent
      obtain ⟨⟨hlow, hhigh⟩, hfull⟩ := eq_of_ofNat_eq_layOut h
      have hexp : (shortest k).exponent = (((point k).toNat - (digits k).length : ℕ) : ℤ) := by
        rw [point] at hlow ⊢
        omega
      have hlen : (ofNat n).length = (digits k).length + ((point k).toNat - (digits k).length) := by
        rw [hfull, List.length_append, List.length_replicate]
      rw [digits, ← ofNat_mul_pow_ten hdigits] at hfull
      have hvalue := ofNat_injective hfull
      refine ⟨?_, ?_⟩
      · have hmost : (ofNat n).length ≤ 21 := by omega
        exact (Nat.length_toDigits_le_iff (by norm_num) (by norm_num)).mp hmost
      · rw [Scientific.value, hexp, zpow_natCast]
        exact_mod_cast hvalue.symm
    · rintro ⟨hlt, hvalue⟩
      obtain ⟨zeros, hzeros⟩ := Int.eq_ofNat_of_zero_le
        (Scientific.exponent_nonneg hvalue (digits_shortest_mod_ten hzero hfinite))
      rw [Scientific.value, hzeros, zpow_natCast] at hvalue
      have hnumber : n = (shortest k).digits * 10 ^ zeros := by exact_mod_cast hvalue.symm
      have hfull : ofNat n = digits k ++ List.replicate zeros '0' := by
        rw [hnumber, ofNat_mul_pow_ten hdigits, digits]
      have hlen := (Nat.length_toDigits_le_iff (by norm_num) (by norm_num)).mpr hlt
      have hplaces := congrArg List.length hfull
      rw [List.length_append, List.length_replicate] at hplaces
      have hpoint : point k = (ofNat n).length := by
        rw [point, hzeros, hplaces]
        push_cast
        ring
      rw [layOut, if_pos ⟨by omega, by rw [hpoint]; exact_mod_cast hlen⟩, hfull, hpoint, hplaces]
      congr 2
      omega

/-! ## Fractions -/

/-- A number with a fraction has at most sixteen places before the point, and digits behind it. -/
lemma point_of_not_isWhole (hwhole : isWhole k = false) (hfinite : k < overflowOrdinal) :
    point k < 17 ∧ point k < (digits k).length := by
  have hk := ne_zero_of_not_isWhole hwhole
  have hneg := exponent_shortest_neg hwhole hfinite
  refine ⟨?_, by rw [point]; omega⟩
  have hlow := (length_toDigits_bounds (digits_shortest_ne_zero hk hfinite)).1
  have hten : (10 : ℚ) ^ (point k - 1) < 10 ^ (16 : ℤ) := by
    calc (10 : ℚ) ^ (point k - 1)
        = 10 ^ (((Nat.toDigits 10 (shortest k).digits).length : ℤ) - 1) *
            10 ^ (shortest k).exponent := by
          rw [← zpow_add₀ (by norm_num)]
          congr 1
          rw [point, digits, ofNat]
          ring
      _ ≤ (shortest k).value := mul_le_mul_of_nonneg_right hlow (ten_zpow_pos _).le
      _ < 2 ^ 53 := value_shortest_lt hwhole
      _ ≤ 10 ^ (16 : ℤ) := by norm_num
  have := (zpow_lt_zpow_iff_right₀ (by norm_num : (1 : ℚ) < 10)).mp hten
  omega

lemma layOut_exponent {ds : List Char} {before : ℤ} (h : before ≤ -6) :
    layOut ds before = pointed ds ++ 'e' :: '-' :: ofNat (before - 1).natAbs := by
  have hfull : ¬ (ds.length ≤ before ∧ before ≤ 21) := by omega
  have hpart : ¬ (0 < before ∧ before ≤ 21) := by omega
  have hsmall : ¬ (-6 < before ∧ before ≤ 0) := by omega
  have hsign : before < 1 := by omega
  rw [layOut, if_neg hfull, if_neg hpart, if_neg hsmall, if_pos hsign]

lemma layOut_small {ds : List Char} {before : ℤ} (hlow : -6 < before) (hhigh : before ≤ 0)
    (hds : before < ds.length) :
    layOut ds before = '0' :: '.' :: (List.replicate (-before).toNat '0' ++ ds) := by
  have hfull : ¬ (ds.length ≤ before ∧ before ≤ 21) := by omega
  have hpart : ¬ (0 < before ∧ before ≤ 21) := by omega
  rw [layOut, if_neg hfull, if_neg hpart, if_pos ⟨hlow, hhigh⟩]

/-- Where a fraction is laid out with a point, it is laid out alike. -/
lemma positional_eq_layOut {ds : List Char} {before : ℤ} (hlow : -6 < before) (hhigh : before < 17)
    (hbehind : before < ds.length) : DoubleText.positional ds before = layOut ds before := by
  by_cases hpos : 0 < before
  · have hfull : ¬ (ds.length ≤ before ∧ before ≤ 21) := by omega
    have hnone : before.toNat - ds.length = 0 := by omega
    have hsome : ds.drop before.toNat ≠ [] := by
      rw [ne_eq, List.drop_eq_nil_iff]
      omega
    rw [DoubleText.positional, if_neg (not_le.mpr hpos), layOut, if_neg hfull,
      if_pos ⟨hpos, by omega⟩]
    simp only [hnone, hsome, if_false, List.replicate_zero, List.append_nil]
  · rw [DoubleText.positional, if_pos (not_lt.mp hpos), layOut_small hlow (not_lt.mp hpos) hbehind]
    rfl

lemma scientific_exponent (ds : List Char) {before : ℤ} (h : before ≤ -6) :
    DoubleText.plain.scientific ds (before - 1) =
      pointed ds ++ 'e' :: '-' :: (List.replicate (2 - (ofNat (before - 1).natAbs).length) '0' ++
        ofNat (before - 1).natAbs) := by
  have hsign : before - 1 < 0 := by omega
  simp only [DoubleText.scientific, if_pos hsign]
  cases ds with
  | nil => rfl
  | cons d rest => cases rest <;> rfl

/-- Exponents of two and more digits are printed alike. -/
lemma scientific_eq_layOut_iff {ds : List Char} {before : ℤ} (h : before ≤ -6) :
    DoubleText.plain.scientific ds (before - 1) = layOut ds before ↔ before < -8 := by
  have hlen : (ofNat (before - 1).natAbs).length ≤ 1 ↔ (before - 1).natAbs < 10 ^ 1 :=
    Nat.length_toDigits_le_iff (by norm_num) (by norm_num)
  rw [scientific_exponent ds h, layOut_exponent h, List.append_cancel_left_eq, List.cons_inj_right,
    List.cons_inj_right, List.append_left_eq_self, List.replicate_eq_nil_iff]
  omega

lemma notMem_layOut_small {ds : List Char} {before : ℤ} (hlow : -6 < before) (hhigh : before ≤ 0)
    (hlen : before < ds.length) (hds : ∀ c ∈ ds, c.isDigit = true) : 'e' ∉ layOut ds before := by
  have he : 'e' ∉ ds := fun hmem => absurd (hds 'e' hmem) (by decide)
  rw [layOut_small hlow hhigh hlen]
  simp [he]

/-- A number with a fraction is printed alike unless its first digit is the fifth to ninth one behind
the point. -/
lemma plain_magnitude_eq_iff (hwhole : isWhole k = false) (hfinite : k < overflowOrdinal) :
    DoubleText.plain.magnitude k = magnitude k ↔ point k < -8 ∨ -4 < point k := by
  obtain ⟨hhigh, hbehind⟩ := point_of_not_isWhole hwhole hfinite
  have hk := ne_zero_of_not_isWhole hwhole
  have hplain : DoubleText.plain.magnitude k =
      if -4 ≤ point k - 1 ∧ point k - 1 < 16 then
        DoubleText.positional (digits k) (point k - 1 + 1)
      else DoubleText.plain.scientific (digits k) (point k - 1) := by
    rw [DoubleText.magnitude, if_neg hk]
    simp only [Bool.and_eq_true, decide_eq_true_eq]
    rfl
  -- both print a point down to the fourth place behind it, and an exponent from the seventh on
  rw [hplain, sub_add_cancel, magnitude, if_neg hk]
  by_cases hnear : -4 ≤ point k - 1
  · rw [if_pos ⟨hnear, by omega⟩]
    exact iff_of_true (positional_eq_layOut (by omega) hhigh hbehind) (.inr (by omega))
  · rw [if_neg (fun h => hnear h.1)]
    by_cases hfar : point k ≤ -6
    · rw [scientific_eq_layOut_iff hfar]
      omega
    · -- client code still prints a point here
      refine iff_of_false (fun h => ?_) (by omega)
      have he := notMem_layOut_small (by omega) (by omega) hbehind
        (fun c hc => isDigit_of_mem_digits (k := k) hc)
      rw [← h] at he
      simp [DoubleText.scientific] at he

/-! ## Literals -/

lemma ofInt_signed (negative : Bool) (n : ℕ) :
    ofInt (signed negative n) = (if negative ∧ n ≠ 0 then ['-'] else []) ++ ofNat n := by
  cases negative with
  | false => simp [signed, ofInt]
  | true =>
    by_cases hn : n = 0
    · simp [signed, ofInt, hn]
    · simp [signed, ofInt, hn]

/-- A whole number is printed as its double exactly if it is plain. -/
lemma ofInt_eq_number_iff (negative : Bool) (n : ℕ) :
    ofInt (signed negative n) = number (ofRatio negative n 1) ↔ IsPlain n := by
  rw [ofInt_signed, ofRatio, ofOrdinal]
  by_cases hfinite : roundOrdinal n 1 < overflowOrdinal
  · rw [dif_pos hfinite]
    simp only [number, ne_eq, roundOrdinal_eq_zero_iff, List.append_cancel_left_eq]
    exact ofNat_eq_magnitude_iff hfinite
  · rw [dif_neg hfinite]
    refine iff_of_false (fun h => ?_) ?_
    · -- infinity is printed as a word
      have hword : 'I' ∈ number (.infinity negative) := by cases negative <;> decide
      rw [← h, List.mem_append] at hword
      rcases hword with hsign | hdigit
      · split at hsign
        · exact absurd hsign (by decide)
        · exact absurd hsign (by decide)
      · exact absurd (isDigit_of_mem_ofNat hdigit) (by decide)
    · rintro (rfl | ⟨hlt, -⟩)
      · exact hfinite (roundOrdinal_lt_overflowOrdinal (by norm_num))
      · exact hfinite (roundOrdinal_lt_overflowOrdinal hlt)

/-- A whole double is the one nearest to its integer part. -/
lemma ofRatio_floor {negative : Bool} {k : Fin overflowOrdinal} (hwhole : isWhole k = true) :
    ofRatio negative (floor k) 1 = .finite negative k := by
  have hround := (isWhole_and_floor_iff.mp ⟨hwhole, rfl⟩).roundOrdinal_eq
  rw [ofRatio, ofOrdinal]
  simp only [hround, k.isLt, dif_pos]

/-- A literal is printed as client code does exactly if it comes out alike. -/
lemma argumentText_eq_clientText?_iff {v : Value} (hv : v.IsLiteral) :
    some v.argumentText = v.clientText? ↔ PrintsAlike v := by
  cases hv with
  | null => exact iff_of_true rfl trivial
  | bool b => cases b <;> exact iff_of_true rfl trivial
  | text s => exact iff_of_true rfl trivial
  | int n =>
    have hnumber := ofInt_eq_number_iff (decide (n < 0)) n.natAbs
    rw [Json.signed_natAbs] at hnumber
    rw [PrintsAlike, ← hnumber]
    simp only [Value.argumentText, Value.display, Value.quoted, Value.clientText?, Text.Numeral.text,
      Option.some.injEq, String.ofList_inj]
  | float x =>
    cases x with
    | nan => exact iff_of_false (by decide) id
    | infinity negative => exact iff_of_false (by cases negative <;> decide) id
    | finite negative k =>
      rw [PrintsAlike]
      by_cases hwhole : isWhole k = true
      · rw [if_pos hwhole, ← ofInt_eq_number_iff negative, ofRatio_floor hwhole]
        simp only [Value.argumentText, hwhole, if_true, Value.clientText?, Text.Numeral.text,
          Option.some.injEq, String.ofList_inj]
      · have hfraction : isWhole k = false := by simpa using hwhole
        have hk := ne_zero_of_not_isWhole hfraction
        rw [if_neg hwhole, ← plain_magnitude_eq_iff hfraction k.isLt]
        simp only [Value.argumentText, hwhole, Bool.false_eq_true, if_false, Value.display,
          Value.quoted, DoubleText.render, Value.clientText?, number, hk, ne_eq, not_false_eq_true,
          and_true, Option.some.injEq, String.ofList_inj, List.append_cancel_left_eq]

/-- A whole number below `2^53` is plain. -/
lemma isPlain_of_lt (hlt : n < 2 ^ 53) : IsPlain n := by
  by_cases hn : n = 0
  · exact .inl hn
  · exact .inr ⟨hlt.trans (by norm_num), value_shortest_whole hn hlt⟩

end Client

namespace Token

/-- The arguments of a call are literals. -/
lemma isLiteral_of_argumentsText {args : List Value} {t : List Char} (h : ArgumentsText args t) :
    ∀ v ∈ args, v.IsLiteral := by
  induction h with
  | close => simp
  | argument _ _ hv _ ih => exact List.forall_mem_cons.mpr ⟨hv.isLiteral, ih⟩

lemma isLiteral_of_mem_scan {code fileName : String} {call : CallToken}
    (hcall : call ∈ (scan code fileName).1) : ∀ v ∈ call.args, v.IsLiteral := by
  obtain ⟨pieces, bad, hcut⟩ := exists_cut 0 code.toList
  have hscan : scan code fileName = (calls pieces, bad.map (faultAt fileName)) := by
    unfold scan
    rw [segments_of_cut hcut fileName]
    rfl
  rw [hscan] at hcall
  obtain ⟨-, body, rest, ⟨-, -, hargs⟩, -, -⟩ := (found_of_cut hcut List.drop_zero).stand call hcall
  exact isLiteral_of_argumentsText hargs

end Token

namespace Client

open Binary64

/-- An argument that a slot names is put in with the digits that are left over behind it. -/
lemma exists_arg_of_bind? {args : List Value} {slot rest : List Char} {index : ℕ}
    (h : Template.bind? args.length slot = some (index, rest)) :
    ∃ arg, args[index]? = some arg ∧
      (Template.Piece.slot slot).filled args = arg.argumentText.toList ++ rest := by
  obtain ⟨lead, hbound, hindex⟩ := Template.bind?_eq_some_iff.mp h
  obtain ⟨hfirst, hlast⟩ := hbound.names
  have hlt : index < args.length := by omega
  refine ⟨args[index], List.getElem?_eq_getElem hlt, ?_⟩
  rw [Template.Piece.filled, h]
  simp only [List.getElem?_eq_getElem hlt, Option.elim_some]

/-- Of the arguments of the calls in some code, the text that a slot puts in is the one that client code
prints for these and no others: texts, the truth values and null, whole numbers that are plain, and
fractions whose first digit is not the fifth to ninth one behind the point. Every whole number below
`2^53` is plain, and the digits that client code prints are the fewest that read as the number. The
integers in the code have no more digits than a decoder reads, which `Json.readDocument` assumes. -/
theorem scan_args_printsAlike_iff (code fileName : String) :
    (∀ call ∈ (Token.scan code fileName).1,
      (∀ arg ∈ call.args, some arg.argumentText = arg.clientText? ↔ PrintsAlike arg) ∧
      ∀ slot index rest, Template.bind? call.args.length slot = some (index, rest) →
        ∃ arg, call.args[index]? = some arg ∧
          (Template.Piece.slot slot).filled call.args = arg.argumentText.toList ++ rest) ∧
    (∀ n < 2 ^ 53, IsPlain n) ∧
    ∀ k, k ≠ 0 → k < overflowOrdinal → IsShortest k (shortest k) := by
  refine ⟨fun call hcall => ⟨fun arg harg => ?_, fun slot index rest => exists_arg_of_bind?⟩,
    fun n => isPlain_of_lt, fun k => isShortest_shortest⟩
  exact argumentText_eq_clientText?_iff (Token.isLiteral_of_mem_scan hcall arg harg)

/-- A call with numbers of all sizes. -/
def sizes : Token.Part where
  key := "$1 $2 $3 $4 $5"
  args := [.int 7, .float (.ofScientific false 1 (-5)), .float (.ofScientific false 1 (-7)),
    .float (.ofScientific false 1 22), .float .nan]
  after := ""

lemma mem_scan_sizes (fileName : String) :
    ⟨sizes.key, sizes.args, 0, sizes.token.length⟩ ∈
      (Token.scan (Token.codeOf "" [sizes]) fileName).1 := by
  have hargs : ∀ p ∈ [sizes], ∀ v ∈ p.args, v.IsLiteral := by
    intro p hp v hv
    obtain rfl := List.mem_singleton.mp hp
    simp only [sizes, List.mem_cons, List.not_mem_nil, or_false] at hv
    rcases hv with rfl | rfl | rfl | rfl | rfl
    · exact .int _
    · exact .float _
    · exact .float _
    · exact .float _
    · exact .float _
  have hafter : ∀ p ∈ [sizes], ¬ callMark.toList <:+: p.after.toList := by
    intro p hp
    obtain rfl := List.mem_singleton.mp hp
    decide
  have hscan : (Token.scan (Token.codeOf "" [sizes]) fileName).1 = Token.callsOf "" [sizes] := by
    unfold Token.scan
    rw [Token.segments_codeOf fileName (by decide) hafter hargs]
    exact Token.filterMap_segmentsOf "" "" [sizes]
  rw [hscan]
  simp [Token.callsOf]

/-- The seven is printed alike, also by a slot with a digit too many. -/
theorem scan_args_printsAlike_iff_seven :
    ∃ call ∈ (Token.scan (Token.codeOf "" [sizes]) "a.js").1, ∃ arg, call.args[0]? = some arg ∧
      some arg.argumentText = arg.clientText? ∧
      (Template.Piece.slot ['1', '0']).filled call.args = arg.argumentText.toList ++ ['0'] := by
  have hcall := mem_scan_sizes "a.js"
  obtain ⟨hcalls, hplain, -⟩ := scan_args_printsAlike_iff (Token.codeOf "" [sizes]) "a.js"
  obtain ⟨hargs, hslots⟩ := hcalls _ hcall
  obtain ⟨arg, harg, hfilled⟩ := hslots ['1', '0'] 0 ['0'] (by decide)
  obtain rfl : .int 7 = arg := Option.some.inj harg
  exact ⟨_, hcall, _, harg, (hargs (.int 7) (by simp [sizes])).mpr (hplain 7 (by norm_num)), hfilled⟩

/-- The other numbers are not: client code prints a point, no zero in the exponent, an exponent, and
capital letters. -/
theorem fill_sizes : ∃ call ∈ (Token.scan (Token.codeOf "" [sizes]) "a.js").1,
    Token.codeOf "" [sizes] = "__$T$__(\"$1 $2 $3 $4 $5\", 7, 1e-05, 1e-07, 1e+22, NaN)" ∧
    Template.fill call.key call.args = "7 1e-05 1e-07 10000000000000000000000 nan" ∧
    call.args.map Value.clientText? =
      [some "7", some "0.00001", some "1e-7", some "1e+22", some "NaN"] := by
  have hcall := mem_scan_sizes "a.js"
  exact ⟨_, hcall, by decide +kernel, by decide +kernel, by decide +kernel⟩

end Client

end LocaleBundle
