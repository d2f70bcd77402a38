import LocaleBundle.Json.Reader
import LocaleBundle.Proofs.Number.Binary64
import LocaleBundle.Proofs.Text.Numeral
import Mathlib.Data.List.TakeDrop
import Mathlib.Data.List.TakeWhile

/-!
# The texts of numbers

A number is an integer part, digits after a point and an exponent, of which the last two may be
missing. The reader takes exactly such a text off the front, and takes all of it as long as the text
after it could not go on with the number. So numerals and doubles are read back.
-/

namespace LocaleBundle.Json

open Text Numeral

/-! ## Digits -/

lemma isAsciiDigit_eq_isDigit (c : Char) : isAsciiDigit c = c.isDigit := rfl

lemma spanDigits_append {ds s : List Char} (hds : ∀ c ∈ ds, c.isDigit = true)
    (hs : ∀ c ∈ s.head?, c.isDigit = false) : spanDigits (ds ++ s) = (ds, s) := by
  have htake : s.takeWhile isAsciiDigit = [] := by
    cases s with
    | nil => rfl
    | cons c s => exact List.takeWhile_cons_of_neg (by simp [isAsciiDigit_eq_isDigit, hs c rfl])
  have hdrop : s.dropWhile isAsciiDigit = s := by
    cases s with
    | nil => rfl
    | cons c s => exact List.dropWhile_cons_of_neg (by simp [isAsciiDigit_eq_isDigit, hs c rfl])
  have hascii : ∀ c ∈ ds, isAsciiDigit c = true := hds
  rw [spanDigits, List.span_eq_takeWhile_dropWhile, List.takeWhile_append_of_pos hascii,
    List.dropWhile_append_of_pos hascii, htake, hdrop, List.append_nil]

lemma append_of_spanDigits {s ds rest : List Char} (h : spanDigits s = (ds, rest)) :
    s = ds ++ rest ∧ ∀ c ∈ ds, c.isDigit = true := by
  rw [spanDigits, List.span_eq_takeWhile_dropWhile] at h
  obtain ⟨rfl, rfl⟩ := Prod.mk.inj h
  exact ⟨List.takeWhile_append_dropWhile.symm, fun c hc => List.mem_takeWhile_imp hc⟩

lemma isDigit_of_mem_zero : ∀ c ∈ ['0'], c.isDigit = true := List.forall_mem_singleton.mpr rfl

/-- The digits of an integer part: a zero alone, or digits that start with another one. -/
def IsWhole (ds : List Char) : Prop :=
  ds = ['0'] ∨ (∀ c ∈ ds, c.isDigit = true) ∧ ds ≠ [] ∧ ds.head? ≠ some '0'

lemma IsWhole.isDigit {ds : List Char} (h : IsWhole ds) : ∀ c ∈ ds, c.isDigit = true := by
  rcases h with rfl | ⟨hds, -, -⟩
  · exact isDigit_of_mem_zero
  · exact hds

lemma readWhole?_append {ds s : List Char} (hds : IsWhole ds)
    (hs : ∀ c ∈ s.head?, c.isDigit = false) : readWhole? (ds ++ s) = some (ds, s) := by
  rcases hds with rfl | ⟨hdigits, hne, hzero⟩
  · rfl
  · obtain ⟨c, rest, rfl⟩ := List.exists_cons_of_ne_nil hne
    have hc : c ≠ '0' := fun h => hzero (by rw [h]; rfl)
    have hspan := spanDigits_append hdigits hs
    have hdigit : isAsciiDigit c = true := hdigits c List.mem_cons_self
    rw [List.cons_append] at hspan ⊢
    rw [readWhole?, if_pos hdigit, hspan]
    exact hc

lemma append_of_readWhole? {s ds rest : List Char} (h : readWhole? s = some (ds, rest)) :
    IsWhole ds ∧ s = ds ++ rest := by
  unfold readWhole? at h
  split at h
  · obtain ⟨rfl, rfl⟩ := Prod.mk.inj (Option.some.inj h)
    exact ⟨Or.inl rfl, rfl⟩
  · rename_i c after hzero
    split at h
    · rename_i hdigit
      obtain ⟨hs, hdigits⟩ := append_of_spanDigits (Option.some.inj h)
      cases ds with
      | nil =>
        have htake := congrArg Prod.fst (Option.some.inj h)
        rw [spanDigits, List.span_eq_takeWhile_dropWhile, List.takeWhile_cons_of_pos hdigit] at htake
        exact absurd htake (by simp)
      | cons d ds =>
        obtain rfl : c = d := (List.cons.inj hs).1
        refine ⟨Or.inr ⟨hdigits, List.cons_ne_nil _ _, fun hhead => ?_⟩, hs⟩
        exact hzero (Option.some.inj hhead)
    · exact absurd h (by simp)
  · exact absurd h (by simp)

/-- A numeral has no leading zero. -/
lemma head_ofNat_ne_zero {n : ℕ} (hn : n ≠ 0) : (ofNat n).head? ≠ some '0' := by
  induction n using Nat.strongRecOn with
  | ind n ih =>
    by_cases hlt : n < 10
    · rw [ofNat, Nat.toDigits_of_lt_base hlt, List.head?_cons]
      intro h
      have hvalue := toNat_digitChar hlt
      rw [Option.some.inj h] at hvalue
      exact hn hvalue.symm
    · have hsplit := Nat.toDigits_append_toDigits (b := 10) (n := n / 10) (d := n % 10)
        (by norm_num) (by omega) (Nat.mod_lt n (by norm_num))
      rw [Nat.div_add_mod] at hsplit
      have hrest := ih (n / 10) (by omega) (by omega)
      rw [ofNat] at hrest ⊢
      rw [← hsplit, List.head?_append]
      cases hhead : (Nat.toDigits 10 (n / 10)).head? with
      | none => exact absurd (List.head?_eq_none_iff.mp hhead) Nat.toDigits_ne_nil
      | some c => rwa [hhead] at hrest

lemma isWhole_ofNat (n : ℕ) : IsWhole (ofNat n) := by
  by_cases hn : n = 0
  · left
    rw [hn]
    rfl
  · exact Or.inr ⟨fun _ => isDigit_of_mem_ofNat, ofNat_ne_nil n, head_ofNat_ne_zero hn⟩

/-! ## Fraction and exponent -/

/-- A fraction with its point; nothing for no digits. -/
def pointed : List Char → List Char
  | [] => []
  | c :: rest => '.' :: c :: rest

lemma isDigit_head_pointed_append (ds : List Char) {s : List Char}
    (hs : ∀ c ∈ s.head?, c.isDigit = false) : ∀ c ∈ (pointed ds ++ s).head?, c.isDigit = false := by
  cases ds with
  | nil => exact hs
  | cons d ds =>
    intro c hc
    rw [← Option.some.inj hc]
    rfl

lemma readFraction_of_ne {s : List Char} (hs : ∀ c ∈ s.head?, c ≠ '.') :
    readFraction s = ([], s) := by
  cases s with
  | nil => rfl
  | cons c s =>
    rw [readFraction]
    rintro rest ⟨rfl, -⟩
    exact hs '.' rfl rfl

lemma readFraction_pointed {ds s : List Char} (hds : ∀ c ∈ ds, c.isDigit = true)
    (hs : ∀ c ∈ s.head?, c.isDigit = false ∧ c ≠ '.') :
    readFraction (pointed ds ++ s) = (ds, s) := by
  cases ds with
  | nil => exact readFraction_of_ne fun c hc => (hs c hc).2
  | cons d ds =>
    have hspan := spanDigits_append hds fun c hc => (hs c hc).1
    simp only [pointed, List.cons_append] at hspan ⊢
    rw [readFraction, hspan]

lemma append_of_readFraction {s ds rest : List Char} (h : readFraction s = (ds, rest)) :
    s = pointed ds ++ rest ∧ ∀ c ∈ ds, c.isDigit = true := by
  unfold readFraction at h
  split at h
  · rename_i after
    split at h
    · obtain ⟨rfl, rfl⟩ := Prod.mk.inj h
      exact ⟨rfl, by simp⟩
    · rename_i digits left hnone hspan
      obtain ⟨rfl, rfl⟩ := Prod.mk.inj h
      obtain ⟨rfl, hdigits⟩ := append_of_spanDigits hspan
      refine ⟨?_, hdigits⟩
      cases digits with
      | nil => exact absurd rfl hnone
      | cons d digits => rfl
  · obtain ⟨rfl, rfl⟩ := Prod.mk.inj h
    exact ⟨rfl, by simp⟩

/-- The texts of an exponent: a letter, a sign that may be missing, and digits. No exponent has the
empty text. -/
inductive ExponentText : Option ℤ → List Char → Prop
  | none : ExponentText none []
  | unsigned {e : Char} {ds : List Char} (he : e = 'e' ∨ e = 'E') (hne : ds ≠ [])
    (hds : ∀ c ∈ ds, c.isDigit = true) :
    ExponentText (some (Binary64.signed false (toNat ds))) (e :: ds)
  | signed {e : Char} {ds : List Char} (negative : Bool) (he : e = 'e' ∨ e = 'E') (hne : ds ≠ [])
    (hds : ∀ c ∈ ds, c.isDigit = true) :
    ExponentText (some (Binary64.signed negative (toNat ds)))
      (e :: (if negative then '-' else '+') :: ds)

lemma readExponent_of_ne {s : List Char} (hs : ∀ c ∈ s.head?, c ≠ 'e' ∧ c ≠ 'E') :
    readExponent s = (none, s) := by
  cases s with
  | nil => rfl
  | cons c s =>
    have hc : ¬ (decide (c = 'e') || decide (c = 'E')) = true := by simp [hs c rfl]
    exact if_neg hc

/-- A text that could not go on with a number. -/
def EndsNumber (s : List Char) : Prop :=
  ∀ c ∈ s.head?, c.isDigit = false ∧ c ≠ '.' ∧ c ≠ 'e' ∧ c ≠ 'E'

lemma readExponent_append {exponent? : Option ℤ} {t s : List Char}
    (h : ExponentText exponent? t) (hs : EndsNumber s) :
    readExponent (t ++ s) = (exponent?, s) := by
  cases h with
  | none => exact readExponent_of_ne fun c hc => (hs c hc).2.2
  | @unsigned e ds he hne hds =>
    have hspan := spanDigits_append hds fun c hc => (hs c hc).1
    obtain ⟨c, rest, rfl⟩ := List.exists_cons_of_ne_nil hne
    have hc : c.isDigit = true := hds c List.mem_cons_self
    have hminus : c ≠ '-' := by
      rintro rfl
      exact absurd hc (by decide)
    have hplus : c ≠ '+' := by
      rintro rfl
      exact absurd hc (by decide)
    rw [List.cons_append] at hspan
    simp [readExponent, he, hminus, hplus, hspan]
  | @signed e ds negative he hne hds =>
    have hspan := spanDigits_append hds fun c hc => (hs c hc).1
    obtain ⟨c, rest, rfl⟩ := List.exists_cons_of_ne_nil hne
    rw [List.cons_append] at hspan
    cases negative with
    | false => simp [readExponent, he, hspan]
    | true => simp [readExponent, he, hspan]

lemma exists_of_readExponent {s rest : List Char} {exponent? : Option ℤ}
    (h : readExponent s = (exponent?, rest)) :
    ∃ t, ExponentText exponent? t ∧ s = t ++ rest := by
  have hmissing : (none, s) = (exponent?, rest) → ∃ t, ExponentText exponent? t ∧ s = t ++ rest := by
    intro hnone
    obtain ⟨rfl, rfl⟩ := Prod.mk.inj hnone
    exact ⟨[], .none, rfl⟩
  unfold readExponent at h
  split at h
  · rename_i e after
    split at h
    · rename_i hletter
      have he : e = 'e' ∨ e = 'E' := by simpa using hletter
      split at h
      rename_i negative unsigned hsign
      split at h
      · exact hmissing h
      · rename_i digits left hne hspan
        obtain ⟨rfl, rfl⟩ := Prod.mk.inj h
        obtain ⟨rfl, hdigits⟩ := append_of_spanDigits hspan
        split at hsign
        · obtain ⟨rfl, rfl⟩ := Prod.mk.inj hsign
          exact ⟨_, .signed true he hne hdigits, rfl⟩
        · obtain ⟨rfl, rfl⟩ := Prod.mk.inj hsign
          exact ⟨_, .signed false he hne hdigits, rfl⟩
        · obtain ⟨rfl, rfl⟩ := Prod.mk.inj hsign
          exact ⟨_, .unsigned he hne hdigits, rfl⟩
    · exact hmissing h
  · exact hmissing h

/-- A number goes on after its integer part with a point, an exponent or not at all. -/
lemma ExponentText.head_append {exponent? : Option ℤ} {t s : List Char}
    (h : ExponentText exponent? t) (hs : EndsNumber s) :
    ∀ c ∈ (t ++ s).head?, c.isDigit = false ∧ c ≠ '.' := by
  have hletter : ∀ e : Char, e = 'e' ∨ e = 'E' → e.isDigit = false ∧ e ≠ '.' := by
    rintro e (rfl | rfl)
    · decide
    · decide
  intro c hc
  cases h with
  | none => exact ⟨(hs c hc).1, (hs c hc).2.1⟩
  | unsigned he => exact hletter c ((Option.some.inj hc) ▸ he)
  | signed _ he => exact hletter c ((Option.some.inj hc) ▸ he)

/-! ## Whole numbers and doubles -/

/-- The texts of numbers, without the sign that they have. Without fraction and exponent a number is
whole, else it is a double. -/
inductive UnsignedText (negative : Bool) : Value → List Char → Prop
  | int {whole : List Char} (hwhole : IsWhole whole) :
    UnsignedText negative (.int (Binary64.signed negative (toNat whole))) whole
  | float {whole fraction exponent : List Char} {exponent? : Option ℤ} (hwhole : IsWhole whole)
    (hfraction : ∀ c ∈ fraction, c.isDigit = true) (hexponent : ExponentText exponent? exponent)
    (hfloat : fraction ≠ [] ∨ exponent? ≠ none) :
    UnsignedText negative
      (.float (Binary64.ofScientific negative (toNat (whole ++ fraction))
        (exponent?.getD 0 - fraction.length)))
      (whole ++ (pointed fraction ++ exponent))

/-- The text of a number is read whole. -/
lemma readUnsigned?_append {negative : Bool} {v : Value} {t s : List Char}
    (h : UnsignedText negative v t) (hs : EndsNumber s) :
    readUnsigned? negative (t ++ s) = some (v, s) := by
  cases h with
  | int hwhole =>
    have hwhole' := readWhole?_append hwhole fun c hc => (hs c hc).1
    have hfraction : readFraction s = ([], s) := readFraction_of_ne fun c hc => (hs c hc).2.1
    have hexponent : readExponent s = (none, s) := readExponent_of_ne fun c hc => (hs c hc).2.2
    simp [readUnsigned?, hwhole', hfraction, hexponent]
  | @float whole fraction exponent exponent? hwhole hfraction hexponent hfloat =>
    have hhead := hexponent.head_append hs
    have hwhole' := readWhole?_append hwhole
      (isDigit_head_pointed_append fraction fun c hc => (hhead c hc).1)
    have hfraction' := readFraction_pointed hfraction hhead
    have hexponent' := readExponent_append hexponent hs
    rw [List.append_assoc, List.append_assoc]
    simp only [readUnsigned?, hwhole', hfraction', hexponent', Option.bind_eq_bind, Option.bind_some]
    split
    · simp at hfloat
    · rfl

/-- What is read as a number is the text of one. -/
lemma exists_of_readUnsigned? {negative : Bool} {v : Value} {s rest : List Char}
    (h : readUnsigned? negative s = some (v, rest)) :
    ∃ t, UnsignedText negative v t ∧ s = t ++ rest := by
  rw [readUnsigned?, Option.bind_eq_bind, Option.bind_eq_some_iff] at h
  obtain ⟨⟨whole, afterWhole⟩, hread, h⟩ := h
  obtain ⟨hwhole, rfl⟩ := append_of_readWhole? hread
  cases hfraction : readFraction afterWhole with
  | mk fraction afterFraction =>
    obtain ⟨rfl, hdigits⟩ := append_of_readFraction hfraction
    cases hexponent : readExponent afterFraction with
    | mk exponent? left =>
      obtain ⟨t, ht, rfl⟩ := exists_of_readExponent hexponent
      simp only [hfraction, hexponent] at h
      split at h
      · obtain ⟨rfl, rfl⟩ := Prod.mk.inj (Option.some.inj h)
        cases ht
        exact ⟨_, .int hwhole, rfl⟩
      · rename_i hfloat
        obtain ⟨rfl, rfl⟩ := Prod.mk.inj (Option.some.inj h)
        have hmore : fraction ≠ [] ∨ exponent? ≠ none :=
          not_and_or.mp fun hboth => hfloat hboth.1 hboth.2
        exact ⟨_, .float hwhole hdigits ht hmore, by simp⟩

lemma readUnsigned?_fraction {whole fraction s : List Char} (negative : Bool)
    (hwhole : IsWhole whole) (hne : fraction ≠ []) (hdigits : ∀ c ∈ fraction, c.isDigit = true)
    (hs : EndsNumber s) :
    readUnsigned? negative (whole ++ '.' :: (fraction ++ s)) =
      some (.float (Binary64.ofScientific negative (toNat (whole ++ fraction)) (-fraction.length)),
        s) := by
  have htext : UnsignedText negative _ _ := .float hwhole hdigits .none (Or.inl hne)
  have hread := readUnsigned?_append htext hs
  obtain ⟨c, rest, rfl⟩ := List.exists_cons_of_ne_nil hne
  simpa [pointed] using hread

/-! ## The layouts of a double -/

lemma isWhole_cons {c : Char} {ds : List Char} (hc : c.isDigit = true) (hzero : c ≠ '0')
    (hds : ∀ d ∈ ds, d.isDigit = true) : IsWhole (c :: ds) := by
  refine Or.inr ⟨List.forall_mem_cons.mpr ⟨hc, hds⟩, List.cons_ne_nil _ _, ?_⟩
  rw [List.head?_cons]
  exact fun h => hzero (Option.some.inj h)

lemma isDigit_of_mem_zeros {z : ℕ} {c : Char} (h : c ∈ List.replicate z '0') :
    c.isDigit = true := by
  rw [(List.mem_replicate.mp h).2]
  rfl

lemma toNat_zeros_append (z : ℕ) (ds : List Char) :
    toNat (List.replicate z '0' ++ ds) = toNat ds := by
  induction z with
  | zero => rfl
  | succ z ih =>
    rw [List.replicate_succ, List.cons_append]
    exact ih

/-- Digits laid out around a point are read as those digits and a power of ten. -/
lemma readUnsigned?_positional {c : Char} {rest s : List Char} (negative : Bool) (before : ℤ)
    (hc : c.isDigit = true) (hzero : c ≠ '0') (hrest : ∀ d ∈ rest, d.isDigit = true)
    (hs : EndsNumber s) :
    readUnsigned? negative (DoubleText.positional (c :: rest) before ++ s) =
      some (.float (Binary64.ofScientific negative (toNat (c :: rest))
        (before - (c :: rest).length)), s) := by
  have hdigits : ∀ d ∈ c :: rest, d.isDigit = true := List.forall_mem_cons.mpr ⟨hc, hrest⟩
  unfold DoubleText.positional
  by_cases hbefore : before ≤ 0
  · -- all digits stand behind the point, after zeros
    obtain ⟨z, hz⟩ : ∃ z : ℕ, before = -z := ⟨(-before).toNat, by omega⟩
    have hzeros : ∀ d ∈ List.replicate z '0' ++ c :: rest, d.isDigit = true :=
      List.forall_mem_append.mpr ⟨fun _ => isDigit_of_mem_zeros, hdigits⟩
    have hread := readUnsigned?_fraction negative (Or.inl rfl) (by simp) hzeros hs
    have hvalue : toNat (['0'] ++ (List.replicate z '0' ++ c :: rest)) = toNat (c :: rest) :=
      toNat_zeros_append (z + 1) (c :: rest)
    have hexponent : -((List.replicate z '0' ++ c :: rest).length : ℤ)
        = before - (c :: rest).length := by
      rw [List.length_append, List.length_replicate, hz]
      push_cast
      ring
    rw [hvalue, hexponent] at hread
    rw [if_pos hbefore, hz, neg_neg, Int.toNat_natCast, ← hz, ← hread]
    simp
  · obtain ⟨m, hm⟩ : ∃ m : ℕ, before = m + 1 := ⟨before.toNat - 1, by omega⟩
    have hn : before.toNat = m + 1 := by omega
    simp only [if_neg hbefore, hn]
    by_cases hlen : (c :: rest).length ≤ m + 1
    · -- zeros fill up the digits before the point
      have hwhole : IsWhole (c :: (rest ++ List.replicate (m + 1 - (c :: rest).length) '0')) :=
        isWhole_cons hc hzero
          (List.forall_mem_append.mpr ⟨hrest, fun _ => isDigit_of_mem_zeros⟩)
      have hread := readUnsigned?_fraction negative hwhole (List.cons_ne_nil '0' [])
        isDigit_of_mem_zero hs
      have hshift : c :: (rest ++ List.replicate (m + 1 - (c :: rest).length) '0') ++ ['0']
          = c :: rest ++ List.replicate (m + 1 - (c :: rest).length + 1) '0' := by
        rw [List.replicate_succ', ← List.append_assoc]
        rfl
      have hexponent : -((['0'] : List Char).length : ℤ) +
          ((m + 1 - (c :: rest).length + 1 : ℕ) : ℤ) = before - (c :: rest).length := by
        rw [List.length_singleton]
        omega
      -- the zeros move from the digits to the exponent
      rw [hshift, toNat_append_zeros, Binary64.ofScientific,
        Binary64.ordinalOfScientific_mul_pow_ten, hexponent, ← Binary64.ofScientific] at hread
      rw [List.take_of_length_le hlen, List.drop_eq_nil_of_le hlen, if_pos rfl, ← hread]
      simp
    · -- the point stands between the digits
      have hwhole : IsWhole (c :: rest.take m) :=
        isWhole_cons hc hzero fun d hd => hrest d (List.mem_of_mem_take hd)
      have hfraction : rest.drop m ≠ [] := by
        rw [Ne, List.drop_eq_nil_iff]
        rw [List.length_cons] at hlen
        omega
      have hread := readUnsigned?_fraction negative hwhole hfraction
        (fun d hd => hrest d (List.mem_of_mem_drop hd)) hs
      have hexponent : -((rest.drop m).length : ℤ) = before - (c :: rest).length := by
        rw [List.length_drop]
        rw [List.length_cons] at hlen ⊢
        omega
      have hnone : m + 1 - (c :: rest).length = 0 := by omega
      have hsplit : c :: rest.take m ++ rest.drop m = c :: rest := by
        rw [List.cons_append, List.take_append_drop]
      rw [hsplit, hexponent] at hread
      rw [List.take_succ_cons, List.drop_succ_cons, if_neg hfraction, hnone, ← hread]
      simp

lemma signed_natAbs (n : ℤ) : Binary64.signed (decide (n < 0)) n.natAbs = n := by
  rw [Binary64.signed]
  by_cases hn : n < 0
  · rw [if_pos (decide_eq_true hn)]
    omega
  · rw [if_neg (by simpa using hn)]
    omega

lemma readUnsigned?_scientific {c : Char} {rest s : List Char} (layout : DoubleText)
    (negative : Bool) (exponent : ℤ) (hc : c.isDigit = true) (hzero : c ≠ '0')
    (hrest : ∀ d ∈ rest, d.isDigit = true) (hs : EndsNumber s) :
    readUnsigned? negative (layout.scientific (c :: rest) exponent ++ s) =
      some (.float (Binary64.ofScientific negative (toNat (c :: rest)) (exponent - rest.length)),
        s) := by
  have hwhole : IsWhole [c] := isWhole_cons hc hzero (by simp)
  have hpadded : ∀ d ∈ List.replicate (layout.exponentDigits - (ofNat exponent.natAbs).length) '0'
      ++ ofNat exponent.natAbs, d.isDigit = true :=
    List.forall_mem_append.mpr ⟨fun _ => isDigit_of_mem_zeros, fun _ => isDigit_of_mem_ofNat⟩
  have hexponent := ExponentText.signed (decide (exponent < 0)) (Or.inl rfl)
    (List.append_ne_nil_of_right_ne_nil _ (ofNat_ne_nil exponent.natAbs)) hpadded
  have htext : UnsignedText negative _ _ := .float hwhole hrest hexponent (Or.inr (by simp))
  have hread := readUnsigned?_append htext hs
  rw [Option.getD_some, toNat_zeros_append, toNat_ofNat, signed_natAbs] at hread
  refine Eq.trans ?_ hread
  cases rest with
  | nil => simp [DoubleText.scientific, pointed]
  | cons d rest => simp [DoubleText.scientific, pointed]

/-- The text of a magnitude is read as that magnitude. -/
theorem readUnsigned?_magnitude (layout : DoubleText) (negative : Bool) {k : ℕ}
    (hk : k < Binary64.overflowOrdinal) {s : List Char} (hs : EndsNumber s) :
    readUnsigned? negative (layout.magnitude k ++ s) =
      some (.float (Binary64.ofOrdinal negative k), s) := by
  rw [DoubleText.magnitude]
  by_cases hzero : k = 0
  · -- zero is written with a fraction
    have hread := readUnsigned?_fraction negative (Or.inl rfl) (List.cons_ne_nil '0' [])
      isDigit_of_mem_zero hs
    rw [Binary64.ofScientific] at hread
    rw [if_pos hzero, hzero]
    exact hread
  · have hdigits := Binary64.digits_shortest_ne_zero hzero hk
    have hhead := head_ofNat_ne_zero hdigits
    have hvalue := toNat_ofNat (Binary64.shortest k).digits
    obtain ⟨c, rest, hcons, hc⟩ := exists_cons_ofNat (Binary64.shortest k).digits
    have hrest : ∀ d ∈ rest, d.isDigit = true := fun d hd =>
      isDigit_of_mem_ofNat (hcons ▸ List.mem_cons_of_mem c hd)
    rw [hcons] at hhead hvalue
    have hne : c ≠ '0' := fun h => hhead (by rw [h]; rfl)
    have hlen : ((c :: rest).length : ℤ) = rest.length + 1 := by
      rw [List.length_cons]
      push_cast
      rfl
    simp only [if_neg hzero, hcons, Int.ofNat_eq_natCast]
    split
    · rw [readUnsigned?_positional negative _ hc hne hrest hs, hvalue, Binary64.ofScientific,
        show (Binary64.shortest k).exponent + ((c :: rest).length : ℤ) - 1 + 1 - (c :: rest).length
          = (Binary64.shortest k).exponent by ring,
        Binary64.ordinalOfScientific_shortest hzero hk]
    · rw [readUnsigned?_scientific layout negative _ hc hne hrest hs, hvalue,
        Binary64.ofScientific,
        show (Binary64.shortest k).exponent + ((c :: rest).length : ℤ) - 1 - rest.length
          = (Binary64.shortest k).exponent by rw [hlen]; ring,
        Binary64.ordinalOfScientific_shortest hzero hk]

end LocaleBundle.Json
