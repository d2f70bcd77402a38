/-!
# Base-ten numerals

Integers are written in base ten with ASCII digits, without leading zeros, and
with a minus sign in front of a negative one. `ofNat` and `toNat` are the two
directions for naturals.
-/

namespace LocaleBundle.Text.Numeral

/-- The base-ten digits of a natural number. -/
def ofNat (n : Nat) : List Char := Nat.toDigits 10 n

/-- An integer in base ten. -/
def ofInt (n : Int) : List Char :=
  if n < 0 then '-' :: ofNat n.natAbs else ofNat n.natAbs

/-- Whether a character is an ASCII digit. -/
def isAsciiDigit (c : Char) : Bool := '0' ≤ c && c ≤ '9'

/-- The number that ASCII digits write in base ten. -/
def toNat (cs : List Char) : Nat :=
  cs.foldl (fun n c => 10 * n + (c.toNat - '0'.toNat)) 0

theorem toNat_append_singleton (cs : List Char) (c : Char) :
    toNat (cs ++ [c]) = 10 * toNat cs + (c.toNat - '0'.toNat) := by
  simp [toNat]

theorem toNat_digitChar {d : Nat} (h : d < 10) : (Nat.digitChar d).toNat - '0'.toNat = d := by
  have := Nat.toNat_digitChar_of_lt_ten h
  simp [this]

/-- Reading what was written. -/
theorem toNat_ofNat (n : Nat) : toNat (ofNat n) = n := by
  induction n using Nat.strongRecOn with
  | ind n ih =>
    by_cases h : n < 10
    · simpa [ofNat, Nat.toDigits_of_lt_base h, toNat] using toNat_digitChar h
    · have hd : n % 10 < 10 := Nat.mod_lt n (by decide)
      have split := Nat.toDigits_append_toDigits (b := 10) (n := n / 10) (d := n % 10) (by decide)
        (by omega) hd
      rw [Nat.toDigits_of_lt_base hd, Nat.div_add_mod] at split
      have rest := ih (n / 10) (by omega)
      simp only [ofNat] at rest ⊢
      rw [← split, toNat_append_singleton, rest, toNat_digitChar hd]
      omega

/-- The hexadecimal digits of a number, at least `width` of them. -/
def hex (width n : Nat) : List Char :=
  let digits := Nat.toDigits 16 n
  List.replicate (width - digits.length) '0' ++ digits

/-- An integer in base ten, as a text. -/
def text (n : Int) : String := String.ofList (ofInt n)

end LocaleBundle.Text.Numeral
