/-!
# Binary64 numbers

The doubles of IEEE 754, as exact values. The finite magnitudes, in ascending
order, are numbered from zero: with `e = k / 2^52` and `f = k % 2^52` the
magnitude of ordinal `k` is `f · 2^(-1074)` if `e = 0` and
`(2^52 + f) · 2^(e - 1075)` otherwise. So the ordinal is the bit pattern
without its sign, and the next magnitude has the next ordinal.

`ofRatio` rounds a quotient to the nearest magnitude, a tie going to the even
ordinal, and `ofScientific` does so for a decimal number.
-/

namespace LocaleBundle

namespace Binary64

/-- How many magnitudes lie between a power of two and the next. -/
def binade : Nat := Nat.pow 2 52

/-- The number of finite magnitudes; the ordinal that infinity would have. -/
def overflowOrdinal : Nat := 2047 * binade

end Binary64

/-- A double. All NaNs are one. -/
inductive Binary64 where
  | nan
  | infinity (negative : Bool)
  | finite (negative : Bool) (ordinal : Fin Binary64.overflowOrdinal)
  deriving DecidableEq

namespace Binary64

/-- The significand of a magnitude, the number of its last places. -/
def significand (k : Nat) : Nat :=
  if k / binade = 0 then k % binade else binade + k % binade

/-- The exponent of a magnitude's last place, plus 1074. -/
def lastPlace (k : Nat) : Nat := k / binade - 1

/-- A magnitude as a quotient of two naturals, the second a power of two. -/
def ratio (k : Nat) : Nat × Nat :=
  if 1074 ≤ lastPlace k then (significand k * Nat.pow 2 (lastPlace k - 1074), 1)
  else (significand k, Nat.pow 2 (1074 - lastPlace k))

/-- The integer nearest to `num / den`, a tie going to the even one. -/
def roundQuotient (num den : Nat) : Nat :=
  let q := num / den
  let r := num % den
  if 2 * r < den then q else if den < 2 * r then q + 1 else q + q % 2

/-- The ordinal nearest to `num / den`, `overflowOrdinal` or more if that is
beyond the finite ones. The last place is `2^(-1074)`, or higher so that the
significand has 53 bits. -/
def roundOrdinal (num den : Nat) : Nat :=
  if num = 0 then 0 else
    -- 2^log ≤ num / den < 2^(log + 1), with everything moved up by 1074 places
    let scaled := num * Nat.pow 2 1074 / den
    let place := Nat.log2 scaled - 52
    place * binade + roundQuotient (num * Nat.pow 2 1074) (den * Nat.pow 2 place)

/-- The double of a sign and an ordinal; too great an ordinal is infinity. -/
def ofOrdinal (negative : Bool) (k : Nat) : Binary64 :=
  if h : k < overflowOrdinal then .finite negative ⟨k, h⟩ else .infinity negative

/-- The double nearest to `±num / den`. -/
def ofRatio (negative : Bool) (num den : Nat) : Binary64 :=
  ofOrdinal negative (roundOrdinal num den)

/-- The ordinal nearest to `digits · 10^exponent`. Far outside the finite range
the answer is known from the decimal exponent alone. -/
def ordinalOfScientific (digits : Nat) (exponent : Int) : Nat :=
  let size := Int.ofNat (Nat.toDigits 10 digits).length + exponent
  if digits = 0 then 0
  else if 400 < size then overflowOrdinal
  else if size < -400 then 0
  else if 0 ≤ exponent then roundOrdinal (digits * Nat.pow 10 exponent.toNat) 1
  else roundOrdinal digits (Nat.pow 10 (-exponent).toNat)

/-- The double nearest to `±digits · 10^exponent`. -/
def ofScientific (negative : Bool) (digits : Nat) (exponent : Int) : Binary64 :=
  ofOrdinal negative (ordinalOfScientific digits exponent)

/-- The integer part of a magnitude. -/
def floor (k : Nat) : Nat := (ratio k).1 / (ratio k).2

/-- Whether a magnitude is a whole number. -/
def isWhole (k : Nat) : Bool := (ratio k).1 % (ratio k).2 = 0

/-- An integer of a given sign and size. -/
def signed (negative : Bool) (n : Nat) : Int := if negative then -(n : Int) else n

end Binary64

end LocaleBundle
