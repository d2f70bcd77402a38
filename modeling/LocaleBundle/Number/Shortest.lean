import LocaleBundle.Number.Binary64
import LocaleBundle.Text.Numeral

/-!
# The shortest decimal of a double

A double is written with the fewest digits that read back as the same double,
and of those the digits nearest to it, a tie going to the even last digit. With
`n` digits only the two neighbours of the double on that decimal grid have to
be tried, since a grid point that reads back has one of them in between.

How the digits are laid out (point, exponent, sign) is the record
`DoubleText`, apart from the choice of the digits.
-/

namespace LocaleBundle

namespace Binary64

/-- A positive decimal `digits · 10^exponent`. -/
structure Scientific where
  digits : Nat
  exponent : Int
  deriving DecidableEq

/-- `num / den` divided by `10^e`. -/
def scaleDown (num den : Nat) (e : Int) : Nat × Nat :=
  if 0 ≤ e then (num, den * Nat.pow 10 e.toNat) else (num * Nat.pow 10 (-e).toNat, den)

/-- The exponent of the leading decimal digit of `num / den`, found by counting
digits and one comparison. -/
def decimalExponent (num den : Nat) : Int :=
  let guess := Int.ofNat (Nat.toDigits 10 num).length - Int.ofNat (Nat.toDigits 10 den).length
  let (n, d) := scaleDown num den guess
  if n < d then guess - 1 else guess

/-- Whether a decimal is read as the magnitude of ordinal `k`. -/
def readsAs (k : Nat) (s : Scientific) : Bool :=
  ordinalOfScientific s.digits s.exponent = k

/-- Of the two neighbours of `num / den` on the grid of `10^place`, the one that
reads as `k`; if both do, the nearer one, or at a tie the even one. -/
def nearestOnGrid? (k num den : Nat) (place : Int) : Option Scientific :=
  let (n, d) := scaleDown num den place
  let low : Scientific := ⟨n / d, place⟩
  let high : Scientific := ⟨n / d + 1, place⟩
  let remainder := 2 * (n % d)
  match readsAs k low, readsAs k high with
  | true, true =>
    if remainder < d then some low
    else if d < remainder then some high
    else if n / d % 2 = 0 then some low else some high
  | true, false => some low
  | false, true => some high
  | false, false => none

/-- Drops trailing zeros of the digits, at most `fuel` of them. -/
def Scientific.stripZeros : Nat → Scientific → Scientific
  | 0, s => s
  | fuel + 1, s =>
    if s.digits % 10 = 0 && s.digits ≠ 0 then
      stripZeros fuel ⟨s.digits / 10, s.exponent + 1⟩
    else s

/-- The exact decimal of a magnitude. -/
def exactDecimal (k : Nat) : Scientific :=
  if 1074 ≤ lastPlace k then ⟨significand k * Nat.pow 2 (lastPlace k - 1074), 0⟩
  else ⟨significand k * Nat.pow 5 (1074 - lastPlace k), -Int.ofNat (1074 - lastPlace k)⟩

/-- The shortest decimal of a magnitude other than zero. Seventeen digits always
suffice; the exact decimal stands in after them. -/
def shortest (k : Nat) : Scientific :=
  let (num, den) := ratio k
  let top := decimalExponent num den
  let found := (List.range 17).findSome? fun extra =>
    nearestOnGrid? k num den (top - Int.ofNat extra)
  let s := found.getD (exactDecimal k)
  s.stripZeros (Nat.toDigits 10 s.digits).length

end Binary64

/-- How a double is laid out: which exponents are written positionally, and the
words for the values that have no digits. -/
structure DoubleText where
  leastPositional : Int
  firstScientific : Int
  exponentDigits : Nat
  nan : String
  infinity : String

/-- Doubles in messages: positional from `1e-4` up to below `1e16`, with at least
one digit after the point, and an exponent with its sign and two digits. -/
def DoubleText.plain : DoubleText := ⟨-4, 16, 2, "nan", "inf"⟩

/-- Doubles in JSON have the same layout and words of their own. -/
def DoubleText.json : DoubleText := ⟨-4, 16, 2, "NaN", "Infinity"⟩

namespace DoubleText

/-- Digits with a point after the first `before` of them; zeros are filled in on
either side, and `.0` is kept. -/
def positional (digits : List Char) (before : Int) : List Char :=
  if before ≤ 0 then '0' :: '.' :: List.replicate (-before).toNat '0' ++ digits
  else
    let n := before.toNat
    let whole := digits.take n ++ List.replicate (n - digits.length) '0'
    let fraction := digits.drop n
    whole ++ '.' :: (if fraction = [] then ['0'] else fraction)

/-- One digit, the others after a point, and the exponent of ten. -/
def scientific (layout : DoubleText) (digits : List Char) (exponent : Int) : List Char :=
  let mantissa := match digits with
    | [] => []
    | [d] => [d]
    | d :: rest => d :: '.' :: rest
  let size := Text.Numeral.ofNat exponent.natAbs
  let padded := List.replicate (layout.exponentDigits - size.length) '0' ++ size
  mantissa ++ 'e' :: (if exponent < 0 then '-' else '+') :: padded

/-- A magnitude's text. -/
def magnitude (layout : DoubleText) (k : Nat) : List Char :=
  if k = 0 then ['0', '.', '0'] else
    let s := Binary64.shortest k
    let digits := Text.Numeral.ofNat s.digits
    let exponent := s.exponent + Int.ofNat digits.length - 1
    if layout.leastPositional ≤ exponent && exponent < layout.firstScientific then
      positional digits (exponent + 1)
    else layout.scientific digits exponent

/-- A double's text. -/
def render (layout : DoubleText) : Binary64 → List Char
  | .nan => layout.nan.toList
  | .infinity negative => (if negative then ['-'] else []) ++ layout.infinity.toList
  | .finite negative k => (if negative then ['-'] else []) ++ layout.magnitude k

end DoubleText

end LocaleBundle
