import LocaleBundle.Number.Binary64
import LocaleBundle.Text.Numeral

/-!
# Decimal numbers with an exponent

A decimal keeps its digits and its exponent as written: `1.50` and `1.5` are
equal numbers with different texts. The values beyond the finite ones are the
infinities and the NaNs, which may signal and may carry a number.

`render` writes a decimal, `ofText?` reads one and `floor` takes the integer
part. `Limits.fit?` is the result of arithmetic that keeps only so many digits and
exponents: the nearest decimal within the limits.
-/

namespace LocaleBundle

/-- A decimal number. A NaN's payload `0` is not written. -/
inductive Decimal where
  | finite (negative : Bool) (coefficient : Nat) (exponent : Int)
  | infinity (negative : Bool)
  | nan (negative signaling : Bool) (payload : Nat)
  deriving DecidableEq

namespace Decimal

/-- The digits of the coefficient; zero has one. -/
def digits (coefficient : Nat) : List Char := Text.Numeral.ofNat coefficient

/-- The text of a finite decimal without its sign. With the exponent at most
zero and the leading digit not below `10^(-6)` the point stands among the
digits, otherwise an exponent follows them. -/
def renderFinite (coefficient : Nat) (exponent : Int) : List Char :=
  let ds := digits coefficient
  let leading := exponent + Int.ofNat ds.length - 1
  if exponent ≤ 0 && -6 ≤ leading then
    if exponent = 0 then ds
    else
      let places := (-exponent).toNat
      if places < ds.length then
        ds.take (ds.length - places) ++ '.' :: ds.drop (ds.length - places)
      else '0' :: '.' :: List.replicate (places - ds.length) '0' ++ ds
  else
    let mantissa := match ds with
      | [] => []
      | [d] => [d]
      | d :: rest => d :: '.' :: rest
    mantissa ++ 'E' :: (if leading < 0 then '-' else '+') :: Text.Numeral.ofNat leading.natAbs

/-- A decimal's text. -/
def render : Decimal → List Char
  | .finite negative c e => (if negative then ['-'] else []) ++ renderFinite c e
  | .infinity negative => (if negative then ['-'] else []) ++ "Infinity".toList
  | .nan negative signaling payload =>
    (if negative then ['-'] else []) ++ (if signaling then ['s'] else []) ++ "NaN".toList
      ++ (if payload = 0 then [] else Text.Numeral.ofNat payload)

/-- The integer part of the size of a finite decimal. A power of ten above the
coefficient divides like the one with as many zeros as the coefficient has digits. -/
def floor (coefficient : Nat) (exponent : Int) : Nat :=
  if coefficient = 0 then 0
  else if 0 ≤ exponent then coefficient * Nat.pow 10 exponent.toNat
  else coefficient / Nat.pow 10 (min exponent.natAbs (digits coefficient).length)

/-- Whether a finite decimal is a whole number. -/
def isWhole (coefficient : Nat) (exponent : Int) : Bool :=
  0 ≤ exponent
    || coefficient % Nat.pow 10 (min exponent.natAbs (digits coefficient).length) = 0

/-- The limits of decimal arithmetic: how many digits are kept, and between which
exponents the leading digit of a number lies. -/
structure Limits where
  precision : Nat
  least : Int
  greatest : Int

namespace Limits

/-- The last place of the smallest numbers. -/
def lowestPlace (limits : Limits) : Int := limits.least - Int.ofNat limits.precision + 1

/-- The last place of the greatest numbers with all their digits. -/
def highestPlace (limits : Limits) : Int := limits.greatest - Int.ofNat limits.precision + 1

/-- A coefficient without its last digits, a half going to the even neighbour. If
more digits go than it has, less than a half goes with them. -/
def dropDigits (count coefficient : Nat) : Nat :=
  if (digits coefficient).length < count then 0
  else Binary64.roundQuotient coefficient (Nat.pow 10 count)

/-- The nearest decimal within the limits, none if the number is too great. A
decimal that is within the limits stays as it is written, and a zero has the
nearest exponent that they allow. -/
def fit? (limits : Limits) (coefficient : Nat) (exponent : Int) : Option (Nat × Int) :=
  if coefficient = 0 then some (0, min (max exponent limits.lowestPlace) limits.greatest)
  else
    let excess := exponent + Int.ofNat (digits coefficient).length - Int.ofNat limits.precision
    let place := max excess limits.lowestPlace
    if limits.highestPlace < place then none
    else if place ≤ exponent then some (coefficient, exponent)
    else
      let rounded := dropDigits (place - exponent).toNat coefficient
      if (digits rounded).length ≤ limits.precision then some (rounded, place)
      else if limits.highestPlace < place + 1 then none
      else some (rounded / 10, place + 1)

end Limits

/-- Reads digits with at most one point: the coefficient and the count of digits
after the point. -/
def readDigits? (cs : List Char) : Option (Nat × Nat) :=
  let whole := cs.takeWhile Text.Numeral.isAsciiDigit
  match cs.dropWhile Text.Numeral.isAsciiDigit with
  | [] => if whole = [] then none else some (Text.Numeral.toNat whole, 0)
  | '.' :: fraction =>
    if fraction.all Text.Numeral.isAsciiDigit && whole ++ fraction ≠ [] then
      some (Text.Numeral.toNat (whole ++ fraction), fraction.length)
    else none
  | _ :: _ => none

/-- Reads an integer with an optional sign. -/
def readExponent? : List Char → Option Int
  | '-' :: cs => digitsOnly? cs |>.map (- ·)
  | '+' :: cs => digitsOnly? cs
  | cs => digitsOnly? cs
where
  /-- Reads one or more digits. -/
  digitsOnly? (cs : List Char) : Option Int :=
    if cs ≠ [] && cs.all Text.Numeral.isAsciiDigit then some (Text.Numeral.toNat cs) else none

/-- Reads a decimal without a sign. -/
def readUnsigned? (negative : Bool) (cs : List Char) : Option Decimal :=
  let lower := cs.map Char.toLower
  let payload? (rest : List Char) (signaling : Bool) : Option Decimal :=
    if rest.all Text.Numeral.isAsciiDigit then
      some (.nan negative signaling (Text.Numeral.toNat rest)) else none
  if lower = "inf".toList || lower = "infinity".toList then some (.infinity negative)
  else if lower.take 3 = "nan".toList then payload? (lower.drop 3) false
  else if lower.take 4 = "snan".toList then payload? (lower.drop 4) true
  else
    let body := lower.takeWhile (· ≠ 'e')
    let exponent? := match lower.dropWhile (· ≠ 'e') with
      | [] => some 0
      | _ :: e => readExponent? e
    match readDigits? body, exponent? with
    | some (c, places), some e => some (.finite negative c (e - Int.ofNat places))
    | _, _ => none

/-- Reads a decimal. -/
def ofText? (s : String) : Option Decimal :=
  match s.toList with
  | '-' :: cs => readUnsigned? true cs
  | '+' :: cs => readUnsigned? false cs
  | cs => readUnsigned? false cs

end Decimal

/-- The double that a decimal text names, rounded to the nearest. -/
def Binary64.ofText? (s : String) : Option Binary64 :=
  match Decimal.ofText? s with
  | some (.finite negative c e) => some (.ofScientific negative c e)
  | some (.infinity negative) => some (.infinity negative)
  | some (.nan _ _ _) => some .nan
  | none => none

end LocaleBundle
