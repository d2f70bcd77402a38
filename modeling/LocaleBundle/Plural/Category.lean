import LocaleBundle.Value

/-!
# Plural categories

The languages of the world put numbers into at most six plural categories. The
rule of a language is data: for each category a condition, an alternative of
conjunctions of relations between an operand of the number and a set of
integers. The categories are tried in order, and a number that meets no
condition is of category `other`.

The operands are those of CLDR: `n` the number without its sign, `i` its integer
part, and of its visible fraction digits the count `v` and value `f`, and count
`w` and value `t` without trailing zeros. `e` is the compact exponent, which a
plain number does not have.

Decimals are first fitted to the limits of decimal arithmetic, 28 digits and
exponents up to 999999, and a remainder of a decimal with a quotient of more
digits than that is refused.
-/

namespace LocaleBundle.Plural

/-- The plural categories. -/
inductive Category where
  | zero
  | one
  | two
  | few
  | many
  | other
  deriving DecidableEq

/-- A category's name, which is also its match key in a plural table. -/
def Category.name : Category → String
  | .zero => "zero"
  | .one => "one"
  | .two => "two"
  | .few => "few"
  | .many => "many"
  | .other => "other"

/-- Why a value has no category. -/
inductive QuantityError where
  | nanDouble
  | nanDecimal
  | infiniteDouble
  | infiniteDecimal
  | signalingNan
  | tooGreat
  | quotientTooLong
  | notANumber (typeName : String)
  deriving DecidableEq

/-- The wording of a refusal. Those of decimal arithmetic have none. -/
def QuantityError.message? : QuantityError → Option String
  | .nanDouble => "cannot convert float NaN to integer"
  | .nanDecimal => "cannot convert NaN to integer"
  | .infiniteDouble => "cannot convert float infinity to integer"
  | .infiniteDecimal => "cannot convert Infinity to integer"
  | .signalingNan | .tooGreat | .quotientTooLong => none
  | .notANumber typeName => "bad operand type for abs(): '" ++ typeName ++ "'"

/-- A number without its sign. -/
inductive Quantity where
  | whole (n : Nat)
  | decimal (coefficient : Nat) (exponent : Int)
  deriving DecidableEq

/-- The limits of arithmetic on decimals. -/
def limits : Decimal.Limits := ⟨28, -999999, 999999⟩

/-- The quantity that a decimal text's double stands for: whole if it is, else
its shortest decimal. -/
def Quantity.ofDouble (k : Nat) : Quantity :=
  if Binary64.isWhole k then .whole (Binary64.floor k)
  else
    let s := Binary64.shortest k
    .decimal s.digits s.exponent

/-- The quantity of a decimal, fitted to the limits. -/
def Quantity.ofDecimal (coefficient : Nat) (exponent : Int) : Except QuantityError Quantity :=
  match limits.fit? coefficient exponent with
  | none => .error .tooGreat
  | some (c, e) => .ok (.decimal c e)

/-- The quantity of a value. -/
def Quantity.ofValue : Value → Except QuantityError Quantity
  | .bool b => .ok (.whole b.toNat)
  | .int n => .ok (.whole n.natAbs)
  | .float .nan => .error .nanDouble
  | .float (.infinity _) => .error .infiniteDouble
  | .float (.finite _ k) => .ok (.ofDouble k)
  | .decimal (.nan _ true _) => .error .signalingNan
  | .decimal (.nan _ false _) => .error .nanDecimal
  | .decimal (.infinity _) => .error .infiniteDecimal
  | .decimal (.finite _ c e) => Quantity.ofDecimal c e
  | v => .error (.notANumber v.typeName)

namespace Quantity

/-- The integer part. -/
def floor : Quantity → Nat
  | .whole n => n
  | .decimal c e => Decimal.floor c e

/-- The visible fraction digits: the last digits of the coefficient, as many as
the exponent says. Zeros that only the exponent implies are not visible. -/
def fractionDigits : Quantity → List Char
  | .whole _ => []
  | .decimal c e =>
    let digits := Decimal.digits c
    if e < 0 then digits.drop (digits.length - e.natAbs) else []

/-- The number as an integer, if it is one. -/
def toNat? : Quantity → Option Nat
  | .whole n => some n
  | .decimal c e => if Decimal.isWhole c e then some (Decimal.floor c e) else none

/-- The remainder by `m`. -/
def mod (m : Nat) : Quantity → Except QuantityError Quantity
  | .whole n => .ok (.whole (n % m))
  | .decimal c e =>
    if Nat.pow 10 limits.precision ≤ Decimal.floor c e / m then .error .quotientTooLong
    else if 0 ≤ e then .ok (.decimal (c * Nat.pow 10 e.toNat % m) 0)
    else .ok (.decimal (c % (m * Nat.pow 10 e.natAbs)) e)

end Quantity

/-- The operands of plural rules. -/
inductive Operand where
  | n
  | i
  | v
  | w
  | f
  | t
  | e
  deriving DecidableEq

/-- Digits without the zeros at their end. -/
def dropTrailingZeros (digits : List Char) : List Char :=
  (digits.reverse.dropWhile (· = '0')).reverse

/-- The value of an operand. -/
def Operand.value (q : Quantity) : Operand → Quantity
  | .n => q
  | .i => .whole q.floor
  | .v => .whole q.fractionDigits.length
  | .w => .whole (dropTrailingZeros q.fractionDigits).length
  | .f => .whole (Text.Numeral.toNat q.fractionDigits)
  | .t => .whole (Text.Numeral.toNat (dropTrailingZeros q.fractionDigits))
  | .e => .whole 0

/-- A relation between an operand, or its remainder by `modulus`, and the
integers of some ranges. -/
structure Relation where
  operand : Operand
  modulus : Option Nat
  isIn : Bool
  ranges : List (Nat × Nat)

/-- Whether a relation holds. A number that is no integer is in no range. -/
def Relation.holds (q : Quantity) (r : Relation) : Except QuantityError Bool := do
  let value := r.operand.value q
  let value ← match r.modulus with
    | none => pure value
    | some m => value.mod m
  let found := match value.toNat? with
    | none => false
    | some n => r.ranges.any fun (lo, hi) => lo ≤ n && n ≤ hi
  return found == r.isIn

/-- Whether all relations hold; the first that does not ends the search. -/
def allHold (q : Quantity) : List Relation → Except QuantityError Bool
  | [] => .ok true
  | r :: rest => do if ← r.holds q then allHold q rest else return false

/-- Whether one of the conjunctions holds; the first that does ends the search. -/
def anyHolds (q : Quantity) : List (List Relation) → Except QuantityError Bool
  | [] => .ok false
  | conjunction :: rest => do if ← allHold q conjunction then return true else anyHolds q rest

/-- The rule of a language: categories with their conditions, in order. -/
abbrev Rule := List (Category × List (List Relation))

/-- The category of a quantity under a rule. -/
def Rule.category (q : Quantity) : Rule → Except QuantityError Category
  | [] => .ok .other
  | (category, condition) :: rest => do
    if ← anyHolds q condition then return category else Rule.category q rest

/-- The category where a locale is unknown: `one` for the number one. A quiet NaN
and the infinities are not one. -/
def simpleCategory (v : Value) : Except QuantityError Category :=
  match Quantity.ofValue v with
  | .ok q => .ok (if q.toNat? = some 1 then .one else .other)
  | .error .signalingNan => .error .signalingNan
  | .error .tooGreat => .error .tooGreat
  | .error (.notANumber typeName) => .error (.notANumber typeName)
  | .error _ => .ok .other

end LocaleBundle.Plural
