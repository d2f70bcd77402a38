import LocaleBundle.Text.DecimalDigit
import LocaleBundle.Value

/-!
# Templates

Keys, translations and plural cases are templates: `$N` stands for argument `N`
and `$$` for a dollar sign. A template is read from left to right as a list of
pieces. A slot takes all decimal digits after its dollar sign, and then names
the argument given by the longest lead of those digits that is the number of
one; the other digits are text again. A slot that names no argument stays as it
is written.
-/

namespace LocaleBundle

/-- An argument as client code prints it: a text as it is, the truth values and
null by their words, and a whole number without a fraction. Integers are written
with any number of digits: the limit of 4300 is assumed not to be reached. -/
def Value.argumentText : Value → String
  | .text s => s
  | .bool true => "true"
  | .bool false => "false"
  | .null => "null"
  | .float (.finite negative k) =>
    if Binary64.isWhole k then Text.Numeral.text (Binary64.signed negative (Binary64.floor k))
    else (Value.float (.finite negative k)).display
  | .decimal (.finite negative c e) =>
    if Decimal.isWhole c e then Text.Numeral.text (Binary64.signed negative (Decimal.floor c e))
    else (Value.decimal (.finite negative c e)).display
  | v => v.display

namespace Template

/-- A piece of a template. -/
inductive Piece where
  | plain (c : Char)
  | dollar
  | slot (digits : List Char)
  deriving DecidableEq

/-- The pieces of a template. The first `skip` characters are dropped, they
belong to a piece already read. -/
def piecesFrom : (skip : Nat) → List Char → List Piece
  | _, [] => []
  | skip + 1, _ :: s => piecesFrom skip s
  | 0, c :: s =>
    if c = '$' then
      if s.head? = some '$' then .dollar :: piecesFrom 1 s
      else
        let digits := s.takeWhile Text.isDigit
        if digits = [] then .plain c :: piecesFrom 0 s
        else .slot digits :: piecesFrom digits.length s
    else .plain c :: piecesFrom 0 s

/-- The pieces of a template. -/
def pieces (template : List Char) : List Piece := piecesFrom 0 template

/-- The argument that the digits of a slot name, counted from zero, and the
digits that are left over: the longest lead of at most `cut` digits with a value
from one to `count`. Every lead is a number, as in `Text.digitsValue`, whose
assumption is made here, too: no lead has more digits than are read. -/
def bindUpTo? (count : Nat) (digits : List Char) : (cut : Nat) → Option (Nat × List Char)
  | 0 => none
  | cut + 1 =>
    let slot := Text.digitsValue (digits.take (cut + 1))
    if 1 ≤ slot && slot ≤ count then some (slot - 1, digits.drop (cut + 1))
    else bindUpTo? count digits cut

/-- The argument that the digits of a slot name, and the digits left over. -/
def bind? (count : Nat) (digits : List Char) : Option (Nat × List Char) :=
  bindUpTo? count digits digits.length

/-- A piece with the arguments put in. -/
def Piece.filled (args : List Value) : Piece → List Char
  | .plain c => [c]
  | .dollar => ['$']
  | .slot digits =>
    match bind? args.length digits with
    | none => '$' :: digits
    | some (index, rest) => (args[index]?.elim [] fun v => v.argumentText.toList) ++ rest

/-- A template with the arguments put in. Their text is not read as a template. -/
def fill (template : String) (args : List Value) : String :=
  String.ofList ((pieces template.toList).flatMap (Piece.filled args))

/-- Whether a piece is no slot, or one that names one of `count` arguments. -/
def Piece.isServed (count : Nat) : Piece → Bool
  | .slot digits => (bind? count digits).isSome
  | _ => true

/-- Whether every slot of a template names one of `count` arguments; a negative
count is no argument at all. -/
def isServed (template : String) (count : Int) : Bool :=
  (pieces template.toList).all (Piece.isServed count.toNat)

end Template

end LocaleBundle
