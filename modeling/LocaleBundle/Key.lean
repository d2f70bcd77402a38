import LocaleBundle.Text.Numeral
import LocaleBundle.Text.Search

/-!
# Translation keys

The key of a template literal is its static text: the segments with the slots
`$1`, `$2`, … between them, every dollar sign of the text doubled. `ofSegments`
builds a key and `segments` takes it apart again; since the number of the next
slot is always known, digits that follow a slot belong to the text.
-/

namespace LocaleBundle.Key

/-- Static text inside a key. -/
def escape (segment : List Char) : List Char :=
  segment.flatMap fun c => if c = '$' then ['$', '$'] else [c]

/-- The segments after the first, each after its slot; slots count from `slot`. -/
def slotted (slot : Nat) : List (List Char) → List Char
  | [] => []
  | segment :: rest =>
    '$' :: Text.Numeral.ofNat slot ++ escape segment ++ slotted (slot + 1) rest

/-- The characters of the key of a list of segments. -/
def join : List (List Char) → List Char
  | [] => []
  | segment :: rest => escape segment ++ slotted 1 rest

/-- The key of a template literal with these static segments. -/
def ofSegments (segments : List String) : String :=
  String.ofList (join (segments.map String.toList))

/-- Takes a key apart: the first segment and the others. The first `skip`
characters are dropped, they belong to a dollar pair or a slot already read, and
`slot` is the number of the next slot. -/
def split : (skip slot : Nat) → List Char → List Char × List (List Char)
  | _, _, [] => ([], [])
  | skip + 1, slot, _ :: s => split skip slot s
  | 0, slot, c :: s =>
    if c = '$' then
      if Text.startsWith ['$'] s then
        let (first, others) := split 1 slot s
        ('$' :: first, others)
      else if Text.startsWith (Text.Numeral.ofNat slot) s then
        let (first, others) := split (Text.Numeral.ofNat slot).length (slot + 1) s
        ([], first :: others)
      else
        let (first, others) := split 0 slot s
        ('$' :: first, others)
    else
      let (first, others) := split 0 slot s
      (c :: first, others)

/-- The static segments of a key. -/
def segments (key : String) : List String :=
  let (first, others) := split 0 1 key.toList
  (first :: others).map String.ofList

/-- The number of slots of a key. -/
def slotCount (key : String) : Nat := (segments key).length - 1

end LocaleBundle.Key
