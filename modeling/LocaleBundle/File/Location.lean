/-!
# Locations

A location is a path as it is written, with empty and `.` parts dropped: a root
(nothing for a relative location, one slash, or exactly two) and the names below
it. `..` stays, since what it leads to depends on the directories.
-/

namespace LocaleBundle

/-- A path: its root and the names below it. -/
structure Location where
  root : String := ""
  parts : List String := []
  deriving DecidableEq

namespace Location

/-- Splits characters at slashes. -/
def splitSlashes : List Char → List (List Char)
  | [] => [[]]
  | c :: s =>
    if c = '/' then [] :: splitSlashes s
    else
      match splitSlashes s with
      | [] => [[c]]
      | part :: rest => (c :: part) :: rest

/-- The names of a path, without the parts that mean nothing. -/
def names (cs : List Char) : List String :=
  ((splitSlashes cs).filter fun part => part ≠ [] && part ≠ ['.']).map String.ofList

/-- The location that a text writes. -/
def ofText (s : String) : Location :=
  let cs := s.toList
  let slashes := (cs.takeWhile (· = '/')).length
  let root := if slashes = 0 then "" else if slashes = 2 then "//" else "/"
  ⟨root, names cs⟩

/-- A location as a text; the empty relative one is a dot. -/
def text (l : Location) : String :=
  if l.root = "" && l.parts = [] then "." else l.root ++ "/".intercalate l.parts

/-- What a text names seen from a location: an absolute path alone. -/
def join (l : Location) (s : String) : Location :=
  let other := ofText s
  if other.root = "" then { l with parts := l.parts ++ other.parts } else other

/-- Whether every name of a location may be one: none holds the null character. -/
def isNameable (l : Location) : Bool := l.parts.all fun part => !part.toList.contains '\x00'

/-- Takes the `..` parts away by dropping the names before them. -/
def collapse (parts : List String) : List String :=
  (parts.foldl (fun up part => if part = ".." then up.drop 1 else part :: up) []).reverse

/-- The absolute text of a location below the working directory `base`, where no
name is a link. -/
def absoluteText (base : String) (l : Location) : String :=
  let parts := collapse l.parts
  if l.root = "" then "/".intercalate (base :: parts) else "/" ++ "/".intercalate parts

end Location

end LocaleBundle
