import LocaleBundle.Error
import LocaleBundle.File.Location

/-!
# File trees

The files and directories below a working directory, each with its permission
bits. A place is the list of names that leads to it; the empty one is the
working directory. A location is resolved to a place name by name: every name
but the last must be a directory, and `..` leads up.

The operations are the ones that locale files need. Each gives the tree after
it, or the refusal; a refused operation changes nothing.
-/

namespace LocaleBundle

/-- A file with its bytes, or a directory; with permission bits. -/
inductive FileNode where
  | file (content : ByteArray) (mode : Nat)
  | directory (mode : Nat)

/-- The names that lead to a file or directory. -/
abbrev Place := List String

/-- The files and directories below a working directory. -/
structure FileTree where
  nodes : List (Place × FileNode) := []

namespace FileTree

/-- The permission bits of a new file. -/
def newFileMode : Nat := 0o644

/-- The permission bits of a new directory. -/
def newDirectoryMode : Nat := 0o755

/-- What is at a place. The working directory is always there. -/
def at? (tree : FileTree) (place : Place) : Option FileNode :=
  if place = [] then some (.directory newDirectoryMode) else tree.nodes.lookup place

/-- Writes a node at a place, in the order of first writing. -/
def setNode (place : Place) (node : FileNode) :
    List (Place × FileNode) → List (Place × FileNode)
  | [] => [(place, node)]
  | (p, n) :: rest => if p = place then (p, node) :: rest else (p, n) :: setNode place node rest

/-- The tree with a node at a place. -/
def set (tree : FileTree) (place : Place) (node : FileNode) : FileTree :=
  ⟨setNode place node tree.nodes⟩

/-- The tree without what is at a place. -/
def remove (tree : FileTree) (place : Place) : FileTree :=
  ⟨tree.nodes.filter fun (p, _) => p ≠ place⟩

theorem lookup_setNode (place other : Place) (node : FileNode) (nodes : List (Place × FileNode)) :
    (setNode place node nodes).lookup other =
      if other = place then some node else nodes.lookup other := by
  induction nodes with
  | nil =>
    by_cases h : other = place
    · simp [setNode, h]
    · simp [setNode, h]
  | cons head rest ih =>
    obtain ⟨p, n⟩ := head
    by_cases hp : p = place
    · subst hp
      by_cases h : other = p
      · simp [setNode, h]
      · simp [setNode, h, List.lookup_cons, beq_false_of_ne h]
    · by_cases h : other = p
      · subst h
        simp [setNode, hp]
      · simp [setNode, hp, List.lookup_cons, beq_false_of_ne h, ih]

/-- What is at a place after a node was written. -/
theorem at?_set (tree : FileTree) (place other : Place) (node : FileNode) (h : place ≠ []) :
    (tree.set place node).at? other = if other = place then some node else tree.at? other := by
  by_cases ho : other = []
  · subst ho
    simp [at?, Ne.symm h]
  · simp [at?, set, ho, lookup_setNode]

/-- Enters a directory by name, from a place that is one. -/
def enter (tree : FileTree) (place : Place) (name : String) : Except FileError Place :=
  if name = ".." then .ok place.dropLast
  else
    match tree.at? (place ++ [name]) with
    | none => .error .notFound
    | some (.file _ _) => .error .notDirectory
    | some (.directory _) => .ok (place ++ [name])

/-- The place that names lead to from a directory. The last name need not be
there. -/
def resolveFrom (tree : FileTree) (place : Place) : List String → Except FileError Place
  | [] => .ok place
  | [name] => .ok (if name = ".." then place.dropLast else place ++ [name])
  | name :: rest =>
    match enter tree place name with
    | .error e => .error e
    | .ok place => resolveFrom tree place rest

/-- The place of a location. Nothing outside the working directory is there. -/
def resolve (tree : FileTree) (location : Location) : Except FileError Place :=
  if !location.isNameable then .error .badName
  else if location.root = "" then resolveFrom tree [] location.parts else .error .notFound

/-- What is at a location. -/
def find (tree : FileTree) (location : Location) : Except FileError (Place × FileNode) :=
  match tree.resolve location with
  | .error e => .error e
  | .ok place =>
    match tree.at? place with
    | none => .error .notFound
    | some node => .ok (place, node)

/-- Whether a file is at a location. -/
def isFile (tree : FileTree) (location : Location) : Bool :=
  match tree.find location with
  | .ok (_, .file _ _) => true
  | _ => false

/-- The bytes of a file. -/
def read (tree : FileTree) (location : Location) : Except FileError ByteArray :=
  match tree.find location with
  | .error e => .error e
  | .ok (_, .directory _) => .error .isDirectory
  | .ok (_, .file content _) => .ok content

/-- The permission bits at a location. -/
def mode (tree : FileTree) (location : Location) : Except FileError Nat :=
  match tree.find location with
  | .error e => .error e
  | .ok (_, .directory mode) => .ok mode
  | .ok (_, .file _ mode) => .ok mode

/-- Sets the permission bits at a location. -/
def setMode (tree : FileTree) (location : Location) (mode : Nat) : Except FileError FileTree :=
  match tree.find location with
  | .error e => .error e
  | .ok (place, .directory _) => .ok (tree.set place (.directory mode))
  | .ok (place, .file content _) => .ok (tree.set place (.file content mode))

/-- Makes the directories on the way along names, from a place that is one. -/
def makeDirectoriesFrom (tree : FileTree) (place : Place) : List String → Except FileError FileTree
  | [] => .ok tree
  | name :: rest =>
    if name = ".." then makeDirectoriesFrom tree place.dropLast rest
    else
      match tree.at? (place ++ [name]) with
      | some (.directory _) => makeDirectoriesFrom tree (place ++ [name]) rest
      | some (.file _ _) => .error (if rest = [] then .alreadyExists else .notDirectory)
      | none =>
        makeDirectoriesFrom (tree.set (place ++ [name]) (.directory newDirectoryMode))
          (place ++ [name]) rest

/-- Makes a directory and those on the way to it; it may be there already. -/
def makeDirectories (tree : FileTree) (location : Location) : Except FileError FileTree :=
  if !location.isNameable then .error .badName
  else if location.root = "" then makeDirectoriesFrom tree [] location.parts else .error .notFound

/-- Writes a file in a directory that is there. A file that is there keeps its
permission bits. -/
def writeFile (tree : FileTree) (location : Location) (content : ByteArray) :
    Except FileError FileTree :=
  match tree.resolve location with
  | .error e => .error e
  | .ok place =>
    match tree.at? place with
    | some (.directory _) => .error .isDirectory
    | some (.file _ mode) => .ok (tree.set place (.file content mode))
    | none => .ok (tree.set place (.file content newFileMode))

/-- Writes a file and makes the directories on the way to it. -/
def put (tree : FileTree) (location : Location) (content : ByteArray) :
    Except FileError FileTree :=
  match tree.makeDirectories { location with parts := location.parts.dropLast } with
  | .error e => .error e
  | .ok tree => tree.writeFile location content

/-- Removes a file. -/
def removeFile (tree : FileTree) (location : Location) : Except FileError FileTree :=
  match tree.find location with
  | .error e => .error e
  | .ok (_, .directory _) => .error .isDirectory
  | .ok (place, .file _ _) => .ok (tree.remove place)

/-- Creates an empty file that only its owner may use. -/
def createFile (tree : FileTree) (location : Location) : Except FileError FileTree :=
  match tree.resolve location with
  | .error e => .error e
  | .ok place =>
    match tree.at? place with
    | some _ => .error .alreadyExists
    | none => .ok (tree.set place (.file ByteArray.empty 0o600))

/-- Moves a file over another or to a free place. A directory is not replaced. -/
def rename (tree : FileTree) (source target : Location) : Except FileError FileTree :=
  match tree.find source with
  | .error e => .error e
  | .ok (origin, node) =>
    match tree.resolve target with
    | .error e => .error e
    | .ok goal =>
      match tree.at? goal with
      | some (.directory _) => .error .isDirectory
      | _ => .ok ((tree.remove origin).set goal node)

end FileTree

end LocaleBundle
