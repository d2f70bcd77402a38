import LocaleBundle.Text.Search

/-!
# Build artifacts

An artifact is a file of a build's output: its name relative to the output
directory, its content as text or bytes, and whether it is compiled code.
-/

namespace LocaleBundle.Bundle

/-- Whether an artifact is compiled code or anything else. -/
inductive ArtifactKind where
  | chunk
  | asset
  deriving DecidableEq

/-- A kind's name. -/
def ArtifactKind.name : ArtifactKind → String
  | .chunk => "chunk"
  | .asset => "asset"

/-- The kind of a name. -/
def ArtifactKind.ofName? (s : String) : Option ArtifactKind :=
  [ArtifactKind.chunk, .asset].find? fun kind => kind.name = s

/-- The content of an artifact. -/
inductive Source where
  | text (s : String)
  | bytes (b : List UInt8)
  deriving DecidableEq

/-- A file of a build's output. -/
structure Artifact where
  fileName : String
  source : Source
  kind : ArtifactKind := .asset
  deriving DecidableEq

/-- The code of an artifact whose placeholders are to be replaced: the text of
compiled code, and of files whose name ends in `js`. -/
def Artifact.code? (artifact : Artifact) : Option String :=
  match artifact.source with
  | .bytes _ => none
  | .text s =>
    if artifact.kind = .chunk || Text.endsWith "js".toList artifact.fileName.toList then some s
    else none

end LocaleBundle.Bundle
