import LocaleBundle.Json.Reader
import LocaleBundle.Logged
import LocaleBundle.Template

/-!
# Placeholder tokens

Compiled code carries a call token for every translated text and a sentinel for
every reference to the locale. A call token is the call mark, a JSON string that
is the key, then JSON literals that are the arguments, set apart by commas, and
a closing parenthesis, with JSON whitespace allowed between them.

`CallToken.write` makes a token, `scan` finds the tokens of a text in order, and
`replace` puts other text in their place.
-/

namespace LocaleBundle

/-- What every call token starts with. -/
def callMark : String := "__$T$__("

/-- What stands for the locale. -/
def localeSentinel : String := "__$LOCALE$__"

/-- A call token found in a text, from offset `start` to before offset `stop`. -/
structure CallToken where
  key : String
  args : List Value
  start : Nat
  stop : Nat

namespace CallToken

/-- The JSON texts of a key and its arguments, set apart by commas. -/
def writeValues (values : List Value) : Except String (List Char) := do
  let texts ← values.mapM (Json.encode .compact)
  return [',', ' '].intercalate texts

/-- The call token of a key with arguments. JSON must have a text for each of
them. -/
def write (key : String) (args : List Value) : Except Error String :=
  match writeValues (.text key :: args) with
  | .error typeName => .error (.unwritable typeName)
  | .ok body => .ok (callMark ++ String.ofList body ++ ")")

end CallToken

namespace Token

/-- Reads the arguments of a call up to its closing parenthesis. `count` of them
have been read. A failure is a wording. -/
def readArgs : (fuel count : Nat) → List Char → Except String (List Value × List Char)
  | 0, _, _ => .error "unterminated placeholder"
  | fuel + 1, count, s =>
    match Json.skipBlanks s with
    | [] => .error "unterminated placeholder"
    | ')' :: rest => .ok ([], rest)
    | ',' :: rest =>
      let argument := "argument " ++ toString (count + 1) ++ " is not a JSON literal"
      match Json.read (Json.skipBlanks rest) with
      | .error e => .error (argument ++ " (" ++ e.fault.message ++ ")")
      | .ok (.list _, _) => .error argument
      | .ok (.map _, _) => .error argument
      | .ok (v, rest) => (readArgs fuel (count + 1) rest).map fun (args, rest) => (v :: args, rest)
    | c :: _ => .error ("unexpected character " ++ Text.quoted (String.singleton c))

/-- Reads a call after its mark: the key, the arguments and the text after it. -/
def readCall (afterMark : List Char) : Except String (String × List Value × List Char) :=
  match Json.read (Json.skipBlanks afterMark) with
  | .error e => .error ("key is not a JSON string (" ++ e.fault.message ++ ")")
  | .ok (.text key, rest) =>
    (readArgs (rest.length + 1) 0 rest).map fun (args, rest) => (key, args, rest)
  | .ok _ => .error "key is not a JSON string"

/-- A piece of a scanned text: text between the tokens, or a token. -/
inductive Segment where
  | text (cs : List Char)
  | call (token : CallToken)

/-- The pieces of the text from `offset` on. The pieces before a token that
cannot be read are kept beside its fault. -/
def segmentsFrom (fileName : String) :
    (fuel offset : Nat) → List Char → List Segment × Option Fault
  | 0, _, s => ([.text s], none)
  | fuel + 1, offset, s =>
    match Text.splitAtFirst callMark.toList s with
    | none => ([.text s], none)
    | some (before, fromMark) =>
      let start := offset + before.length
      match readCall (fromMark.drop callMark.length) with
      | .error reason => ([.text before], some (.badPlaceholder fileName start reason))
      | .ok (key, args, rest) =>
        let stop := start + (fromMark.length - rest.length)
        let (segments, fault) := segmentsFrom fileName fuel stop rest
        (.text before :: .call ⟨key, args, start, stop⟩ :: segments, fault)

/-- The pieces of a text, up to the first token that cannot be read. -/
def segments (code fileName : String) : List Segment × Option Fault :=
  segmentsFrom fileName (code.length + 1) 0 code.toList

/-- The call tokens of a text in order, and the fault that ended the search. -/
def scan (code fileName : String) : List CallToken × Option Fault :=
  let (pieces, fault) := segments code fileName
  (pieces.filterMap fun
    | .call token => some token
    | .text _ => none, fault)

/-- A text with the sentinels replaced. -/
def replaceSentinel (locale : String) (cs : List Char) : List Char :=
  Text.replaceAll localeSentinel.toList locale.toList cs

variable {σ : Type}

/-- The pieces with the sentinels of the texts replaced and the tokens rendered
in order. -/
def renderSegments (locale : String) (render : CallToken → Job σ String) :
    List Segment → Job σ (List Char)
  | [] => Job.ok []
  | .text cs :: rest => do
    let after ← renderSegments locale render rest
    return replaceSentinel locale cs ++ after
  | .call token :: rest => do
    let text ← render token
    let after ← renderSegments locale render rest
    return text.toList ++ after

/-- A text with each call token rendered and each sentinel replaced by the
locale. Rendered text is not searched again. Tokens before one that cannot be
read are still rendered. -/
def replace (code locale : String) (render : CallToken → Job σ String) (fileName : String) :
    Job σ String := do
  let (pieces, fault) := segments code fileName
  let text ← renderSegments locale render pieces
  match fault with
  | some f => Job.fail (.fault f)
  | none => return String.ofList text

end Token

end LocaleBundle
