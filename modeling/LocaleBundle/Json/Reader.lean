import LocaleBundle.Text.Search
import LocaleBundle.Value

/-!
# Reading JSON

`read` takes one JSON value off the front of a text and returns what follows it;
`readDocument` reads a text that is one value and nothing else. Besides the
standard grammar the words `NaN`, `Infinity` and `-Infinity` are numbers. An
integer without fraction and exponent is exact, any other number a double. Of
members with one name the last value counts, at the place of the first.

A failure names its kind and the text from the offending character on; its
position is what is missing from that text to the whole.

A decoder has limits of its own, on how deeply values are nested and on the
digits of an integer, of which 4300 are read. They are not modelled: here no
reading fails for them, and whatever is proved of readings assumes that they are
not reached. Texts hold no lone surrogates, so what an escape of one is read as
is not modelled either.
-/

namespace LocaleBundle.Json

/-- Why a text is not JSON. -/
inductive Fault where
  | expectingValue
  | expectingName
  | expectingColon
  | expectingComma
  | unterminatedString
  | controlCharacter
  | invalidEscape
  | invalidUnicodeEscape
  | extraData
  | byteOrderMark
  deriving DecidableEq

/-- The wording of a failure. -/
def Fault.message : Fault → String
  | .expectingValue => "Expecting value"
  | .expectingName => "Expecting property name enclosed in double quotes"
  | .expectingColon => "Expecting ':' delimiter"
  | .expectingComma => "Expecting ',' delimiter"
  | .unterminatedString => "Unterminated string starting at"
  | .controlCharacter => "Invalid control character at"
  | .invalidEscape => "Invalid \\escape"
  | .invalidUnicodeEscape => "Invalid \\uXXXX escape"
  | .extraData => "Extra data"
  | .byteOrderMark => "Unexpected UTF-8 BOM (decode using utf-8-sig)"

/-- A failure and the text from the offending character on. -/
structure ReadError where
  fault : Fault
  rest : List Char
  deriving DecidableEq

/-- The text before the offending character. -/
def ReadError.before (e : ReadError) (text : List Char) : List Char :=
  text.take (text.length - e.rest.length)

/-- The failure with its line, its column and its offset in the whole text. -/
def ReadError.describe (e : ReadError) (text : List Char) : String :=
  let before := e.before text
  let line := before.count '\n' + 1
  let column := (before.reverse.takeWhile (· ≠ '\n')).length + 1
  e.fault.message ++ ": line " ++ toString line ++ " column " ++ toString column
    ++ " (char " ++ toString before.length ++ ")"

/-- A value and the text after it. -/
abbrev Reading (α : Type) := Except ReadError (α × List Char)

/-- The whitespace of JSON. -/
def isBlank (c : Char) : Bool := c = ' ' || c = '\t' || c = '\n' || c = '\r'

/-- Drops leading whitespace. -/
def skipBlanks (s : List Char) : List Char := s.dropWhile isBlank

/-! ## Strings -/

/-- The value of a hexadecimal digit. -/
def hexValue? (c : Char) : Option Nat :=
  if '0' ≤ c && c ≤ '9' then some (c.toNat - '0'.toNat)
  else if 'a' ≤ c && c ≤ 'f' then some (c.toNat - 'a'.toNat + 10)
  else if 'A' ≤ c && c ≤ 'F' then some (c.toNat - 'A'.toNat + 10)
  else none

/-- The value of four hexadecimal digits. -/
def hexUnit? (a b c d : Char) : Option Nat := do
  let a ← hexValue? a
  let b ← hexValue? b
  let c ← hexValue? c
  let d ← hexValue? d
  return ((a * 16 + b) * 16 + c) * 16 + d

/-- The character of a one-letter escape. -/
def shortEscape? : Char → Option Char
  | '"' => some '"'
  | '\\' => some '\\'
  | '/' => some '/'
  | 'b' => some '\x08'
  | 'f' => some '\x0c'
  | 'n' => some '\n'
  | 'r' => some '\r'
  | 't' => some '\t'
  | _ => none

/-- A piece of a string: a character, or the sixteen bits of a numeric escape. -/
inductive Piece where
  | char (c : Char)
  | unit (n : Nat)

/-- Whether sixteen bits are the first half of a surrogate pair. -/
def isHighSurrogate (n : Nat) : Bool := 0xd800 ≤ n && n ≤ 0xdbff

/-- Whether sixteen bits are the second half of a surrogate pair. -/
def isLowSurrogate (n : Nat) : Bool := 0xdc00 ≤ n && n ≤ 0xdfff

/-- The characters of a string: two escapes that are a surrogate pair make one
character, and half a pair makes the replacement character. Half a pair is a
lone surrogate, which no text holds; results about what is read are about texts
without such escapes. -/
def joinPieces : List Piece → List Char
  | [] => []
  | .char c :: rest => c :: joinPieces rest
  | .unit high :: .unit low :: rest =>
    if isHighSurrogate high && isLowSurrogate low then
      Char.ofNat (0x10000 + (high - 0xd800) * 0x400 + (low - 0xdc00)) :: joinPieces rest
    else unitChar high :: joinPieces (.unit low :: rest)
  | .unit n :: rest => unitChar n :: joinPieces rest
where
  /-- The character of sixteen bits that are no pair. -/
  unitChar (n : Nat) : Char :=
    if isHighSurrogate n || isLowSurrogate n then '\ufffd' else Char.ofNat n

/-- Reads a string's pieces up to its closing quote. `opening` is the text from
the opening quote on. The four digits of an escape are followed by more text. -/
def readPieces (opening : List Char) : List Char → Reading (List Piece)
  | [] => .error ⟨.unterminatedString, opening⟩
  | '"' :: rest => .ok ([], rest)
  | ['\\'] => .error ⟨.unterminatedString, opening⟩
  | '\\' :: 'u' :: a :: b :: c :: d :: next :: rest =>
    match hexUnit? a b c d with
    | none => .error ⟨.invalidUnicodeEscape, 'u' :: a :: b :: c :: d :: next :: rest⟩
    | some n =>
      (readPieces opening (next :: rest)).map fun (pieces, rest) => (.unit n :: pieces, rest)
  | '\\' :: 'u' :: rest => .error ⟨.invalidUnicodeEscape, 'u' :: rest⟩
  | '\\' :: e :: rest =>
    match shortEscape? e with
    | none => .error ⟨.invalidEscape, '\\' :: e :: rest⟩
    | some c => (readPieces opening rest).map fun (pieces, rest) => (.char c :: pieces, rest)
  | c :: rest =>
    if c.toNat < 0x20 then .error ⟨.controlCharacter, c :: rest⟩
    else (readPieces opening rest).map fun (pieces, rest) => (.char c :: pieces, rest)

/-- Reads a string after its opening quote. -/
def readText (afterQuote : List Char) : Reading String :=
  (readPieces ('"' :: afterQuote) afterQuote).map fun (pieces, rest) =>
    (String.ofList (joinPieces pieces), rest)

/-! ## Numbers -/

/-- Splits off leading ASCII digits. -/
def spanDigits (s : List Char) : List Char × List Char := s.span Text.Numeral.isAsciiDigit

/-- The digits of an integer part, a zero standing alone, and the text after. -/
def readWhole? : List Char → Option (List Char × List Char)
  | '0' :: rest => some (['0'], rest)
  | c :: rest =>
    if Text.Numeral.isAsciiDigit c then some (spanDigits (c :: rest)) else none
  | [] => none

/-- The digits after a point, if there is a point with a digit after it. -/
def readFraction : List Char → List Char × List Char
  | '.' :: rest =>
    match spanDigits rest with
    | ([], _) => ([], '.' :: rest)
    | (digits, after) => (digits, after)
  | s => ([], s)

/-- An exponent, if an `e` with an optional sign and digits follows. -/
def readExponent (s : List Char) : Option Int × List Char :=
  match s with
  | e :: rest =>
    if e = 'e' || e = 'E' then
      let (negative, unsigned) := match rest with
        | '-' :: more => (true, more)
        | '+' :: more => (false, more)
        | more => (false, more)
      match spanDigits unsigned with
      | ([], _) => (none, s)
      | (digits, after) => (some (Binary64.signed negative (Text.Numeral.toNat digits)), after)
    else (none, s)
  | [] => (none, s)

/-- Reads a number without its sign. -/
def readUnsigned? (negative : Bool) (s : List Char) : Option (Value × List Char) := do
  let (whole, afterWhole) ← readWhole? s
  let (fraction, afterFraction) := readFraction afterWhole
  let (exponent?, rest) := readExponent afterFraction
  match fraction, exponent? with
  | [], none => some (.int (Binary64.signed negative (Text.Numeral.toNat whole)), rest)
  | _, _ =>
    let digits := Text.Numeral.toNat (whole ++ fraction)
    let exponent := exponent?.getD 0 - Int.ofNat fraction.length
    some (.float (Binary64.ofScientific negative digits exponent), rest)

/-! ## Values -/

/-- The words that are values. -/
def literals : List (String × Value) := [
  ("null", .null), ("true", .bool true), ("false", .bool false), ("NaN", .float .nan),
  ("Infinity", .float (.infinity false)), ("-Infinity", .float (.infinity true))]

/-- Reads one of the words. -/
def readLiteral? (s : List Char) : Option (Value × List Char) :=
  literals.findSome? fun (word, v) => (Text.after? word.toList s).map fun rest => (v, rest)

/-- Reads a word or a number. -/
def readScalar (s : List Char) : Reading Value :=
  let number? := match s with
    | '-' :: rest => readUnsigned? true rest
    | _ => readUnsigned? false s
  match readLiteral? s, number? with
  | some reading, _ => .ok reading
  | none, some reading => .ok reading
  | none, none => .error ⟨.expectingValue, s⟩

mutual

/-- Reads a value that starts at the first character. -/
def readValue : Nat → List Char → Reading Value
  | 0, s => .error ⟨.expectingValue, s⟩
  | fuel + 1, s =>
    match s with
    | '"' :: rest => (readText rest).map fun (t, rest) => (.text t, rest)
    | '[' :: rest =>
      match skipBlanks rest with
      | ']' :: rest => .ok (.list [], rest)
      | rest => (readItems fuel rest).map fun (items, rest) => (.list items, rest)
    | '\x7b' :: rest =>
      match skipBlanks rest with
      | '\x7d' :: rest => .ok (.map [], rest)
      | rest => (readMembers fuel rest).map fun (members, rest) =>
          (.map (Entries.ofPairs members), rest)
    | s => readScalar s

/-- Reads the items of an array up to its closing bracket. -/
def readItems : Nat → List Char → Reading (List Value)
  | 0, s => .error ⟨.expectingValue, s⟩
  | fuel + 1, s =>
    match readValue fuel s with
    | .error e => .error e
    | .ok (v, rest) =>
      match skipBlanks rest with
      | ']' :: rest => .ok ([v], rest)
      | ',' :: rest =>
        (readItems fuel (skipBlanks rest)).map fun (items, rest) => (v :: items, rest)
      | rest => .error ⟨.expectingComma, rest⟩

/-- Reads the members of an object up to its closing brace. -/
def readMembers : Nat → List Char → Reading (List (String × Value))
  | 0, s => .error ⟨.expectingName, s⟩
  | fuel + 1, s =>
    match s with
    | '"' :: rest =>
      match readText rest with
      | .error e => .error e
      | .ok (name, rest) =>
        match skipBlanks rest with
        | ':' :: rest =>
          match readValue fuel (skipBlanks rest) with
          | .error e => .error e
          | .ok (v, rest) =>
            match skipBlanks rest with
            | '\x7d' :: rest => .ok ([(name, v)], rest)
            | ',' :: rest =>
              (readMembers fuel (skipBlanks rest)).map fun (members, rest) =>
                ((name, v) :: members, rest)
            | rest => .error ⟨.expectingComma, rest⟩
        | rest => .error ⟨.expectingColon, rest⟩
    | s => .error ⟨.expectingName, s⟩

end

/-- Takes one value off the front of a text. Every second step of the reader
takes a character, so the fuel lasts. -/
def read (s : List Char) : Reading Value := readValue (2 * s.length + 2) s

/-- Reads a text that holds one value, whitespace around it apart. Values may be
nested to any depth and integers may have any number of digits: that a decoder's
limits for both are not reached is assumed. -/
def readDocument (text : List Char) : Except ReadError Value :=
  match text with
  | '\ufeff' :: _ => .error ⟨.byteOrderMark, text⟩
  | _ =>
    match read (skipBlanks text) with
    | .error e => .error e
    | .ok (v, rest) =>
      match skipBlanks rest with
      | [] => .ok v
      | extra => .error ⟨.extraData, extra⟩

end LocaleBundle.Json
