import LocaleBundle.Text.Numeral
import LocaleBundle.Text.Printable

/-!
# Quoted text

Messages show a text between quotes so that its end and its odd characters can
be seen. Single quotes are used unless the text holds one and holds no double
quote. The quote in use and the backslash are escaped, line feed, carriage
return and tab have short escapes, and other characters that are not printable
are written as hexadecimal escapes of two, four or eight digits.
-/

namespace LocaleBundle.Text

/-- The quote that a text is put between. -/
def quoteFor (hasSingle hasDouble : Bool) : Char :=
  if hasSingle && !hasDouble then '"' else '\''

/-- A character inside a quoted text. -/
def escapeQuoted (quote c : Char) : List Char :=
  if c = quote || c = '\\' then ['\\', c]
  else if c = '\n' then ['\\', 'n']
  else if c = '\r' then ['\\', 'r']
  else if c = '\t' then ['\\', 't']
  else if isPrintable c then [c]
  else if c.toNat ≤ 0xff then '\\' :: 'x' :: Numeral.hex 2 c.toNat
  else if c.toNat ≤ 0xffff then '\\' :: 'u' :: Numeral.hex 4 c.toNat
  else '\\' :: 'U' :: Numeral.hex 8 c.toNat

/-- A text between quotes. -/
def quoted (s : String) : String :=
  let cs := s.toList
  let quote := quoteFor (cs.contains '\'') (cs.contains '"')
  String.ofList (quote :: cs.flatMap (escapeQuoted quote) ++ [quote])

/-- A byte inside quoted bytes: ASCII as in a text, all else in hexadecimal. -/
def escapeByte (quote : Char) (b : UInt8) : List Char :=
  if b.toNat < 0x7f then escapeQuoted quote (Char.ofNat b.toNat)
  else '\\' :: 'x' :: Numeral.hex 2 b.toNat

/-- Bytes between quotes, after the letter `b`. -/
def quotedBytes (bytes : List UInt8) : String :=
  let quote := quoteFor (bytes.contains 0x27) (bytes.contains 0x22)
  String.ofList ('b' :: quote :: bytes.flatMap (escapeByte quote) ++ [quote])

end LocaleBundle.Text
