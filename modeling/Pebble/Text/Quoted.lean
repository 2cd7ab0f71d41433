import Pebble.Text.Printable

/-!
The quoted form of a text, in which messages show a part of the source: one line of printable
characters between two quotes.
-/

namespace Pebble.Text

/-- The quote around a text: the single one, unless the text holds a single quote and no double
one. -/
def quoteFor (text : Text) : Char :=
  if text.contains '\'' && !text.contains '"' then '"' else '\''

def codePoint (c : Char) : Text :=
  if c.toNat < 0x100 then "\\x".toList ++ hex 2 c.toNat
  else if c.toNat < 0x10000 then "\\u".toList ++ hex 4 c.toNat
  else "\\U".toList ++ hex 8 c.toNat

/-- A character as it stands between the quotes. The backslash and the quote in use get a
backslash in front, and what cannot be printed is written by an escape. -/
def quotedChar (quote c : Char) : Text :=
  if c = '\\' ∨ c = quote then ['\\', c]
  else if c = '\n' then "\\n".toList
  else if c = '\r' then "\\r".toList
  else if c = '\t' then "\\t".toList
  else if isPrintable c then [c]
  else codePoint c

def quoted (text : Text) : Text :=
  quoteFor text :: text.flatMap (quotedChar (quoteFor text)) ++ [quoteFor text]

end Pebble.Text
