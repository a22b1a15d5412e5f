/-
# Quoted text

Inside the text of an array or an object, and where a message names an
argument, a text stands between quotes: single ones, or double ones if the
text has a single quote and no double quote. The quote in use and the
backslash are escaped by a backslash, line feed, carriage return and tab by
their letter, and every other character without a graphic form by its number
in two, four or eight hexadecimal digits, whichever is the first that fits.

Key definitions: `Text.escape`, `Text.quoted`.
-/
import ContentDecl.Text.Graphic

namespace ContentDecl
namespace Text

/-- The last `width` hexadecimal digits of a number, in lower case. -/
def hex : Nat → Nat → List Char
  | 0, _ => []
  | width + 1, n => hex width (n / 16) ++ [Nat.digitChar (n % 16)]

/-- A character inside quotes. -/
def escape (quote c : Char) : List Char :=
  if c == quote || c == '\\' then ['\\', c]
  else if c == '\n' then ['\\', 'n']
  else if c == '\r' then ['\\', 'r']
  else if c == '\t' then ['\\', 't']
  else if isGraphic c then [c]
  else if c.toNat < 0x100 then '\\' :: 'x' :: hex 2 c.toNat
  else if c.toNat < 0x10000 then '\\' :: 'u' :: hex 4 c.toNat
  else '\\' :: 'U' :: hex 8 c.toNat

/-- The quote that stands around a text. -/
def quoteFor (cs : List Char) : Char :=
  if cs.contains '\x27' && !cs.contains '\x22' then '\x22' else '\x27'

/-- A text between quotes. -/
def quoted (s : String) : String :=
  let quote := quoteFor s.toList
  String.ofList (quote :: (s.toList.flatMap (escape quote) ++ [quote]))

end Text
end ContentDecl
