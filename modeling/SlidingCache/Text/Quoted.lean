import SlidingCache.Text.Decimal
import SlidingCache.Text.Printable

/-!
# Quoted text

How text stands inside a message. The quote is `'`, or `"` where the text holds `'` and no `"`.
The quote and the backslash are written after a backslash, tab, line feed and carriage return as
`\t`, `\n`, `\r`, other code points that are not printable by their number in hexadecimal (two,
four or eight digits), and all else as itself. Bytes are quoted the same way, every byte outside
printable ASCII by its number, after a `b`.
-/

namespace SlidingCache

/-- The quote that costs fewer escapes: `"` only for text that holds `'` and no `"`. -/
def Text.quote (t : Text) : CodePoint :=
  if t.contains (CodePoint.ofChar '\'') && !t.contains (CodePoint.ofChar '"') then
    CodePoint.ofChar '"'
  else CodePoint.ofChar '\''

/-- A code point by its number: two, four or eight hexadecimal digits. -/
def CodePoint.byNumber (c : CodePoint) : Text :=
  if c.val ≤ 0xFF then ("\\x" : Text) ++ Text.hex 2 c.val
  else if c.val ≤ 0xFFFF then ("\\u" : Text) ++ Text.hex 4 c.val
  else ("\\U" : Text) ++ Text.hex 8 c.val

/-- One code point between the given quotes. -/
def CodePoint.escaped (quote c : CodePoint) : Text :=
  if c = quote ∨ c = CodePoint.ofChar '\\' then [CodePoint.ofChar '\\', c]
  else if c = CodePoint.ofChar '\n' then "\\n"
  else if c = CodePoint.ofChar '\r' then "\\r"
  else if c = CodePoint.ofChar '\t' then "\\t"
  else if c.isPrintable then [c]
  else c.byNumber

def Text.quoted (t : Text) : Text :=
  t.quote :: t.flatMap (CodePoint.escaped t.quote) ++ [t.quote]

/-- Bytes in quotes, behind a `b`. -/
def Bytes.quoted (b : Bytes) : Text :=
  let t : Text := b.map CodePoint.ofByte
  let escape (c : CodePoint) : Text := if c.isAscii then CodePoint.escaped t.quote c else c.byNumber
  CodePoint.ofChar 'b' :: t.quote :: t.flatMap escape ++ [t.quote]

end SlidingCache
