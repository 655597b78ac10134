import SlidingCache.Text.Basic

/-!
# Blanks

The code points that separate words: the white space of Unicode, and the four separators of ASCII
control characters.
-/

namespace SlidingCache

def CodePoint.isBlank (c : CodePoint) : Bool :=
  let n := c.val
  (0x09 ≤ n && n ≤ 0x0D) || (0x1C ≤ n && n ≤ 0x20) || n = 0x85 || n = 0xA0 || n = 0x1680
    || (0x2000 ≤ n && n ≤ 0x200A) || n = 0x2028 || n = 0x2029 || n = 0x202F || n = 0x205F
    || n = 0x3000

namespace Text

def isBlank (t : Text) : Bool := t.all CodePoint.isBlank

/-- Without the blanks at the end. -/
def trimEnd (t : Text) : Text := t.dropEndWhile CodePoint.isBlank

end Text

end SlidingCache
