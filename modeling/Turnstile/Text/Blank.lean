import Turnstile.Text.Span

/-!
# Blanks

The characters that separate tokens: the ASCII blanks, the next-line control, the no-break
space and the separators of every script.
-/

namespace Turnstile.Text

/-- The spans of code points that are blank, ascending. -/
def blankSpans : List Span := [
  (0x9, 0xd), (0x20, 0x20), (0x85, 0x85), (0xa0, 0xa0), (0x1680, 0x1680), (0x2000, 0x200a),
  (0x2028, 0x2029), (0x202f, 0x202f), (0x205f, 0x205f), (0x3000, 0x3000)]

/-- Whether a character is blank. -/
def isBlank (c : Char) : Bool := covers blankSpans c.toNat

end Turnstile.Text
