/-!
# Keys

Parameters and settings have names in small ASCII letters, and whoever gives them may use
capitals. A letter is matched by every character with the same case folding, which besides the
capital is the long s for `s` and the Kelvin sign for `k`.
-/

namespace Turnstile.Text

/-- The ASCII letter that a character is matched with, or the character itself. -/
def keyChar (c : Char) : Char :=
  if c = '\u017f' then 's'
  else if c = '\u212a' then 'k'
  else c.toLower

/-- Whether a text gives a name; capitals do not count. -/
def spells (text name : String) : Bool := text.map keyChar == name

/-- A text gives a name exactly when its characters are matched with those of the name. -/
theorem spells_iff {text name : String} : spells text name = true ↔ text.map keyChar = name := by
  simp [spells]

end Turnstile.Text
