import SourceSurvey.Text.Bounds

/-!
Blank characters and trimming. The class is the property White_Space of the character database.
-/

namespace SourceSurvey.Text

/-- Boundaries of the property White_Space. -/
def blankBounds : List Nat := [
  9, 14, 32, 33, 133, 134, 160, 161, 5760, 5761, 8192, 8203, 8232, 8234, 8239, 8240, 8287, 8288,
  12288, 12289]

/-- Whether a character is blank: tabs, line ends, form feeds, and the spaces of every script. -/
def isBlank (c : Char) : Bool := withinBounds blankBounds c.toNat

/-- The text without its leading blanks. -/
def trimStart (text : List Char) : List Char := text.dropWhile isBlank

/-- The text without its trailing blanks. -/
def trimEnd (text : List Char) : List Char := (text.reverse.dropWhile isBlank).reverse

/-- The text without the blanks at either end. -/
def trim (text : List Char) : List Char := trimEnd (trimStart text)

end SourceSurvey.Text
