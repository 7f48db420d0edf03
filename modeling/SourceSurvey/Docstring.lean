import SourceSurvey.Text.Blank
import SourceSurvey.Text.Split
import SourceSurvey.Text.Tabs

/-!
Documentation strings as a reader sees them: the text with the indentation of its definition taken
away.
-/

namespace SourceSurvey.Docstring

open Text

/-- Whether a line has nothing but blanks. -/
def isBlankLine (line : List Char) : Bool := (trimStart line).isEmpty

/-- The number of blanks that a line begins with. -/
def indentation (line : List Char) : Nat := line.length - (trimStart line).length

/-- The least indentation of the lines that are not blank, zero when all are. -/
def margin (lines : List (List Char)) : Nat :=
  (((lines.filter fun line => !isBlankLine line).map indentation).min?).getD 0

/-- The list without the empty lines at either end. -/
def dropEmptyEnds (lines : List (List Char)) : List (List Char) :=
  ((lines.reverse.dropWhile List.isEmpty).reverse).dropWhile List.isEmpty

/-- The first line without its indentation, and every later line without the least indentation that
    any later line has. -/
def unindent : List (List Char) → List (List Char)
  | [] => []
  | first :: rest => trimStart first :: rest.map (List.drop (margin rest))

/-- The text of a documentation string: tabs expanded, the common indentation removed, and no empty
    lines at either end. -/
def clean (text : List Char) : List Char :=
  join ['\n'] (dropEmptyEnds (unindent ((split '\n' text).map (expandTabs 8))))

end SourceSurvey.Docstring
