/-!
Expanding tabs to the next tab stop.
-/

namespace SourceSurvey.Text

/-- Expands the tabs of a line that begins at the given column, with stops every `size` columns. -/
def expandTabsFrom (size column : Nat) : List Char → List Char
  | [] => []
  | '\t' :: rest =>
    let pad := size - column % size
    List.replicate pad ' ' ++ expandTabsFrom size (column + pad) rest
  | c :: rest => c :: expandTabsFrom size (column + 1) rest

/-- Expands the tabs of a line. -/
def expandTabs (size : Nat) (line : List Char) : List Char := expandTabsFrom size 0 line

end SourceSurvey.Text
