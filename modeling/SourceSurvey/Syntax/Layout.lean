/-!
The layout between two tokens: whether a line ended, and how far the next token is indented. Block
structure is decided by it. A tab counts eight columns here; a carriage return or a form feed
returns to column zero.
-/

namespace SourceSurvey.Syntax

/-- What the text between two tokens says about lines and columns. -/
structure Layout where
  /-- No text at all separates the two tokens. -/
  tight : Bool := false
  /-- A line ended. -/
  breaks : Bool := false
  /-- Columns since the last line end, or since the token before. -/
  column : Nat := 0
  /-- A blank that has no width, or a vertical tab, ended the measuring early. -/
  blocked : Bool := false
  /-- Such a blank stands after the last joined line. -/
  masked : Bool := false
  /-- A backslash joined two lines. -/
  spliced : Bool := false
  deriving DecidableEq

/-- Reads on over blanks once measuring has stopped, looking only for joined lines. -/
def Layout.pastBlock (layout : Layout) : List Char → Layout
  | [] => layout
  | '\\' :: rest => Layout.pastBlock { layout with spliced := true, masked := false } rest
  | c :: rest =>
    Layout.pastBlock
      (if c == ' ' || c == '\t' || c == '\n' || c == '\r' || c == '\x0c' then layout
        else { layout with masked := true }) rest

/-- Adds the measure of a run of blanks. A line end resets the column and is remembered; a joined
    line leaves the column as it is. -/
def Layout.over (layout : Layout) : List Char → Layout
  | [] => layout
  | '\n' :: rest => Layout.over { layout with breaks := true, column := 0 } rest
  | ' ' :: rest => Layout.over { layout with column := layout.column + 1 } rest
  | '\t' :: rest => Layout.over { layout with column := layout.column + 8 } rest
  | '\r' :: rest => Layout.over { layout with column := 0 } rest
  | '\x0c' :: rest => Layout.over { layout with column := 0 } rest
  | '\\' :: '\n' :: rest => Layout.over { layout with spliced := true } rest
  | '\\' :: '\r' :: '\n' :: rest => Layout.over { layout with spliced := true } rest
  | text => Layout.pastBlock { layout with blocked := true } text

/-- The layout of the text between two tokens. -/
def Layout.ofGap (gap : List Char) : Layout := Layout.over { tight := gap.isEmpty } gap

/-- The layout before the end of the source, which ends the last line whether or not a line end is
    written there. -/
def Layout.atEnd (gap : List Char) : Layout :=
  let layout := Layout.ofGap gap
  if layout.blocked then layout else { layout with breaks := true, column := 0 }

end SourceSurvey.Syntax
