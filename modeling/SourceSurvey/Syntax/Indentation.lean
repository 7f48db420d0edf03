/-!
The check of indentation. Every line's indentation is measured twice, with tab stops every eight
columns and with tabs as one column each; a source whose blocks would differ between the two
measures is refused.
-/

namespace SourceSurvey.Syntax

/-- An indentation in both measures. -/
structure Indent where
  stops : Nat
  flat : Nat
  deriving DecidableEq

/-- The indentation behind one more character. Any character but a space or a tab starts anew. -/
def Indent.after (i : Indent) (c : Char) : Indent :=
  if c = ' ' then ⟨i.stops + 1, i.flat + 1⟩
  else if c = '\t' then ⟨(i.stops / 8 + 1) * 8, i.flat + 1⟩
  else ⟨0, 0⟩

/-- The indentation that a text at the start of a line makes. -/
def Indent.ofText (text : List Char) : Indent := text.foldl Indent.after ⟨0, 0⟩

/-- What can be wrong with the indentation of a line. -/
inductive IndentProblem
  /-- The measures disagree on how the line relates to those before it. -/
  | inconsistent
  /-- The line returns to a column at which no open block stands. -/
  | unmatched
  deriving DecidableEq

/-- The wording of the problem. -/
def IndentProblem.message : IndentProblem → String
  | .inconsistent => "inconsistent use of tabs and spaces in indentation"
  | .unmatched => "unindent does not match any outer indentation level"

/-- The indentations of the open blocks, innermost first. -/
abbrev IndentStack := List Indent

/-- Outside all blocks. -/
def IndentStack.base : IndentStack := [⟨0, 0⟩]

/-- Closes the blocks that are indented further than a line, but never the outermost. -/
def IndentStack.unwind (stops : Nat) : IndentStack → IndentStack
  | top :: next :: rest =>
    if stops < top.stops then IndentStack.unwind stops (next :: rest) else top :: next :: rest
  | stack => stack

/-- The innermost indentation. -/
def IndentStack.top (stack : IndentStack) : Indent := stack.headD ⟨0, 0⟩

/-- The open blocks at a line with the given indentation, or what is wrong with it. -/
def IndentStack.accept (stack : IndentStack) (line : Indent) : Except IndentProblem IndentStack :=
  let top := stack.top
  if line.stops = top.stops then
    if line.flat = top.flat then .ok stack else .error .inconsistent
  else if top.stops < line.stops then
    if top.flat < line.flat then .ok (line :: stack) else .error .inconsistent
  else
    let outer := stack.unwind line.stops
    if line.stops ≠ outer.top.stops then .error .unmatched
    else if line.flat ≠ outer.top.flat then .error .inconsistent
    else .ok outer

/-- The open blocks at a line that begins with the given text, or what is wrong with it. -/
def IndentStack.check (stack : IndentStack) (text : List Char) :
    Except IndentProblem IndentStack :=
  stack.accept (Indent.ofText text)

end SourceSurvey.Syntax
