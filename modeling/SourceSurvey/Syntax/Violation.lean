import SourceSurvey.Syntax.Indentation
import SourceSurvey.Syntax.Place
import SourceSurvey.Syntax.Statement

/-!
What is wrong with a source that the grammar lets pass: statements of the older edition of the
language, and indentation that mixes tabs and spaces.
-/

namespace SourceSurvey.Syntax

/-- A token at which the check looks. -/
inductive Mark
  /-- The first token of a statement, a clause or a decorator. -/
  | line (token : Nat)
  /-- The first token of a statement of the older edition. -/
  | legacy (token : Nat) (keyword : Legacy)

mutual

/-- The marks of a statement, in source order. -/
def Statement.marks : Statement → List Mark
  | .expression start _ | .importing start _ | .plain start => [.line start]
  | .legacy start keyword => [.legacy start keyword]
  | .definition decorators start _ _ _ body =>
    decorators.map .line ++ .line start :: Statement.marksOf body
  | .block start body => .line start :: Statement.marksOf body

/-- The marks of several statements. -/
def Statement.marksOf : List Statement → List Mark
  | [] => []
  | statement :: rest => statement.marks ++ Statement.marksOf rest

end

/-- Why a source is refused. Lines and columns count from zero. -/
inductive Problem
  /-- The grammar does not accept the outermost statement that begins on this line. -/
  | grammar (line column : Nat)
  /-- Only a line end is missing. -/
  | lineEnd
  | legacy (keyword : Legacy) (line column : Nat)
  | indentation (problem : IndentProblem) (line : Nat)
  deriving DecidableEq

/-- The word that a statement of the older edition begins with. -/
def Legacy.spelling : Legacy → String
  | .print => "print"
  | .exec => "exec"

/-- The wording of the problem, with lines and columns counted from one. -/
def Problem.message : Problem → String
  | .grammar line column =>
    "invalid syntax at line " ++ toString (line + 1) ++ ", column " ++ toString (column + 1)
  | .lineEnd => "invalid syntax"
  | .legacy keyword line column =>
    "Python 2 `" ++ keyword.spelling ++ "` statement at line " ++ toString (line + 1) ++
      ", column " ++ toString (column + 1)
  | .indentation problem line => problem.message ++ " at line " ++ toString (line + 1)

/-- Whether a character may stand in the indentation of a line. -/
def isIndentChar (c : Char) : Bool := c == ' ' || c == '\t' || c == '\x0c'

/-- Finds the first problem at the given marks. A line is looked at once, and only where nothing but
    indentation comes before the mark. -/
def violationAt (places : Array Place) (stack : IndentStack) (last : Option Nat) :
    List Mark → Option Problem
  | [] => none
  | .legacy token keyword :: _ =>
    let place := places[token]?.getD .start
    some (.legacy keyword place.line place.column)
  | .line token :: rest =>
    let place := places[token]?.getD .start
    if place.margin.all isIndentChar && last ≠ some place.marginStart then
      match stack.check place.margin.reverse with
      | .ok stack => violationAt places stack (some place.marginStart) rest
      | .error problem => some (.indentation problem place.line)
    else violationAt places stack last rest

/-- The first problem of a source that the grammar accepts. -/
def violation (places : Array Place) (body : List Statement) : Option Problem :=
  violationAt places .base none (Statement.marksOf body)

end SourceSurvey.Syntax
