/-!
What an expression looks like from outside: whether it can stand where a value is assigned, and
whether it is made of string literals alone.
-/

namespace SourceSurvey.Syntax

/-- One of several string literals side by side. -/
inductive LiteralPart
  /-- A literal without interpolation, by the index of its token. -/
  | plain (index : Nat)
  /-- A literal with interpolation. -/
  | formatted
  deriving DecidableEq

/-- The outer form of an expression. -/
inductive Shape
  | name
  | attribute
  | subscript
  /-- String literals side by side. -/
  | literal (parts : List LiteralPart)
  /-- An expression in parentheses. Where a joined line stands on its own between a parenthesis and the
      expression, `spliced` is set. A literal takes the joined lines directly before it along. -/
  | group (spliced : Bool) (inside : Shape)
  /-- A tuple in parentheses or a list. -/
  | collection (elements : List Shape)
  | starred (operand : Shape)
  | other

/-- Names, attributes and subscripts: what may stand behind a star in a target. -/
def Shape.isPlace : Shape → Bool
  | .name | .attribute | .subscript => true
  | _ => false

mutual

/-- Whether a value can be assigned to an expression of this shape. -/
def Shape.isTarget : Shape → Bool
  | .name | .attribute | .subscript => true
  | .group _ inside => inside.isTarget
  | .collection elements => Shape.areTargets elements
  | .starred operand => operand.isPlace
  | .literal _ | .other => false

/-- Whether a value can be assigned to each of several expressions. -/
def Shape.areTargets : List Shape → Bool
  | [] => true
  | shape :: rest => shape.isTarget && Shape.areTargets rest

end

end SourceSurvey.Syntax
