import SourceSurvey.Syntax.Expression

/-!
The grammar of types: annotations, type parameters and type aliases. A name directly before a square
bracket takes type arguments there, which are types and not indices.
-/

namespace SourceSurvey.Syntax

open SourceSurvey.Syntax.Parser

/-- Rules for nested types. The flag says whether a colon may add a constraint. -/
abbrev TypeRule := (constrained : Bool) → Follow → Parser Unit

/-- Types in square brackets, from the opening to behind the closing bracket. -/
def typeArguments (inner : TypeRule) : Parser Unit := do
  discard <| advance .operand
  loop (fun () => do
    inner true .bracketed
    match ← next Follow.bracketed.expected with
    | .symbol .rightBracket => do
      discard take
      pure (.inr ())
    | .symbol .comma =>
      if (← advance .element) = .symbol .rightBracket then
        discard take
        pure (.inr ())
      else pure (.inl ())
    | _ => failure) ()

/-- A constraint behind a type, where one is allowed. -/
def typeConstraint (inner : TypeRule) (constrained : Bool) (f : Follow) : Parser Unit := do
  if constrained then
    match ← look f.expected with
    | .token (.symbol .colon) =>
      discard <| advance .operand
      inner true f
    | _ => pure ()

/-- What may stand behind type arguments: members, alternatives and a constraint. -/
def typeSuffix (inner : TypeRule) (constrained : Bool) (f : Follow) : Parser Unit :=
  loop (fun () => do
    match ← look f.expected with
    | .token (.symbol .dot) => do
      discard take
      discard <| expectWord .token
      pure (.inl ())
    | .token (.symbol .bar) => do
      discard <| advance .operand
      inner constrained f
      pure (.inr ())
    | _ => do
      typeConstraint inner constrained f
      pure (.inr ())) ()

/-- Whether a word can take type arguments: not if it is a constant, an operator or one of the words
    that are names only by the leave of the grammar. -/
def takesTypeArguments (w : Word) : Bool :=
  !(Keyword.isConstant w || w == Keyword.not_ || w == Keyword.lambda_ || w == Keyword.await_ ||
    w == Keyword.print_ || w == Keyword.exec_ || w == Keyword.async_ || w == Keyword.match_)

/-- The rule for a type. -/
def typeRule (phrases : Phrases) (inner : TypeRule) : TypeRule := fun constrained f => do
  match ← head with
  | .symbol .doubleStar =>
    discard take
    discard <| expectWord .token
    typeSuffix inner constrained f
  | .word w =>
    let arguments ←
      if takesTypeArguments w then advanceBefore f.expected (.symbol .leftBracket)
      else pure false
    if arguments then
      typeArguments inner
      typeSuffix inner constrained f
    else
      discard <| phrases.expression f
      typeConstraint inner constrained f
  | _ =>
    discard <| phrases.expression f
    typeConstraint inner constrained f

/-- The rules for types that nest at most so deep. -/
def TypeRule.upTo (phrases : Phrases) : Nat → TypeRule
  | 0 => fun _ _ => failure
  | n + 1 => typeRule phrases (TypeRule.upTo phrases n)

end SourceSurvey.Syntax
