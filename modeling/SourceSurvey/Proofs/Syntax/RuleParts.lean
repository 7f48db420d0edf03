import SourceSurvey.Syntax.Module

/-!
Parts of the rules of the grammar, each under a name of its own. What is shown of a rule is shown of
such a part once, wherever the rule comes to it.
-/

namespace SourceSurvey.Syntax

open SourceSurvey.Syntax.Parser

/-- Whether a literal goes on with those read before it, once it has been read itself. -/
def literalsEnd (f : Follow) (parts : List LiteralPart) : Parser (List LiteralPart ⊕ Shape) := do
  match ← look f.expectedOperand with
  | .token t =>
    if t.startsLiteral then pure (.inl parts) else pure (.inr (Shape.literal parts.reverse))
  | _ => pure (.inr (Shape.literal parts.reverse))

/-- What comes behind an operand: an operator with its own operand, or the end of the expression. -/
def operatorEnd (inner : Phrases) (f : Follow) (shape : Shape) : Parser (Shape ⊕ Shape) := do
  match ← look f.expected with
  | .token (.symbol s) =>
    if s.isBinary then
      discard <| advance .operand
      discard <| inner.operand false f
      pure (.inl .other)
    else pure (.inr shape)
  | .token (.word w) =>
    if ← wordOperator inner f w then pure (.inl .other) else pure (.inr shape)
  | _ => pure (.inr shape)

/-- One bound of a slice, which may be left out. -/
def sliceBound (inner : Phrases) : Parser Unit := do
  match ← advance .element with
  | .symbol .rightBracket | .symbol .comma | .symbol .colon => pure ()
  | _ => discard <| inner.expression .bracketed

/-- What comes behind an index: the end or a comma. -/
def indexEnd : Parser (Unit ⊕ Unit) := do
  match ← next Follow.bracketed.expected with
  | .symbol .rightBracket => do
    discard take
    pure (.inr ())
  | .symbol .comma =>
    if (← advance .element) = .symbol .rightBracket then
      discard take
      pure (.inr ())
    else pure (.inl ())
  | _ => failure

/-- What stands behind a star: a primary, which has to be a place unless it may be anything. -/
def starredPrimary (inner : Phrases) (f : Follow) (named : Bool) : Parser Shape := do
  let (shape, member) ← primary inner f
  guard (named || member)
  return if shape.isPlace then .starred shape else .other

/-- The annotation of a parameter, where it may have one. -/
def annotationPhrase (f : Follow) (hint : Option (Parser Unit)) : Parser Bool := do
  match hint with
  | none => pure false
  | some hint =>
    if (← next f.expected) = .symbol .colon then
      discard <| advance .operand
      hint
      pure true
    else pure false

/-- The default of a parameter, where it has one. -/
def defaultPhrase (inner : Phrases) (f : Follow) : Parser Bool := do
  if (← next f.expected) = .symbol .assign then
    discard <| advance .operand
    discard <| inner.expression f
    pure true
  else pure false

/-- A pattern with the names that it binds behind it. -/
def boundPattern (phrases : Phrases) (inner : Patterns) (f : Follow) : Parser Unit := do
  simplePattern phrases inner f
  loop (fun () => do
    match ← look f.expected with
    | .token (.word w) =>
      if w = Keyword.as_ then
        discard take
        discard <| expectWord .token
        pure (.inl ())
      else pure (.inr ())
    | _ => pure (.inr ())) ()

/-- Expressions behind a sign that assigns: the value, or another target. -/
def assignedList (rules : Rules) : Parser ((Bool × Bool) ⊕ Bool) := do
  let (shapes, _) ← lineExpressions rules neverStop
  pure (.inl (Shape.areTargets shapes, true))

/-- What stands behind a sign that assigns. -/
def assignedValue (rules : Rules) : Parser ((Bool × Bool) ⊕ Bool) := do
  match ← advance .operand with
  | .word w =>
    if w = Keyword.yield_ then
      yieldPhrase rules.phrases .line
      pure (.inr true)
    else assignedList rules
  | _ => assignedList rules

/-- The names in which code is run that an `exec` statement has begun with. -/
def execEnd (rules : Rules) (start : Nat) : Parser Statement := do
  match ← look .operandOrLineEnd with
  | .token (.word w) =>
    if w = Keyword.in_ then
      discard <| advance .operand
      strictExpressions rules
  | _ => pure ()
  return .legacy start .exec

/-- The dots before a module, and the module. -/
def dottedOrigin : Parser ImportOrigin :=
  loop (fun () => do
    match ← advance .token with
    | .symbol .dot | .symbol .ellipsis => pure (.inl ())
    | .word w =>
      if w = Keyword.import_ then pure (.inr (ImportOrigin.relative []))
      else pure (.inr (.relative (← dottedName .inner)))
    | _ => failure) ()

end SourceSurvey.Syntax
