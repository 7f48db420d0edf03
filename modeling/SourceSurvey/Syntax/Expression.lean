import SourceSurvey.Syntax.Parameter
import SourceSurvey.Syntax.Parser
import SourceSurvey.Syntax.Shape

/-!
The grammar of expressions. Each rule starts on the first token of its phrase and ends behind the
last. Rules for nested phrases are handed in, so that no rule calls itself; the knot is tied once, at
the end, to the depth that a source of the given length can have.
-/

namespace SourceSurvey.Syntax

open SourceSurvey.Syntax.Parser

/-- What may come after an expression. -/
structure Follow where
  /-- The end of a logical line. -/
  lineEnd : Bool := false
  /-- A closing bracket. -/
  closer : Bool := false
  /-- A conditional may go on with the expression; otherwise an `if` belongs to what follows. -/
  conditional : Bool := true
  /-- The same for the body of a lambda at the end of the expression. -/
  lambdaConditional : Bool := true

/-- What is expected behind a complete operand. -/
def Follow.expected (f : Follow) : Expected := { lineEnd := f.lineEnd, closer := f.closer }

/-- What is expected where an operand may start or the expression may have ended. -/
def Follow.expectedOperand (f : Follow) : Expected := { f.expected with literal := true }

/-- Inside a logical line, at no place where it or a bracket could end. -/
def Follow.inner : Follow := {}

/-- Inside a bracket that may close next. -/
def Follow.bracketed : Follow := { closer := true }

/-- Up to the end of a simple statement. -/
def Follow.line : Follow := { lineEnd := true }

/-- The source of a comprehension, which an `if` ends. -/
def Follow.source : Follow :=
  { closer := true, conditional := false, lambdaConditional := false }

/-- The condition of a comprehension, which another `if` ends. -/
def Follow.condition : Follow := { closer := true, conditional := false }

/-- Where an element of a bracket or the closing bracket is expected. -/
def Expected.element : Expected := { closer := true, literal := true }

/-- The rules that phrases nest in. -/
structure Phrases where
  expression : Follow → Parser Shape
  /-- One operand. A whole operand may also be a negation, a lambda or a named value; one beside a
      binary operator may not. -/
  operand : (whole : Bool) → Follow → Parser Shape
  /-- Interpolated code, from behind its opening brace to behind its closing brace. -/
  hole : Parser Unit

/-- Expressions separated by commas, perhaps with a comma at the end. Gives their shapes and whether
    any comma was there. A token that `stop` holds of does not begin another expression. -/
def expressionList (inner : Phrases) (f : Follow) (stop : Token → Bool) :
    Parser (List Shape × Bool) := do
  let first ← inner.expression f
  loop (fun (shapes, comma) => do
    match ← look f.expected with
    | .token (.symbol .comma) =>
      match ← advanceLook f.expectedOperand with
      | .token t =>
        if t.startsExpression && !stop t then
          let shape ← inner.expression f
          pure (.inl (shape :: shapes, true))
        else pure (.inr ((shapes.reverse, true)))
      | _ => pure (.inr (shapes.reverse, true))
    | _ => pure (.inr (shapes.reverse, comma))) ([first], false)

/-- No token stops a list of expressions. -/
def neverStop (_ : Token) : Bool := false

/-- A `yield` with what it yields. -/
def yieldPhrase (inner : Phrases) (f : Follow) : Parser Unit := do
  match ← advanceLook f.expectedOperand with
  | .token (.word w) =>
    if w = Keyword.from_ then
      discard <| advance .operand
      discard <| inner.expression f
    else discard <| expressionList inner f neverStop
  | .token t => if t.startsExpression then discard <| expressionList inner f neverStop
  | _ => pure ()

/-- A literal with interpolations. -/
def formatLiteral (inner : Phrases) : Parser Unit :=
  interpolated <| loop (fun () => do
    match ← head with
    | .holeOpen => do
      discard take
      inner.hole
      pure (.inl ())
    | .formatEnd => pure (.inr ())
    | _ => failure) ()

/-- Interpolated code: an expression list, then perhaps an equals sign, a conversion and a format,
    which may interpolate code in turn. -/
def holeRule (inner : Phrases) : Parser Unit := do
  match ← next .operand with
  | .word w =>
    if w = Keyword.yield_ then yieldPhrase inner .bracketed
    else discard <| expressionList inner .bracketed neverStop
  | _ => discard <| expressionList inner .bracketed neverStop
  let closing := Follow.bracketed.expected
  let afterValue ← next closing
  let afterSign ← if afterValue = .symbol .assign then advance closing else pure afterValue
  let afterConversion ← if afterSign = .conversion then advance closing else pure afterSign
  if afterConversion = .formatColon then
    discard take
    loop (fun () => do
      match ← take with
      | .holeOpen => do
        inner.hole
        pure (.inl ())
      | .holeClose => pure (.inr ())
      | _ => failure) ()
  else expect closing .holeClose

/-- String literals side by side. -/
def literals (inner : Phrases) (f : Follow) : Parser Shape :=
  loop (fun parts => do
    let index ← position
    let part ← match ← head with
      | .string _ => do
        discard take
        pure (LiteralPart.plain index)
      | .formatStart => do
        formatLiteral inner
        pure LiteralPart.formatted
      | _ => failure
    match ← look f.expectedOperand with
    | .token t =>
      if t.startsLiteral then pure (.inl (part :: parts))
      else pure (.inr (Shape.literal (part :: parts).reverse))
    | _ => pure (.inr (Shape.literal (part :: parts).reverse))) []

/-- Targets of an assignment, separated by commas, up to an `in`. -/
def targets (inner : Phrases) : Parser Unit :=
  loop (fun () => do
    let shape ← inner.operand false .inner
    guard shape.isTarget
    match ← next .token with
    | .symbol .comma =>
      if (← advance .operand) = .word Keyword.in_ then pure (.inr ()) else pure (.inl ())
    | _ => pure (.inr ())) ()

/-- A `for` of a comprehension. -/
def forClause (inner : Phrases) : Parser Unit := do
  discard <| advance .operand
  targets inner
  expect .token (.word Keyword.in_)
  discard <| next .operand
  discard <| expressionList inner .source fun t =>
    t = .word Keyword.for_ || t = .word Keyword.if_ || t = .word Keyword.async_

/-- Whether a token begins the clauses of a comprehension. -/
def Token.startsClauses (t : Token) : Bool := t = .word Keyword.for_ || t = .word Keyword.async_

/-- The clauses of a comprehension, up to the closing bracket. -/
def clauses (inner : Phrases) : Parser Unit :=
  loop (fun () => do
    match ← next Follow.bracketed.expected with
    | .word w =>
      if w = Keyword.async_ then
        if (← advance .token) = .word Keyword.for_ then
          forClause inner
          pure (.inl ())
        else failure
      else if w = Keyword.for_ then
        forClause inner
        pure (.inl ())
      else if w = Keyword.if_ then
        discard <| advance .operand
        discard <| inner.expression .condition
        pure (.inl ())
      else pure (.inr ())
    | _ => pure (.inr ())) ()

/-- An element of a display in brackets. -/
inductive Element
  | value (shape : Shape)
  | starred (shape : Shape)
  | yielded

def Element.shape : Element → Shape
  | .value shape => shape
  | .starred shape => .starred shape
  | .yielded => .other

/-- Reads an element of a display in brackets. A star before the whole element takes any expression;
    as a part of a key or of a comprehension it takes only an operand. -/
def element (inner : Phrases) : Parser Element := do
  match ← head with
  | .symbol .star =>
    let starred ← attempt do
      discard <| advance .operand
      let shape ← inner.expression .bracketed
      let t ← next Follow.bracketed.expected
      return if t.startsClauses || t = .symbol .colon then none else some shape
    match starred with
    | some shape => return .starred shape
    | none => return .value (← inner.expression .bracketed)
  | .word w =>
    if w = Keyword.yield_ then
      yieldPhrase inner .bracketed
      return .yielded
    else return .value (← inner.expression .bracketed)
  | _ => return .value (← inner.expression .bracketed)

/-- The elements behind the first one, to behind the closing bracket. -/
def moreElements (inner : Phrases) (close : Symbol) (first : List Shape) : Parser Shape :=
  loop (fun shapes => do
    match ← next Follow.bracketed.expected with
    | .symbol s =>
      if s = .comma then
        if (← advance .element) = .symbol close then
          discard take
          pure (.inr (.collection shapes.reverse))
        else
          let e ← element inner
          pure (.inl (e.shape :: shapes))
      else if s = close then
        discard take
        pure (.inr (.collection shapes.reverse))
      else failure
    | _ => failure) first

/-- A phrase in parentheses: an empty tuple, a comprehension, a single expression or a tuple. -/
def parenthesised (inner : Phrases) : Parser Shape := do
  if (← advance .element) = .symbol .rightParen then
    discard take
    return .collection []
  let before ← crossesSeam
  let first ← element inner
  match ← next Follow.bracketed.expected with
  | .symbol .rightParen =>
    let after ← crossesSeam
    discard take
    match first with
    | .starred shape => return .collection [.starred shape]
    | e => return .group (before || after) e.shape
  | .symbol .comma => moreElements inner .rightParen [first.shape]
  | t =>
    match first with
    | .value _ =>
      guard t.startsClauses
      clauses inner
      expect Follow.bracketed.expected (.symbol .rightParen)
      return .other
    | _ => failure

/-- A list or a comprehension in square brackets. -/
def bracketed (inner : Phrases) : Parser Shape := do
  if (← advance .element) = .symbol .rightBracket then
    discard take
    return .collection []
  let first ← element inner
  let t ← next Follow.bracketed.expected
  match first with
  | .value shape =>
    if t.startsClauses then
      clauses inner
      expect Follow.bracketed.expected (.symbol .rightBracket)
      return .other
    else moreElements inner .rightBracket [shape]
  | e => moreElements inner .rightBracket [e.shape]

/-- The value behind a key and its colon. -/
def keyedValue (inner : Phrases) : Parser Unit := do
  discard <| advance .operand
  discard <| inner.expression .bracketed

/-- The entries behind the first one of a dictionary, to behind the closing brace. -/
def moreEntries (inner : Phrases) : Parser Unit :=
  loop (fun () => do
    match ← next Follow.bracketed.expected with
    | .symbol .comma =>
      match ← advance .element with
      | .symbol .rightBrace => do
        discard take
        pure (.inr ())
      | .symbol .doubleStar => do
        keyedValue inner
        pure (.inl ())
      | _ => do
        discard <| inner.expression .inner
        guard ((← next .token) = .symbol .colon)
        keyedValue inner
        pure (.inl ())
    | .symbol .rightBrace => do
      discard take
      pure (.inr ())
    | _ => failure) ()

/-- A dictionary, a set or a comprehension in braces. -/
def braced (inner : Phrases) : Parser Unit := do
  match ← advance .element with
  | .symbol .rightBrace => discard take
  | .symbol .comma =>
    discard take
    expect Follow.bracketed.expected (.symbol .rightBrace)
  | .symbol .doubleStar =>
    keyedValue inner
    moreEntries inner
  | _ =>
    let first ← element inner
    let t ← next Follow.bracketed.expected
    match first with
    | .value _ =>
      if t = .symbol .colon then
        keyedValue inner
        if (← next Follow.bracketed.expected).startsClauses then
          clauses inner
          expect Follow.bracketed.expected (.symbol .rightBrace)
        else moreEntries inner
      else if t.startsClauses then
        clauses inner
        expect Follow.bracketed.expected (.symbol .rightBrace)
      else discard <| moreElements inner .rightBrace []
    | _ => discard <| moreElements inner .rightBrace []

/-- Arguments in parentheses, from the opening to behind the closing parenthesis. A comprehension may
    be the only argument where `comprehension` is set. -/
def arguments (inner : Phrases) (comprehension : Bool) : Parser Unit := do
  match ← advance .element with
  | .symbol .rightParen => discard take
  | .symbol .comma =>
    discard take
    expect Follow.bracketed.expected (.symbol .rightParen)
  | _ =>
    loop (fun alone => do
      let clausesAllowed ← match ← head with
        | .symbol .doubleStar => do
          keyedValue inner
          pure false
        | .symbol .star =>
          match ← element inner with
          | .starred _ => pure false
          | _ => pure alone
        | _ => do
          let shape ← inner.expression .bracketed
          if (← next Follow.bracketed.expected) = .symbol .assign then
            match shape with
            | .name => do
              keyedValue inner
              pure false
            | _ => failure
          else pure alone
      let t ← next Follow.bracketed.expected
      match t with
      | .symbol .rightParen => do
        discard take
        pure (.inr ())
      | .symbol .comma =>
        if (← advance .element) = .symbol .rightParen then
          discard take
          pure (.inr ())
        else pure (.inl false)
      | _ => do
        guard (clausesAllowed && t.startsClauses)
        clauses inner
        expect Follow.bracketed.expected (.symbol .rightParen)
        pure (.inr ())) comprehension

/-- The bounds of a slice, from its first colon on. -/
def sliceBounds (inner : Phrases) : Parser Unit := do
  let bound : Parser Unit := do
    match ← advance .element with
    | .symbol .rightBracket | .symbol .comma | .symbol .colon => pure ()
    | _ => discard <| inner.expression .bracketed
  bound
  if (← next Follow.bracketed.expected) = .symbol .colon then bound

/-- The indices of a subscript, from the opening to behind the closing bracket. -/
def subscripts (inner : Phrases) : Parser Unit := do
  discard <| advance .operand
  loop (fun () => do
    if (← head) = .symbol .colon then sliceBounds inner
    else
      discard <| inner.expression .bracketed
      if (← next Follow.bracketed.expected) = .symbol .colon then sliceBounds inner
    match ← next Follow.bracketed.expected with
    | .symbol .rightBracket => do
      discard take
      pure (.inr ())
    | .symbol .comma =>
      if (← advance .element) = .symbol .rightBracket then
        discard take
        pure (.inr ())
      else pure (.inl ())
    | _ => failure) ()

/-- The simplest phrases: names, constants, numbers, literals and displays in brackets. -/
def atom (inner : Phrases) (f : Follow) : Parser Shape := do
  match ← head with
  | .word w =>
    discard take
    return if Keyword.isConstant w then .other else .name
  | .number =>
    discard take
    return .other
  | .string _ | .formatStart => literals inner f
  | .symbol .ellipsis =>
    discard take
    return .other
  | .symbol .leftParen => parenthesised inner
  | .symbol .leftBracket => bracketed inner
  | .symbol .leftBrace =>
    braced inner
    return .other
  | _ => failure

/-- An atom with the attributes, calls and subscripts behind it. Also says whether any attribute or
    subscript is among them. -/
def primary (inner : Phrases) (f : Follow) : Parser (Shape × Bool) := do
  let first ← atom inner f
  loop (fun (shape, member) => do
    match ← look f.expected with
    | .token (.symbol .dot) => do
      discard take
      discard <| expectWord .token
      pure (.inl (Shape.attribute, true))
    | .token (.symbol .leftParen) => do
      arguments inner true
      pure (.inl (.other, member))
    | .token (.symbol .leftBracket) => do
      subscripts inner
      pure (.inl (.subscript, true))
    | _ => pure (.inr (shape, member))) (first, false)

/-- A primary phrase, which a walrus may give a name if it is a whole operand. -/
def namedPrimary (inner : Phrases) (whole : Bool) (f : Follow) : Parser Shape := do
  let (shape, _) ← primary inner f
  match shape with
  | .name =>
    if whole then
      match ← look f.expected with
      | .token (.symbol .walrus) =>
        discard <| advance .operand
        discard <| inner.operand true f
        return .other
      | _ => return .name
    else return .name
  | _ => return shape

/-- A star and its operand: a name, or a phrase with an attribute or a subscript. -/
def starredOperand (inner : Phrases) (f : Follow) : Parser Shape := do
  let named := match ← advance .operand with
    | .word w => !Keyword.isConstant w
    | _ => false
  let (shape, member) ← primary inner f
  guard (named || member)
  return if shape.isPlace then .starred shape else .other

/-- `await`, which is an operator before an operand and a name elsewhere. -/
def awaited (inner : Phrases) (whole : Bool) (f : Follow) : Parser Shape := do
  let asName : Parser Shape := namedPrimary inner whole f
  let asOperator : Parser Shape := do
    discard <| advance .operand
    discard <| inner.operand false f
    return .other
  match ← peek (advanceLook f.expectedOperand) with
  | .token t =>
    match t with
    | .symbol .leftParen | .symbol .leftBracket => asName <|> asOperator
    | .symbol .leftBrace | .symbol .tilde | .symbol .ellipsis => asOperator
    | .number | .string _ | .formatStart => asOperator
    | .word w => if Keyword.isOperator w then asName else asOperator
    | _ => asName
  | _ => asName

/-- A parameter of a function or a lambda. `hint` reads what stands behind a colon; without it
    a colon ends the parameter. -/
def parameter (inner : Phrases) (f : Follow) (hint : Option (Parser Unit)) :
    Parser Parameter := do
  let annotated : Parser Bool := do
    match hint with
    | none => pure false
    | some hint =>
      if (← next f.expected) = .symbol .colon then
        discard <| advance .operand
        hint
        pure true
      else pure false
  let defaulted : Parser Bool := do
    if (← next f.expected) = .symbol .assign then
      discard <| advance .operand
      discard <| inner.expression f
      pure true
    else pure false
  match ← head with
  | .word w =>
    discard take
    let a ← annotated
    let d ← defaulted
    return .named w a d
  | .symbol .leftParen =>
    let shape ← parenthesised inner
    guard shape.isTarget
    return .unpacked (← defaulted)
  | .symbol .star =>
    match ← advance f.expectedOperand with
    | .symbol .comma | .symbol .rightParen | .symbol .colon => return .star
    | _ =>
      let shape ← inner.operand false f
      guard shape.isPlace
      return .starred (← annotated)
  | .symbol .doubleStar =>
    discard <| advance .operand
    let shape ← inner.operand false f
    guard shape.isPlace
    return .doubleStarred (← annotated)
  | .symbol .slash =>
    discard take
    return .slash
  | _ => failure

/-- One parameter behind others, with the comma behind it or up to the closing token. -/
def parameterStep (inner : Phrases) (f : Follow) (hint : Option (Parser Unit)) (close : Symbol)
    (parameters : List Parameter) : Parser (List Parameter ⊕ List Parameter) := do
  let p ← parameter inner f hint
  match ← next f.expected with
  | .symbol s =>
    if s = .comma then
      if (← advance f.expected) = .symbol close then pure (.inr (p :: parameters).reverse)
      else pure (.inl (p :: parameters))
    else if s = close then pure (.inr (p :: parameters).reverse)
    else failure
  | _ => failure

/-- Parameters separated by commas, up to the given closing token. -/
def parameterList (inner : Phrases) (f : Follow) (hint : Option (Parser Unit))
    (close : Symbol) : Parser (List Parameter) := do
  if (← next f.expected) = .symbol close then return []
  loop (parameterStep inner f hint close) []

/-- A lambda. -/
def lambdaPhrase (inner : Phrases) (f : Follow) : Parser Unit := do
  discard take
  discard <| parameterList inner .inner none .colon
  expect .token (.symbol .colon)
  discard <| next .operand
  discard <| inner.expression { f with conditional := f.lambdaConditional }

/-- The rule for an operand. -/
def operandRule (inner : Phrases) (whole : Bool) (f : Follow) : Parser Shape := do
  match ← head with
  | .word w =>
    if whole && w = Keyword.not_ then
      discard <| advance .operand
      discard <| inner.operand true f
      return .other
    else if whole && w = Keyword.lambda_ then
      lambdaPhrase inner f
      return .other
    else if w = Keyword.await_ then awaited inner whole f
    else namedPrimary inner whole f
  | .symbol .plus | .symbol .minus | .symbol .tilde =>
    discard <| advance .operand
    discard <| inner.operand false f
    return .other
  | .symbol .star => starredOperand inner f
  | _ => namedPrimary inner whole f

/-- The operator word at the cursor with what follows it, if it is one. -/
def wordOperator (inner : Phrases) (f : Follow) (w : Word) : Parser Bool := do
  if w = Keyword.and_ || w = Keyword.or_ || w = Keyword.as_ then
    discard <| advance .operand
    discard <| inner.operand true f
    return true
  else if w = Keyword.in_ then
    discard <| advance .operand
    discard <| inner.operand false f
    return true
  else if w = Keyword.not_ then
    guard ((← advance .token) = .word Keyword.in_)
    discard <| advance .operand
    discard <| inner.operand false f
    return true
  else if w = Keyword.is_ then
    if (← advance .operand) = .word Keyword.not_ then discard <| advance .operand
    discard <| inner.operand false f
    return true
  else if w = Keyword.if_ && f.conditional then
    discard <| advance .operand
    discard <| inner.expression .inner
    expect .token (.word Keyword.else_)
    discard <| next .operand
    discard <| inner.operand true f
    return true
  else return false

/-- The rule for an expression: operands joined by operators. Which of them bind closer does not
    matter for what is accepted, nor for the shape. -/
def expressionRule (inner : Phrases) (f : Follow) : Parser Shape := do
  let first ← operandRule inner true f
  loop (fun shape => do
    match ← look f.expected with
    | .token (.symbol s) =>
      if s.isBinary then
        discard <| advance .operand
        discard <| inner.operand false f
        pure (.inl .other)
      else pure (.inr shape)
    | .token (.word w) =>
      if ← wordOperator inner f w then pure (.inl .other) else pure (.inr shape)
    | _ => pure (.inr shape)) first

/-- Nothing nests any deeper. -/
def Phrases.none : Phrases := ⟨fun _ => failure, fun _ _ => failure, failure⟩

/-- The rules for phrases that nest at most so deep. -/
def Phrases.upTo : Nat → Phrases
  | 0 => .none
  | n + 1 =>
    let inner := Phrases.upTo n
    ⟨expressionRule inner, operandRule inner, holeRule inner⟩

end SourceSurvey.Syntax
