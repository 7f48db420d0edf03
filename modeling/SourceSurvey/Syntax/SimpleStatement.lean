import SourceSurvey.Syntax.CasePattern
import SourceSurvey.Syntax.Statement
import SourceSurvey.Syntax.TypeHint

/-!
The grammar of statements that fit on one logical line.
-/

namespace SourceSurvey.Syntax

open SourceSurvey.Syntax.Parser

/-- The rules that statements are built from. -/
structure Rules where
  phrases : Phrases
  types : TypeRule
  patterns : Patterns

/-- The rules that cover a source of the given length. -/
def Rules.upTo (depth : Nat) : Rules :=
  let phrases := Phrases.upTo depth
  ⟨phrases, TypeRule.upTo phrases depth, Patterns.upTo phrases depth⟩

/-- At the end of a simple statement. -/
def Expected.lineEnding : Expected := { lineEnd := true }

/-- Where a simple statement may end or an expression may start. -/
def Expected.operandOrLineEnd : Expected := { lineEnd := true, literal := true }

/-- A list of expressions up to the end of a statement or the given word. -/
def lineExpressions (rules : Rules) (stop : Token → Bool) : Parser (List Shape × Bool) :=
  expressionList rules.phrases .line stop

/-- Whether an equals sign or an augmented assignment stands next. -/
def Look.assigns : Look → Bool
  | .token (.symbol s) => s = .assign || s.isAugmented
  | _ => false

/-- Assignments and annotations behind a target, until there is none. Gives whether there was any.
    Each side but the last has to be a target. -/
def assignmentTail (rules : Rules) (target : Bool) : Parser Bool :=
  loop (fun (target, assigned) => do
    let l ← look .lineEnding
    let value : Parser ((Bool × Bool) ⊕ Bool) := do
      match ← advance .operand with
      | .word w =>
        if w = Keyword.yield_ then
          yieldPhrase rules.phrases .line
          pure (.inr true)
        else
          let (shapes, _) ← lineExpressions rules neverStop
          pure (.inl (Shape.areTargets shapes, true))
      | _ =>
        let (shapes, _) ← lineExpressions rules neverStop
        pure (.inl (Shape.areTargets shapes, true))
    if l.assigns then
      guard target
      value
    else
      match l with
      | .token (.symbol .colon) =>
        guard target
        discard <| advance .operand
        rules.types true .line
        match ← look .lineEnding with
        | .token (.symbol .assign) => value
        | _ => pure (.inr true)
      | _ => pure (.inr assigned)) (target, false)

/-- An expression by itself, a tuple without parentheses, an assignment or a `yield`. -/
def expressionStatement (rules : Rules) : Parser Statement := do
  let start ← position
  if (← head) = .word Keyword.yield_ then
    yieldPhrase rules.phrases .line
    return .plain start
  let (shapes, comma) ← lineExpressions rules neverStop
  let assigned ← assignmentTail rules (Shape.areTargets shapes)
  match shapes with
  | [shape] => return if comma || assigned then .plain start else .expression start shape
  | _ => return .plain start

/-- Succeeds at the end of a simple statement only. -/
def atStatementEnd : Parser Unit := do
  match ← look .lineEnding with
  | .lineEnd => pure ()
  | .token t => guard (t = .symbol .semicolon)
  | _ => failure

/-- A whole simple statement, read as an expression if that is possible. -/
def expressionOr (rules : Rules) (other : Parser Statement) : Parser Statement :=
  (do
    let s ← expressionStatement rules
    atStatementEnd
    pure s) <|> other

/-- Expressions behind a keyword, separated by commas, perhaps with a comma at the end. -/
def keywordExpressions (rules : Rules) : Parser Unit := do
  discard <| advance .operand
  discard <| lineExpressions rules neverStop

/-- Expressions separated by commas, with none at the end. -/
def strictExpressions (rules : Rules) : Parser Unit :=
  loop (fun () => do
    discard <| rules.phrases.expression .line
    match ← look .lineEnding with
    | .token (.symbol .comma) => do
      discard <| advance .operand
      pure (.inl ())
    | _ => pure (.inr ())) ()

/-- Passes a word that begins a statement only where what follows is no part of an expression, and
    settles on the operand behind it. -/
def advanceToOperand : Parser Token := do
  match ← advance .operand with
  | .word w =>
    guard (!Keyword.isInfix w)
    return .word w
  | t => return t

/-- The older `print`, with or without a stream to print to. -/
def printStatement (rules : Rules) : Parser Statement := do
  let start ← position
  if (← advanceToOperand) = .symbol .shiftRight then discard <| advance .operand
  discard <| lineExpressions rules neverStop
  return .legacy start .print

/-- The older `exec`, of a literal or a name. -/
def execStatement (rules : Rules) : Parser Statement := do
  let start ← position
  match ← advanceToOperand with
  | .word w =>
    guard (w != Keyword.not_)
    discard take
  | .string _ => discard take
  | .formatStart => formatLiteral rules.phrases
  | _ => failure
  match ← look .operandOrLineEnd with
  | .token (.word w) =>
    if w = Keyword.in_ then
      discard <| advance .operand
      strictExpressions rules
  | _ => pure ()
  return .legacy start .exec

/-- A type alias. -/
def aliasStatement (rules : Rules) : Parser Statement := do
  let start ← position
  discard <| advanceToOperand
  rules.types true .inner
  expect .token (.symbol .assign)
  discard <| next .operand
  rules.types true .line
  return .plain start

/-- A name with dots, which begins with the word at the cursor. -/
def dottedName (f : Follow) : Parser DottedName := do
  match ← take with
  | .word first => return first :: (← dottedRest f)
  | _ => failure

/-- The word behind an `as`, if there is one. -/
def importAlias (f : Follow) : Parser (Option Word) := do
  match ← look f.expected with
  | .token (.word w) =>
    if w = Keyword.as_ then
      discard take
      return some (← expectWord .token)
    else return none
  | _ => return none

/-- Imported names separated by commas, perhaps with a comma at the end; the first of them is at the
    cursor. -/
def importedNames (f : Follow) : Parser (List ImportedName) :=
  loop (fun names => do
    let path ← dottedName f
    let name := ⟨path, ← importAlias f⟩
    match ← look f.expected with
    | .token (.symbol .comma) =>
      match ← advanceLook f.expected with
      | .token (.word _) => pure (.inl (name :: names))
      | _ => pure (.inr (name :: names).reverse)
    | _ => pure (.inr (name :: names).reverse)) []

/-- The names behind `import` in an import from a module, perhaps in parentheses. -/
def importedFrom : Parser (List ImportedName) := do
  if (← next .token) = .symbol .leftParen then
    discard <| advance .token
    let names ← importedNames .bracketed
    expect Follow.bracketed.expected (.symbol .rightParen)
    return names
  else importedNames .line

/-- The module that names are imported from, up to the word `import`. -/
def importOrigin : Parser ImportOrigin := do
  match ← advance .token with
  | .word w =>
    if w = Keyword.future_ then
      discard take
      return .future
    else return .absolute (← dottedName .inner)
  | .symbol .dot | .symbol .ellipsis =>
    loop (fun () => do
      match ← advance .token with
      | .symbol .dot | .symbol .ellipsis => pure (.inl ())
      | .word w =>
        if w = Keyword.import_ then pure (.inr (ImportOrigin.relative []))
        else pure (.inr (.relative (← dottedName .inner)))
      | _ => failure) ()
  | _ => failure

/-- An import of some or all names of a module. -/
def importFromStatement : Parser Statement := do
  let start ← position
  let origin ← importOrigin
  expect .token (.word Keyword.import_)
  if (← next .token) = .symbol .star && origin ≠ .future then
    discard take
    return .importing start (.everything origin)
  else return .importing start (.names origin (← importedFrom))

/-- Words separated by commas. -/
def wordList : Parser Unit :=
  loop (fun () => do
    discard <| expectWord .token
    match ← look .lineEnding with
    | .token (.symbol .comma) => do
      discard take
      pure (.inl ())
    | _ => pure (.inr ())) ()

/-- A `raise` with its exceptions and their cause. -/
def raiseStatement (rules : Rules) : Parser Unit := do
  let cause : Parser Unit := do
    discard <| advance .operand
    discard <| rules.phrases.expression .line
  match ← advanceLook .operandOrLineEnd with
  | .token t =>
    if t = .word Keyword.from_ then cause
    else if t.startsExpression then
      discard <| lineExpressions rules fun t => t = .word Keyword.from_
      match ← look .lineEnding with
      | .token t => if t = .word Keyword.from_ then cause
      | _ => pure ()
  | _ => pure ()

/-- A statement that fits on one logical line. -/
def simpleStatement (rules : Rules) : Parser Statement := do
  let start ← position
  match ← head with
  | .word w =>
    if w = Keyword.import_ then
      discard <| advance .token
      return .importing start (.modules (← importedNames .line))
    else if w = Keyword.from_ then importFromStatement
    else if w = Keyword.pass_ || w = Keyword.break_ || w = Keyword.continue_ then
      discard take
      return .plain start
    else if w = Keyword.return_ then
      match ← advanceLook .operandOrLineEnd with
      | .token t => if t.startsExpression then discard <| lineExpressions rules neverStop
      | _ => pure ()
      return .plain start
    else if w = Keyword.del_ then
      keywordExpressions rules
      return .plain start
    else if w = Keyword.assert_ then
      discard <| advance .operand
      strictExpressions rules
      return .plain start
    else if w = Keyword.raise_ then
      raiseStatement rules
      return .plain start
    else if w = Keyword.global_ || w = Keyword.nonlocal_ then
      discard take
      wordList
      return .plain start
    else if w = Keyword.print_ then
      let printing := printStatement rules
      match ← peek (advanceLook .operandOrLineEnd) with
      | .token (.symbol .shiftRight) => printing
      | _ => expressionOr rules printing
    else if w = Keyword.exec_ then expressionOr rules (execStatement rules)
    else if w = Keyword.type_ then expressionOr rules (aliasStatement rules)
    else expressionStatement rules
  | _ => expressionStatement rules

/-- Simple statements separated by semicolons, up to the end of their line. -/
def statementLine (rules : Rules) : Parser (List Statement) :=
  loop (fun statements => do
    let s ← simpleStatement rules
    match ← look .lineEnding with
    | .lineEnd => pure (.inr (s :: statements).reverse)
    | .token (.symbol .semicolon) =>
      match ← advanceLook .operandOrLineEnd with
      | .lineEnd => pure (.inr (s :: statements).reverse)
      | _ => pure (.inl (s :: statements))
    | _ => failure) []

end SourceSurvey.Syntax
