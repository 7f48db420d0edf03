import SourceSurvey.Syntax.SimpleStatement

/-!
The grammar of statements with bodies, and of a whole source.
-/

namespace SourceSurvey.Syntax

open SourceSurvey.Syntax.Parser

/-- At the first token of a statement in a block. -/
def statementExpected : Parser Expected := do
  return { (← dedentExpected) with literal := true }

/-- One statement of a block behind others, or the end of the block. -/
def blockStep (statement : Parser (List Statement)) (statements : List (List Statement)) :
    Parser (List (List Statement) ⊕ List Statement) := do
  match ← look { dedent := true, literal := true } with
  | .dedent => pure (.inr statements.reverse.flatten)
  | .token _ => pure (.inl ((← statement) :: statements))
  | _ => failure

/-- The body of a statement or clause, from behind its colon: statements on the same line, a block
    of its own, or nothing. -/
def suite (rules : Rules) (statement : Parser (List Statement)) : Parser (List Statement) := do
  match ← look { lineEnd := true, indent := true, literal := true } with
  | .lineEnd => return []
  | .token _ => statementLine rules
  | .dedent => failure
  | .indent column => inBlock column (loop (blockStep statement) [])

/-- A colon with the body behind it. -/
def colonSuite (rules : Rules) (statement : Parser (List Statement)) : Parser (List Statement) := do
  expect .token (.symbol .colon)
  suite rules statement

/-- A clause that is introduced by the word at the cursor alone. -/
def bareClause (rules : Rules) (statement : Parser (List Statement)) : Parser Statement := do
  let start ← position
  discard take
  return .block start (← colonSuite rules statement)

/-- A clause of the given word, if it comes next. -/
def optionalClause (rules : Rules) (statement : Parser (List Statement)) (e : Expected)
    (w : Word) : Parser (List Statement) := do
  match ← look e with
  | .token t => if t = .word w then return [← bareClause rules statement] else return []
  | _ => return []

/-- A condition behind the word at the cursor, and its body. -/
def conditionSuite (rules : Rules) (statement : Parser (List Statement)) :
    Parser (List Statement) := do
  discard <| advance .operand
  discard <| rules.phrases.expression .inner
  colonSuite rules statement

/-- One more condition of an `if` behind others, or the end of the conditions. -/
def conditionStep (rules : Rules) (statement : Parser (List Statement)) (e : Expected)
    (clauses : List Statement) : Parser (List Statement ⊕ List Statement) := do
  let at_ ← look e
  let here ← position
  match at_ with
  | .token t =>
    if t = .word Keyword.elif_ then
      let body ← conditionSuite rules statement
      pure (.inl (.block here body :: clauses))
    else pure (.inr clauses.reverse)
  | _ => pure (.inr clauses.reverse)

/-- An `if` with its further clauses. -/
def ifStatement (rules : Rules) (statement : Parser (List Statement)) : Parser Statement := do
  let start ← position
  let body ← conditionSuite rules statement
  let e ← statementExpected
  let clauses ← loop (conditionStep rules statement e) []
  let last ← optionalClause rules statement e Keyword.else_
  return .block start (body ++ clauses ++ last)

/-- A `while`. -/
def whileStatement (rules : Rules) (statement : Parser (List Statement)) : Parser Statement := do
  let start ← position
  let body ← conditionSuite rules statement
  let last ← optionalClause rules statement (← statementExpected) Keyword.else_
  return .block start (body ++ last)

/-- The heading of a `for`, up to its colon. -/
def forHeading (rules : Rules) : Parser Unit := do
  discard <| advance .operand
  targets rules.phrases
  expect .token (.word Keyword.in_)
  discard <| next .operand
  discard <| expressionList rules.phrases .inner neverStop

/-- A `for`, which began at the given position. -/
def forStatement (rules : Rules) (statement : Parser (List Statement)) (start : Nat) :
    Parser Statement := do
  forHeading rules
  let body ← colonSuite rules statement
  let last ← optionalClause rules statement (← statementExpected) Keyword.else_
  return .block start (body ++ last)

/-- A `with`, which began at the given position. -/
def withStatement (rules : Rules) (statement : Parser (List Statement)) (start : Nat) :
    Parser Statement := do
  discard <| advance .operand
  discard <| expressionList rules.phrases .inner neverStop
  return .block start (← colonSuite rules statement)

/-- Whether a star follows the word at the cursor without any space. -/
def starFollows : Parser Bool := ask fun c =>
  match c.pieces with
  | _ :: p :: _ => some (p.layout.tight && p.token = .symbol .star)
  | _ => some false

/-- A handler of a `try` up to its colon, from its first word. `group` handlers have a star behind that
    word. -/
def handlerHeading (rules : Rules) (group : Bool) : Parser Unit := do
  if group then discard take
  let t ← advance .operand
  if group || t ≠ .symbol .colon then
    discard <| rules.phrases.expression .inner
    if !group && (← next .token) = .symbol .comma then
      discard <| advance .operand
      discard <| rules.phrases.expression .inner

/-- A handler of a `try`. -/
def handler (rules : Rules) (statement : Parser (List Statement)) (group : Bool) :
    Parser Statement := do
  let start ← position
  handlerHeading rules group
  return .block start (← colonSuite rules statement)

/-- One more handler of a `try` behind others, or the end of the handlers. -/
def handlerStep (rules : Rules) (statement : Parser (List Statement)) (group : Bool) (e : Expected)
    (handlers : List Statement) : Parser (List Statement ⊕ List Statement) := do
  match ← look e with
  | .token t =>
    if t = .word Keyword.except_ && (!group || (← starFollows)) then
      pure (.inl ((← handler rules statement group) :: handlers))
    else pure (.inr handlers.reverse)
  | _ => pure (.inr handlers.reverse)

/-- A `try` with its clauses: handlers of one sort and perhaps an `else`, a `finally`, or both. -/
def tryStatement (rules : Rules) (statement : Parser (List Statement)) : Parser Statement := do
  let start ← position
  discard take
  let body ← colonSuite rules statement
  let first ← next { handler := true }
  if first = .word Keyword.finally_ then
    return .block start (body ++ [← bareClause rules statement])
  guard (first = .word Keyword.except_)
  let group ← starFollows
  let e := { ← statementExpected with handler := true }
  let handlers ← loop (handlerStep rules statement group e) []
  let e ← statementExpected
  let otherwise ← optionalClause rules statement e Keyword.else_
  let last ← optionalClause rules statement e Keyword.finally_
  return .block start (body ++ handlers ++ otherwise ++ last)

/-- Type parameters, if an opening bracket comes next. -/
def typeParameters (rules : Rules) : Parser Unit := do
  if (← next .token) = .symbol .leftBracket then typeArguments rules.types

/-- The heading of a function, up to its colon: its name and its parameters. -/
def functionHeading (rules : Rules) : Parser (Word × List Parameter) := do
  discard take
  let name ← expectWord .token
  typeParameters rules
  expect .token (.symbol .leftParen)
  let parameters ← parameterList rules.phrases .bracketed (some (rules.types true .bracketed))
    .rightParen
  expect Follow.bracketed.expected (.symbol .rightParen)
  if (← next .token) = .symbol .arrow then
    discard <| advance .operand
    rules.types false .inner
  return (name, parameters)

/-- A function, which began at the given position. -/
def functionDefinition (rules : Rules) (statement : Parser (List Statement))
    (decorators : List Nat) (start : Nat) : Parser Statement := do
  let (name, parameters) ← functionHeading rules
  let body ← colonSuite rules statement
  return .definition decorators start (← position) (.function parameters) name body

/-- The heading of a class, up to its colon, with its name. -/
def classHeading (rules : Rules) : Parser Word := do
  discard take
  let name ← expectWord .token
  typeParameters rules
  if (← next .token) = .symbol .leftParen then arguments rules.phrases false
  return name

/-- A class. -/
def classDefinition (rules : Rules) (statement : Parser (List Statement))
    (decorators : List Nat) : Parser Statement := do
  let start ← position
  let name ← classHeading rules
  let body ← colonSuite rules statement
  return .definition decorators start (← position) .classType name body

/-- One more decorator behind others, and what follows on the next line. -/
def decoratorStep (rules : Rules) (decorators : List Nat) : Parser (List Nat ⊕ List Nat) := do
  let here ← position
  discard <| advance .operand
  discard <| rules.phrases.expression .line
  match ← look .lineEnding with
  | .lineEnd =>
    if (← next .token) = .symbol .atSign then pure (.inl (here :: decorators))
    else pure (.inr (here :: decorators).reverse)
  | _ => failure

/-- Decorators, each on a line of its own, and the definition under them. -/
def decorated (rules : Rules) (statement : Parser (List Statement)) : Parser Statement := do
  let decorators ← loop (decoratorStep rules) []
  let start ← position
  match ← head with
  | .word w =>
    if w = Keyword.def_ then functionDefinition rules statement decorators start
    else if w = Keyword.class_ then classDefinition rules statement decorators
    else if w = Keyword.async_ then
      guard ((← advance .token) = .word Keyword.def_)
      functionDefinition rules statement decorators start
    else failure
  | _ => failure

/-- The patterns of a case, up to its condition or its colon. -/
def casePatterns (rules : Rules) : Parser Unit := do
  discard <| advance .operand
  loop (fun () => do
    rules.patterns.whole .inner
    match ← next .token with
    | .symbol .comma =>
      match ← advance .operand with
      | .symbol .colon => pure (.inr ())
      | .word w => if w = Keyword.if_ then pure (.inr ()) else pure (.inl ())
      | _ => pure (.inl ())
    | _ => pure (.inr ())) ()

/-- A case of a `match`. -/
def caseClause (rules : Rules) (statement : Parser (List Statement)) : Parser Statement := do
  let start ← position
  casePatterns rules
  if (← next .token) = .word Keyword.if_ then
    return .block start (← conditionSuite rules statement)
  else return .block start (← colonSuite rules statement)

/-- One more case of a `match` behind others, or the end of the cases. -/
def caseStep (rules : Rules) (statement : Parser (List Statement)) (cases : List Statement) :
    Parser (List Statement ⊕ List Statement) := do
  match ← look { dedent := true } with
  | .dedent => pure (.inr cases.reverse)
  | .token t => do
    guard (t = .word Keyword.case_)
    pure (.inl ((← caseClause rules statement) :: cases))
  | _ => failure

/-- A `match` with its cases. -/
def matchStatement (rules : Rules) (statement : Parser (List Statement)) : Parser Statement := do
  let start ← position
  discard <| advanceToOperand
  discard <| expressionList rules.phrases .inner neverStop
  expect .token (.symbol .colon)
  match ← look { lineEnd := true, indent := true } with
  | .lineEnd => return .block start []
  | .indent column =>
    let cases ← inBlock column (loop (caseStep rules statement) [])
    return .block start cases
  | _ => failure

/-- The rule for the statements that begin at the cursor: one with a body, or those of one line. -/
def statementRule (rules : Rules) (statement : Parser (List Statement)) :
    Parser (List Statement) := do
  let start ← position
  match ← head with
  | .symbol .atSign => return [← decorated rules statement]
  | .word w =>
    if w = Keyword.if_ then return [← ifStatement rules statement]
    else if w = Keyword.while_ then return [← whileStatement rules statement]
    else if w = Keyword.for_ then return [← forStatement rules statement start]
    else if w = Keyword.with_ then return [← withStatement rules statement start]
    else if w = Keyword.try_ then return [← tryStatement rules statement]
    else if w = Keyword.def_ then return [← functionDefinition rules statement [] start]
    else if w = Keyword.class_ then return [← classDefinition rules statement []]
    else if w = Keyword.match_ then
      statementLine rules <|> (do return [← matchStatement rules statement])
    else if w = Keyword.async_ then
      if ← advanceBefore .operandOrLineEnd (.word Keyword.def_) then
        return [← functionDefinition rules statement [] start]
      else if ← advanceBefore .operandOrLineEnd (.word Keyword.for_) then
        return [← forStatement rules statement start]
      else if ← advanceBefore .operandOrLineEnd (.word Keyword.with_) then
        return [← withStatement rules statement start]
      else statementLine rules
    else statementLine rules
  | _ => statementLine rules

/-- The rules for statements that nest at most so deep. -/
def statementUpTo (rules : Rules) : Nat → Parser (List Statement)
  | 0 => failure
  | n + 1 => statementRule rules (statementUpTo rules n)

/-- Reads statements to the end of the source. Where that is not possible, gives the position of the
    outermost statement that it failed in. -/
def Module.readAll (statement : Parser (List Statement)) :
    Nat → Cursor → Except Nat (List (List Statement))
  | 0, c => .error c.index
  | n + 1, c =>
    match (look .operand).read c with
    | some (.token .finish, _) => .ok []
    | some (.token _, c) =>
      match statement.read c with
      | some (found, c') => (Module.readAll statement n c').map (found :: ·)
      | none => .error c.index
    | _ => .error c.index

/-- Reads a source from its pieces. -/
def Module.ofPieces (pieces : List Piece) : Except Nat Module :=
  let start := Cursor.start pieces
  let rules := Rules.upTo start.budget
  let first : Parser Bool := do
    discard <| look .operand
    crossesSeam
  let spliced := match first.read start with
    | some (spliced, _) => spliced
    | none => false
  (Module.readAll (statementUpTo rules start.budget) start.budget start).map fun found =>
    ⟨spliced, found.flatten⟩

end SourceSurvey.Syntax
