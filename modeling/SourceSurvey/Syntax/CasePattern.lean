import SourceSurvey.Syntax.Expression

/-!
The grammar of the patterns of a `case`.
-/

namespace SourceSurvey.Syntax

open SourceSurvey.Syntax.Parser

/-- Patterns separated by commas, perhaps with a comma at the end, from the opening bracket to behind
    the closing one. -/
def patternList (entry : Parser Unit) (close : Symbol) : Parser Unit := do
  if (← advance .element) = .symbol close then discard take
  else
    loop (fun () => do
      entry
      match ← next Follow.bracketed.expected with
      | .symbol s =>
        if s = .comma then
          if (← advance .element) = .symbol close then
            discard take
            pure (.inr ())
          else pure (.inl ())
        else if s = close then
          discard take
          pure (.inr ())
        else failure
      | _ => failure) ()

/-- The number at the cursor, perhaps with an imaginary part. -/
def numberPattern (f : Follow) : Parser Unit := do
  guard ((← take) = .number)
  match ← look f.expected with
  | .token (.symbol .plus) | .token (.symbol .minus) =>
    discard take
    expect .token .number
  | _ => pure ()

/-- The names behind the first one of a dotted name. -/
def dottedRest (f : Follow) : Parser (List Word) :=
  loop (fun names => do
    match ← look f.expected with
    | .token (.symbol .dot) => do
      discard take
      let w ← expectWord .token
      pure (.inl (w :: names))
    | _ => pure (.inr names.reverse)) []

/-- The pattern that covers everything. -/
def wildcard : Word := ['_']

/-- Whether a word at the start of a pattern is a name, which may be dotted or take arguments. -/
def isPatternName (w : Word) : Bool := !Keyword.isConstant w && w != wildcard

/-- The rules for nested patterns: a whole pattern, and one without a name for the matched value. -/
structure Patterns where
  whole : Follow → Parser Unit
  simple : Follow → Parser Unit

/-- A pattern that is no alternative of others. -/
def patternAtom (phrases : Phrases) (inner : Patterns) (f : Follow) : Parser Unit := do
  match ← head with
  | .string _ | .formatStart => discard <| literals phrases f
  | .number => numberPattern f
  | .symbol .minus =>
    discard <| advance .token
    numberPattern f
  | .symbol .star | .symbol .doubleStar =>
    discard take
    discard <| expectWord .token
  | .symbol .leftParen => patternList (inner.whole .bracketed) .rightParen
  | .symbol .leftBracket => patternList (inner.whole .bracketed) .rightBracket
  | .symbol .leftBrace =>
    patternList (do
      match ← head with
      | .symbol .star | .symbol .doubleStar =>
        discard take
        discard <| expectWord .token
      | _ =>
        inner.simple .inner
        guard ((← next .token) = .symbol .colon)
        discard <| advance .operand
        inner.whole .bracketed) .rightBrace
  | .word w =>
    discard take
    if isPatternName w then
      discard <| dottedRest f
      match ← look f.expected with
      | .token (.symbol .leftParen) => patternList (inner.whole .bracketed) .rightParen
      | _ => pure ()
  | _ => failure

/-- Alternatives separated by bars. -/
def simplePattern (phrases : Phrases) (inner : Patterns) (f : Follow) : Parser Unit :=
  loop (fun () => do
    patternAtom phrases inner f
    match ← look f.expected with
    | .token (.symbol .bar) => do
      discard <| advance .operand
      pure (.inl ())
    | _ => pure (.inr ())) ()

/-- A pattern, perhaps for a keyword, and the names given to the matched value. -/
def wholePattern (phrases : Phrases) (inner : Patterns) (f : Follow) : Parser Unit := do
  match ← head with
  | .word w =>
    if ← advanceBefore f.expected (.symbol .assign) then
      guard (isPatternName w)
      discard <| advance .operand
  | _ => pure ()
  simplePattern phrases inner f
  loop (fun () => do
    match ← look f.expected with
    | .token (.word w) =>
      if w = Keyword.as_ then
        discard take
        discard <| expectWord .token
        pure (.inl ())
      else pure (.inr ())
    | _ => pure (.inr ())) ()

/-- The rules for patterns that nest at most so deep. -/
def Patterns.upTo (phrases : Phrases) : Nat → Patterns
  | 0 => ⟨fun _ => failure, fun _ => failure⟩
  | n + 1 =>
    let inner := Patterns.upTo phrases n
    ⟨wholePattern phrases inner, simplePattern phrases inner⟩

end SourceSurvey.Syntax
