import SourceSurvey.Text.IdentChar
import SourceSurvey.Syntax.Keyword
import SourceSurvey.Syntax.Layout
import SourceSurvey.Syntax.Quotation

/-!
Cutting a source into lexemes. Every recogniser gives the number of characters it takes, so by
construction the gaps and the texts of the lexemes, one after the other, are the source.
-/

namespace SourceSurvey.Syntax

/-- A token with its text and the blanks before it. -/
structure Lexeme where
  gap : List Char
  text : List Char
  token : Token

/-- The place of a token in an interpolated expression, outside all brackets: at its start, directly
    after a name at its start, or further on. -/
inductive Spot
  | fresh | name | inner
  deriving DecidableEq

/-- What is being read inside a literal with interpolations, innermost first. -/
inductive Frame
  /-- The text of the literal. -/
  | text (quotation : Quotation)
  /-- Interpolated code, with the number of brackets and of lambdas that are open in it. -/
  | hole (depth lambdas : Nat) (spot : Spot)
  /-- The format of an interpolated value. -/
  | format

/-- Whether the character separates tokens. -/
def isSeparator (c : Char) : Bool :=
  c == ' ' || c == '\t' || c == '\n' || c == '\x0b' || c == '\x0c' || c == '\r' ||
    c == '\ufeff' || c == '\u2060' || c == '\u200b'

/-- The length of the blanks that a text begins with. A backslash joins the line it ends with the
    next one; at the end of the source it may stand alone. -/
def gapLength : List Char → Nat
  | [] => 0
  | '\\' :: '\n' :: rest => gapLength rest + 2
  | '\\' :: '\r' :: '\n' :: rest => gapLength rest + 3
  | ['\\'] => 1
  | c :: rest => if isSeparator c then gapLength rest + 1 else 0

/-- What was recognised: a token, the number of characters it has after its first, and what is
    being read after it. -/
structure Recognised where
  token : Token
  more : Nat
  frames : List Frame

/-- Whether a character goes on with a comment. -/
def isCommentChar (c : Char) : Bool := c != '\n' && c != '\x00'

/-- The token of code that begins with the given character. -/
def recogniseCode (frames : List Frame) (c : Char) (rest : List Char) : Recognised :=
  match Quotation.ofText? (c :: rest) with
  | some (q, opening) =>
    if q.format then ⟨.formatStart, opening - 1, .text q :: frames⟩
    else
      match q.stretch false ((c :: rest).drop opening) with
      | some (.closed, n) => ⟨.string (isQuotationMark c), opening - 1 + n, frames⟩
      | _ => ⟨.invalid, rest.length, []⟩
  | none =>
    if Text.isIdentStart c then
      let tail := rest.takeWhile Text.isIdentContinue
      ⟨.word (c :: tail), tail.length, frames⟩
    else if c.isDigit || (c == '.' && (rest.headD ' ').isDigit) then
      ⟨.number, numberLength (c :: rest) - 1, frames⟩
    else if c == '#' then
      let tail := rest.takeWhile isCommentChar
      ⟨.comment, tail.length, frames⟩
    else
      match Symbol.ofText? (c :: rest) with
      | some (s, n) => ⟨.symbol s, n - 1, frames⟩
      | none => ⟨.invalid, rest.length, []⟩

/-- The spot after a token of interpolated code that stands outside all brackets. -/
def Spot.after (spot : Spot) : Token → Spot
  | .word w =>
    if Keyword.isOperator w || w == Keyword.yield_ || w == Keyword.from_ then .fresh
    else if spot = .fresh && w != Keyword.lambda_ then .name else .inner
  | .symbol .comma => .fresh
  | _ => .inner

/-- The frame of interpolated code behind a token. -/
def holeAfter (depth lambdas : Nat) (spot : Spot) (t : Token) : Frame :=
  let depth' := match t with
    | .symbol .leftParen | .symbol .leftBracket | .symbol .leftBrace => depth + 1
    | .symbol .rightParen | .symbol .rightBracket | .symbol .rightBrace => depth - 1
    | _ => depth
  let lambdas' :=
    if depth = 0 && spot = .fresh && t = .word Keyword.lambda_ then lambdas + 1 else lambdas
  .hole depth' lambdas' (if depth = 0 then spot.after t else .inner)

/-- The token of interpolated code that begins with the given character. Outside all brackets a
    colon ends the expression, unless it belongs to a lambda or, directly after a name that begins
    the expression, to a walrus. -/
def recogniseHole (depth lambdas : Nat) (spot : Spot) (outer : List Frame) (c : Char)
    (rest : List Char) : Recognised :=
  if depth = 0 && c == '\x7d' then ⟨.holeClose, 0, outer⟩
  else if depth = 0 && c == '!' && (rest.headD ' ').isLower then
    ⟨.conversion, 1, .hole depth lambdas .inner :: outer⟩
  else if depth = 0 && c == ':' then
    if 0 < lambdas then ⟨.symbol .colon, 0, .hole depth (lambdas - 1) .fresh :: outer⟩
    else if spot = .name && rest.head? = some '=' then
      ⟨.symbol .walrus, 1, .hole depth lambdas .fresh :: outer⟩
    else ⟨.formatColon, 0, .format :: outer⟩
  else
    let r := recogniseCode [] c rest
    { r with frames := r.frames ++ holeAfter depth lambdas spot r.token :: outer }

/-- Whether a character goes on with the format of an interpolated value. -/
def isFormatChar (c : Char) : Bool := c != '\x7b' && c != '\x7d' && c != '\x00'

/-- The token that begins with the given character, whatever is being read. -/
def recognise (frames : List Frame) (c : Char) (rest : List Char) : Recognised :=
  match frames with
  | [] => recogniseCode [] c rest
  | .hole depth lambdas spot :: outer => recogniseHole depth lambdas spot outer c rest
  | .text q :: outer =>
    match q.stretch false (c :: rest) with
    | some (.closed, n) => ⟨.formatEnd, n - 1, outer⟩
    | some (.hole, n) => ⟨.holeOpen, n - 1, .hole 0 0 .fresh :: frames⟩
    | none => ⟨.invalid, rest.length, []⟩
  | .format :: outer =>
    let tail := (c :: rest).takeWhile isFormatChar
    match ((c :: rest).drop tail.length).head? with
    | some '\x7b' => ⟨.holeOpen, tail.length, .hole 0 0 .fresh :: frames⟩
    | some '\x7d' => ⟨.holeClose, tail.length, outer⟩
    | _ => ⟨.invalid, rest.length, []⟩

/-- The length of the blanks before the next token: none inside the text of a literal. -/
def gapLengthIn (frames : List Frame) (text : List Char) : Nat :=
  match frames with
  | .text _ :: _ | .format :: _ => 0
  | _ => gapLength text

/-- Cuts a source into lexemes, the last of which is its end. -/
def lexemesFrom (frames : List Frame) (source : List Char) : List Lexeme :=
  let gap := gapLengthIn frames source
  match _hrest : source.drop gap with
  | [] => [⟨source, [], .finish⟩]
  | c :: rest =>
    let r := recognise frames c rest
    ⟨source.take gap, c :: rest.take r.more, r.token⟩ :: lexemesFrom r.frames (rest.drop r.more)
termination_by source.length
decreasing_by
  have hlen := congrArg List.length _hrest
  simp only [List.length_drop, List.length_cons] at hlen ⊢
  omega

/-- The lexemes of a whole source. -/
def lexemes (source : List Char) : List Lexeme := lexemesFrom [] source

/-- The text that a list of lexemes was cut from. -/
def Lexeme.joined (list : List Lexeme) : List Char := list.flatMap fun l => l.gap ++ l.text

theorem Lexeme.joined_append (first second : List Lexeme) :
    Lexeme.joined (first ++ second) = Lexeme.joined first ++ Lexeme.joined second :=
  List.flatMap_append

/-- Nothing of a source is lost or added when it is cut into lexemes. -/
theorem joined_lexemesFrom (frames : List Frame) (source : List Char) :
    Lexeme.joined (lexemesFrom frames source) = source := by
  fun_induction lexemesFrom frames source with
  | case1 frames source gap h => simp [Lexeme.joined]
  | case2 frames source gap c rest h r ih =>
    have hsplit : source = source.take gap ++ c :: rest := by
      rw [← h, List.take_append_drop]
    simp only [Lexeme.joined, List.flatMap_cons, List.append_assoc] at ih ⊢
    rw [ih, List.cons_append, List.take_append_drop]
    exact hsplit.symm

end SourceSurvey.Syntax
