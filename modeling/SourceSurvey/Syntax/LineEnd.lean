import SourceSurvey.Syntax.Module

/-!
Sources that are refused only because a line end is missing: two statements stand on one line with
nothing between them. Such a source is reported without a place. The line end has to be the least
change that mends the source, and it has to stand where an operand is complete.
-/

namespace SourceSurvey.Syntax.LineEnd

/-- Whether the grammar accepts some pieces. -/
def accepts (pieces : List Piece) : Bool := (Module.ofPieces pieces).toOption.isSome

/-- The column of the line that some pieces end in. -/
def lineColumn (before : List Piece) : Nat :=
  match before.reverse.find? fun p => p.layout.breaks with
  | some p => p.layout.column
  | none => 0

/-- The pieces with a line end before one of them. -/
def insertBefore (pieces : List Piece) (k : Nat) : List Piece :=
  let before := pieces.take k
  match pieces.drop k with
  | [] => before
  | p :: rest =>
    before ++
      ⟨{ p.layout with tight := false, breaks := true, column := lineColumn before }, p.token⟩ ::
        rest

/-- The pieces without one of them. A line end before it stays. -/
def remove (pieces : List Piece) (k : Nat) : List Piece :=
  match pieces.drop k with
  | p :: next :: rest =>
    let layout :=
      if next.layout.breaks then next.layout
      else { next.layout with
        breaks := p.layout.breaks, column := p.layout.column, tight := false }
    pieces.take k ++ ⟨layout, next.token⟩ :: rest
  | _ => pieces

/-- Whether the word behind some pieces, the nearest of them first, is an operand of an operator. The
    sign of a decorator, which begins its line, is no operator. -/
def isOperand : List Piece → Bool
  | ⟨layout, .symbol .atSign⟩ :: others => !layout.breaks && !others.isEmpty
  | ⟨_, .symbol s⟩ :: _ => s.isBinary || s == .tilde
  | ⟨_, .word w⟩ :: others =>
    w == Keyword.in_ || w == Keyword.is_ ||
      w == Keyword.not_ && others.head?.any fun p => p.token == .word Keyword.is_
  | _ => false

/-- The words that begin statements which list names. -/
def listsNames (w : Word) : Bool :=
  w == Keyword.import_ || w == Keyword.from_ || w == Keyword.global_ || w == Keyword.nonlocal_

/-- Whether the line that some pieces end in lists names. -/
def inNameList (before : List Piece) : Bool :=
  let line := before.reverse.takeWhile fun p => !p.layout.breaks
  match before.drop (before.length - line.length - 1) with
  | ⟨_, .word w⟩ :: _ => listsNames w
  | _ => false

/-- Whether an operand ends with the last of some pieces. -/
def operandEnds (before : List Piece) : Bool :=
  match before.reverse with
  | ⟨_, .word _⟩ :: others => isOperand others || inNameList before
  | ⟨_, .number⟩ :: _ | ⟨_, .string _⟩ :: _ | ⟨_, .formatEnd⟩ :: _ => true
  | _ => false

/-- The number of tokens from the start of a refused statement on that are looked at. -/
def reach : Nat := 200

/-- The greatest length of a token that is rather dropped. -/
def dropLimit : Nat := 9

/-- Whether dropping a token is the lesser change, and mends the source too. -/
def mendedWithout (lexemes : List Lexeme) (pieces : List Piece) (k : Nat) : Bool :=
  (lexemes[k]?.any fun l => (String.ofList l.text).utf8ByteSize ≤ dropLimit) &&
    accepts (remove pieces k)

/-- Whether a source that is refused at the statement which begins with some token only lacks a line
    end. -/
def isMissing (lexemes : List Lexeme) (pieces : List Piece) (start : Nat) : Bool :=
  let places := (List.range' (start + 1) reach).filter fun k =>
    k < pieces.length && operandEnds (pieces.take k)
  match places.reverse.find? fun k => accepts (insertBefore pieces k) with
  | none => false
  | some k => !mendedWithout lexemes pieces k && !mendedWithout lexemes pieces (k - 1)

end SourceSurvey.Syntax.LineEnd
