/-!
Tokens of an indentation-structured source. A token keeps what the grammar looks at and nothing of
its position, so two sources that differ only in layout inside brackets or in their line endings
have the same tokens.
-/

namespace SourceSurvey.Syntax

/-- The spelling of a name or a reserved word. -/
abbrev Word := List Char

/-- Operators and delimiters. -/
inductive Symbol
  | leftParen | rightParen | leftBracket | rightBracket | leftBrace | rightBrace
  | comma | colon | semicolon | dot | ellipsis | arrow | atSign
  | assign | walrus
  | plus | minus | star | doubleStar | slash | doubleSlash | percent
  | ampersand | bar | caret | tilde | shiftLeft | shiftRight
  | less | greater | lessEqual | greaterEqual | equal | notEqual | lessGreater
  | plusAssign | minusAssign | starAssign | doubleStarAssign | slashAssign | doubleSlashAssign
  | percentAssign | atAssign | ampersandAssign | barAssign | caretAssign
  | shiftLeftAssign | shiftRightAssign
  deriving DecidableEq

/-- Symbols with their spellings, longer spellings before the shorter ones they begin with. -/
def Symbol.spellings : List (List Char × Symbol) := [
  (['*', '*', '='], .doubleStarAssign), (['/', '/', '='], .doubleSlashAssign),
  (['<', '<', '='], .shiftLeftAssign), (['>', '>', '='], .shiftRightAssign),
  (['.', '.', '.'], .ellipsis),
  (['*', '*'], .doubleStar), (['/', '/'], .doubleSlash), (['<', '<'], .shiftLeft),
  (['>', '>'], .shiftRight), (['<', '='], .lessEqual), (['>', '='], .greaterEqual),
  (['=', '='], .equal), (['!', '='], .notEqual), (['<', '>'], .lessGreater), (['-', '>'], .arrow),
  ([':', '='], .walrus), (['+', '='], .plusAssign), (['-', '='], .minusAssign),
  (['*', '='], .starAssign), (['/', '='], .slashAssign), (['%', '='], .percentAssign),
  (['@', '='], .atAssign), (['&', '='], .ampersandAssign), (['|', '='], .barAssign),
  (['^', '='], .caretAssign),
  (['('], .leftParen), ([')'], .rightParen), (['['], .leftBracket), ([']'], .rightBracket),
  (['\x7b'], .leftBrace), (['\x7d'], .rightBrace), ([','], .comma), ([':'], .colon),
  ([';'], .semicolon), (['.'], .dot), (['@'], .atSign), (['='], .assign), (['+'], .plus),
  (['-'], .minus), (['*'], .star), (['/'], .slash), (['%'], .percent), (['&'], .ampersand),
  (['|'], .bar), (['^'], .caret), (['~'], .tilde), (['<'], .less), (['>'], .greater)]

/-- The longest symbol that a text begins with, and the length of its spelling. -/
def Symbol.ofText? (text : List Char) : Option (Symbol × Nat) :=
  (spellings.find? fun entry => entry.1.isPrefixOf text).map fun entry => (entry.2, entry.1.length)

/-- Binary and comparison operators: an operand stands on either side. -/
def Symbol.isBinary : Symbol → Bool
  | .plus | .minus | .star | .doubleStar | .slash | .doubleSlash | .percent | .atSign
  | .ampersand | .bar | .caret | .shiftLeft | .shiftRight
  | .less | .greater | .lessEqual | .greaterEqual | .equal | .notEqual | .lessGreater => true
  | _ => false

/-- Operators that combine an operation with an assignment. -/
def Symbol.isAugmented : Symbol → Bool
  | .plusAssign | .minusAssign | .starAssign | .doubleStarAssign | .slashAssign
  | .doubleSlashAssign | .percentAssign | .atAssign | .ampersandAssign | .barAssign
  | .caretAssign | .shiftLeftAssign | .shiftRightAssign => true
  | _ => false

/-- One unit of the grammar's input. A string literal with interpolated code is a run of tokens
    from `formatStart` to `formatEnd`: each stretch of its text belongs to the token after it,
    which opens an interpolation or ends the literal. -/
inductive Token
  /-- A name or a reserved word; which of the two it is depends on where it stands. -/
  | word (spelling : Word)
  | number
  /-- A complete string literal without interpolation; `bare` when its first character is a
      quotation mark and not a letter. -/
  | string (bare : Bool)
  | formatStart
  | formatEnd
  | holeOpen
  | holeClose
  /-- The colon between an interpolated expression and its format. -/
  | formatColon
  /-- A conversion such as `!r` behind an interpolated expression. -/
  | conversion
  | symbol (symbol : Symbol)
  | comment
  /-- The end of the source. -/
  | finish
  /-- Text that is no token, with everything after it. -/
  | invalid
  deriving DecidableEq

/-- Whether a token can be the first one of an expression. -/
def Token.startsExpression : Token → Bool
  | .word _ | .number | .string _ | .formatStart => true
  | .symbol s =>
    match s with
    | .leftParen | .leftBracket | .leftBrace | .plus | .minus | .tilde | .star | .ellipsis => true
    | _ => false
  | _ => false

/-- Whether a token begins a string literal. -/
def Token.startsLiteral : Token → Bool
  | .string _ | .formatStart => true
  | _ => false

end SourceSurvey.Syntax
