import SourceSurvey.Syntax.Number

/-!
How a string literal is delimited, and where it ends. A literal opens with any letters among `f`,
`r`, `b` and `u` and a quotation mark, which may be tripled. Its text is read in stretches; a
literal on one mark may not have a line end inside a stretch that has begun, so a line end is
allowed only directly after the opening, an escape or an interpolation.
-/

namespace SourceSurvey.Syntax

def isLiteralLetter (c : Char) : Bool :=
  ['f', 'F', 'r', 'R', 'b', 'B', 'u', 'U'].contains c

def isQuotationMark (c : Char) : Bool := c == '"' || c == '\'' || c == '`'

/-- The opening of a string literal. -/
structure Quotation where
  mark : Char
  isMark : isQuotationMark mark = true
  triple : Bool
  /-- An `r` among the letters: backslashes stand for themselves. -/
  raw : Bool
  /-- A `b` among the letters: the literal is not text. -/
  bytes : Bool
  /-- An `f` among the letters: braces interpolate code. -/
  format : Bool
  deriving DecidableEq

/-- The opening that some letters and a quotation mark make, given the text behind the mark. A
    backquote is never tripled. -/
def Quotation.opened (letters : List Char) (mark : Char) (isMark : isQuotationMark mark = true)
    (rest : List Char) : Quotation where
  mark := mark
  isMark := isMark
  triple := mark != '`' && [mark, mark].isPrefixOf rest
  raw := letters.any fun c => c == 'r' || c == 'R'
  bytes := letters.any fun c => c == 'b' || c == 'B'
  format := letters.any fun c => c == 'f' || c == 'F'

/-- Number of quotation marks at either end. -/
def Quotation.width (q : Quotation) : Nat := if q.triple then 3 else 1

/-- Recognises an opening and gives its length. -/
def Quotation.ofText? (text : List Char) : Option (Quotation × Nat) :=
  let letters := text.takeWhile isLiteralLetter
  match text.drop letters.length with
  | mark :: rest =>
    if isMark : isQuotationMark mark = true then
      let q := Quotation.opened letters mark isMark rest
      some (q, letters.length + q.width)
    else none
  | [] => none

/-- The length of an escape by digits, with the letter before them if there is one; zero when there
    are too few. -/
def digitsLength (isDigit : Char → Bool) (n : Nat) (text : List Char) : Nat :=
  if (text.take n).length = n ∧ (text.take n).all isDigit = true then n + 1 else 0

/-- The length of an escape by name, with the letter before it. The name reaches to the next closing
    brace, wherever that stands. -/
def nameLength : List Char → Nat
  | '\x7b' :: name =>
    let inside := name.takeWhile (· != '\x7d')
    if inside.isEmpty || inside.length = name.length || inside.contains '\x00' then 0
    else inside.length + 3
  | _ => 0

/-- The number of characters that an escape takes after its backslash, zero when none follows that
    is known. -/
def escapeLength (text : List Char) : Nat :=
  match text with
  | '\r' :: '\n' :: _ => 2
  | c :: rest =>
    if c == 'u' then digitsLength isHexDigit 4 rest
    else if c == 'U' then digitsLength isHexDigit 8 rest
    else if c == 'x' then digitsLength isHexDigit 2 rest
    else if c.isDigit then digitsLength Char.isDigit 2 rest
    else if ['\n', '\'', '"', 'a', 'b', 'f', 'r', 'n', 't', 'v', '\\'].contains c then 1
    else if c == 'N' then nameLength rest
    else 0
  | [] => 0

/-- The length of the line end that a text begins with, zero when there is none. -/
def lineEndLength : List Char → Nat
  | '\r' :: '\n' :: _ => 2
  | '\r' :: _ | '\n' :: _ => 1
  | _ => 0

/-- The number of characters that a backslash of a raw literal shields from ending it: a quotation
    mark or a second backslash, and then a line end. -/
def shieldLength (mark : Char) (text : List Char) : Nat :=
  let first := lengthOfAny [mark, '\\'] text
  first + lineEndLength (text.drop first)

/-- What ends a stretch of the text of a literal. -/
inductive Stretch
  /-- The closing quotation marks, counted in. -/
  | closed
  /-- A brace that opens an interpolation, counted in. -/
  | hole
  deriving DecidableEq

/-- What a character inside a literal does, given the text behind it. -/
inductive Quotation.Move
  /-- The literal is broken off. -/
  | broken
  /-- A stretch ends, so many characters from here on. -/
  | stop (stretch : Stretch) (length : Nat)
  /-- It is text of the literal, and so are some characters behind it. The stretch that is being read
      then has a character or not. -/
  | text (begun : Bool) (more : Nat)

/-- In a literal of bytes these letters begin no escape; the backslash before one takes it with the
    character behind it. -/
def isTextEscape (c : Char) : Bool := ['N', 'u', 'U'].contains c

/-- Reads one character of a literal. `begun` says whether the stretch that is being read has a
    character yet. -/
def Quotation.move (q : Quotation) (begun : Bool) (c : Char) (rest : List Char) : Quotation.Move :=
  if c = '\x00' then .broken
  else if q.format && (c = '\x7b' || c = '\x7d') then
    if rest.head? = some c then .text false 1
    else if c = '\x7b' then .stop .hole 1 else .broken
  else if c = '\\' then
    if q.raw then .text begun (shieldLength q.mark rest)
    else if q.bytes && isTextEscape (rest.headD ' ') then .text true (rest.take 2).length
    else .text false (escapeLength rest)
  else if c = q.mark then
    if !q.triple then .stop .closed 1
    else if [q.mark, q.mark].isPrefixOf rest then .stop .closed 3
    else .text true 0
  else if c = '\n' && begun && !q.triple then .broken
  else .text true 0

/-- Reads the text of a literal from a point inside it and gives the number of characters to its end
    or to the next interpolation, or nothing when the literal is broken off. -/
def Quotation.stretch (q : Quotation) (begun : Bool) : List Char → Option (Stretch × Nat)
  | [] => none
  | c :: rest =>
    match q.move begun c rest with
    | .broken => none
    | .stop s n => some (s, n)
    | .text begun more => (q.stretch begun (rest.drop more)).map fun (s, n) => (s, n + 1 + more)
termination_by text => text.length
decreasing_by simp only [List.length_drop, List.length_cons]; omega

end SourceSurvey.Syntax
