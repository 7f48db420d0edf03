import SourceSurvey.Files.Path

/-!
Patterns for paths. A pattern is read character by character and matched byte by byte; only `**`,
`/` and classes match a slash. `Glob.parse` gives the pieces of a pattern, `Glob.covers` says which
paths they cover.
-/

namespace SourceSurvey.Files

namespace Glob

open Files.Path (slash)

/-- What is wrong with a pattern. -/
inductive Problem where
  | unclosedClass
  | invalidRange (first last : Char)
  | unopenedAlternates
  | unclosedAlternates
  | danglingEscape
  deriving DecidableEq

/-- The text of a problem. -/
def Problem.message : Problem → String
  | unclosedClass => "unclosed character class; missing ']'"
  | invalidRange first last =>
    "invalid range; '" ++ first.toString ++ "' > '" ++ last.toString ++ "'"
  | unopenedAlternates =>
    "unopened alternate group; missing '\x7b' (maybe escape '\x7d' with '[\x7d]'?)"
  | unclosedAlternates =>
    "unclosed alternate group; missing '\x7d' (maybe escape '\x7b' with '[\x7b]'?)"
  | danglingEscape => "dangling '\\'"

/-- A piece of a pattern. -/
inductive Piece where
  /-- A character that stands for itself. -/
  | literal (c : Char)
  /-- One byte within a name. -/
  | any
  /-- Any bytes within a name. -/
  | star
  /-- Any directories before the rest. -/
  | leading
  /-- Everything below. -/
  | trailing
  /-- Any directories between. -/
  | between
  /-- One byte of a class, or one outside of it. -/
  | oneOf (negated : Bool) (ranges : List (Char × Char))
  /-- One of some patterns. -/
  | alternates (choices : List (List Piece))

/-- A class that has been read: how many characters it takes behind its bracket, and what is in
    it. -/
structure Class where
  length : Nat
  negated : Bool
  ranges : List (Char × Char)

/-- Reads the members of a class up to its closing bracket, which may itself be the first member.
    `ranging` says whether a dash is waiting for the end of a range; ranges are given in reverse. -/
def members (first ranging : Bool) (length : Nat) (ranges : List (Char × Char)) :
    List Char → Except Problem (Option (Nat × List (Char × Char)))
  | [] => .ok none
  | c :: rest =>
    if c = ']' ∧ !first then
      .ok (some (length + 1, (if ranging then ('-', '-') :: ranges else ranges).reverse))
    else if c = '-' ∧ !first ∧ !ranging then members false true (length + 1) ranges rest
    else
      match ranging, ranges with
      | true, (low, _) :: others =>
        if c < low then .error (.invalidRange low c)
        else members false false (length + 1) ((low, c) :: others) rest
      | _, ranges => members false false (length + 1) ((c, c) :: ranges) rest

/-- Reads a class behind its opening bracket. One that is never closed is none. -/
def class? (text : List Char) : Except Problem (Option Class) := do
  let negated := text.head?.any fun c => c == '!' || c == '^'
  let skipped := if negated then 1 else 0
  let result ← members true false 0 [] (text.drop skipped)
  return result.map fun (length, ranges) => ⟨skipped + length, negated, ranges⟩

/-- What encloses the pieces that are being read: the pieces before the group, and the choices of it
    that are complete. -/
structure Frame where
  before : List Piece
  choices : List (List Piece)

/-- How far a pattern has been read: the groups that are open, the pieces read in the innermost one,
    both in reverse, the last character, and whether an opening bracket has been found that is never
    closed. -/
structure Progress where
  frames : List Frame
  pieces : List Piece
  last : Option Char
  stray : Bool

namespace Progress

/-- Adds a piece that ends in a character. -/
def push (p : Progress) (last : Char) (piece : Piece) : Progress :=
  { p with pieces := piece :: p.pieces, last := some last }

/-- What two stars stand for. At the front they stand for directories; behind a slash they replace
    it. Anywhere else they are two single stars. Says whether the slash behind them belongs to
    them. -/
def doubleStar (p : Progress) (next : Option Char) : Progress × Bool :=
  let plain : Progress × Bool :=
    ({ p with pieces := .star :: .star :: p.pieces, last := some '*' }, false)
  let behindSlash := next == some '/'
  let last := some (if behindSlash then '/' else '*')
  if p.pieces.isEmpty then
    if behindSlash || next.isNone then
      ({ p with pieces := [.leading], last := last }, behindSlash)
    else plain
  else if p.last != some '/' &&
      (p.frames.isEmpty || (p.last != some ',' && p.last != some '\x7b')) then plain
  else
    let ends := next.isNone ||
      (!p.frames.isEmpty && (next == some ',' || next == some '\x7d'))
    if !ends && !behindSlash then plain
    else
      let pieces := match p.pieces with
        | .leading :: others => .leading :: others
        | .trailing :: others => .trailing :: others
        | others => (if ends then Piece.trailing else Piece.between) :: others.drop 1
      ({ p with pieces := pieces, last := last }, behindSlash)

end Progress

/-- Reads a pattern. `lenient` says whether a bracket that is never closed stands for itself. -/
def read (lenient : Bool) (p : Progress) : List Char → Except Problem (List Piece)
  | [] => if p.frames.isEmpty then .ok p.pieces.reverse else .error .unclosedAlternates
  | '?' :: rest => read lenient (p.push '?' .any) rest
  | '*' :: '*' :: rest =>
    match p.doubleStar rest.head? with
    | (p, true) => read lenient p (rest.drop 1)
    | (p, false) => read lenient p rest
  | '*' :: rest => read lenient (p.push '*' .star) rest
  | '\x7b' :: rest =>
    read lenient { p with frames := ⟨p.pieces, []⟩ :: p.frames, pieces := [], last := some '\x7b' }
      rest
  | '\x7d' :: rest =>
    match p.frames with
    | [] => .error .unopenedAlternates
    | frame :: frames =>
      let choices := (p.pieces.reverse :: frame.choices).reverse
      read lenient
        { p with frames, pieces := .alternates choices :: frame.before, last := some '\x7d' } rest
  | ',' :: rest =>
    match p.frames with
    | [] => read lenient (p.push ',' (.literal ',')) rest
    | frame :: frames =>
      let frame := { frame with choices := p.pieces.reverse :: frame.choices }
      read lenient { p with frames := frame :: frames, pieces := [], last := some ',' } rest
  | ['\\'] => .error .danglingEscape
  | '\\' :: c :: rest => read lenient (p.push c (.literal c)) rest
  | c :: rest =>
    if c = '[' ∧ !p.stray then
      match class? rest with
      | .error problem => .error problem
      | .ok (some found) =>
        read lenient (p.push ']' (.oneOf found.negated found.ranges)) (rest.drop found.length)
      | .ok none =>
        if lenient then read lenient { p.push '[' (.literal '[') with stray := true } rest
        else .error .unclosedClass
    else read lenient (p.push c (.literal c)) rest
termination_by text => text.length
decreasing_by all_goals (simp only [List.length_drop, List.length_cons]; omega)

/-- The pieces of a pattern. -/
def parse (lenient : Bool) (pattern : List Char) : Except Problem (List Piece) :=
  read lenient ⟨[], [], none, false⟩ pattern

/-- What is left of a path behind each of its slashes. -/
def behindSlashes : List UInt8 → List (List UInt8)
  | [] => []
  | byte :: rest =>
    if byte = slash then rest :: behindSlashes rest else behindSlashes rest

/-- What may be left of a path behind any number of bytes. -/
def suffixes : List UInt8 → List (List UInt8)
  | [] => [[]]
  | byte :: rest => (byte :: rest) :: suffixes rest

/-- What is left of a path behind some bytes of its first name. -/
def behindName : List UInt8 → List (List UInt8)
  | [] => [[]]
  | byte :: rest =>
    if byte = slash then [byte :: rest] else (byte :: rest) :: behindName rest

/-- Whether a byte lies in a range of characters. Of a character of several bytes, the last one
    begins the range, the first one ends it, and all others count for themselves. -/
def inRange (byte : UInt8) (low high : Char) : Bool :=
  let lows := Text.Utf8.encodeChar low
  let highs := Text.Utf8.encodeChar high
  if low = high then lows.contains byte
  else
    lows.dropLast.contains byte || (highs.drop 1).contains byte ||
      (lows.getLast?.any (· ≤ byte) && highs.head?.any (byte ≤ ·))

mutual

/-- Whether a piece is a group of nothing but empty choices. -/
def Piece.isEmpty : Piece → Bool
  | .alternates choices => choicesEmpty choices
  | _ => false

/-- Whether all pieces are empty. -/
def piecesEmpty : List Piece → Bool
  | [] => true
  | piece :: rest => piece.isEmpty && piecesEmpty rest

/-- Whether all choices are empty. -/
def choicesEmpty : List (List Piece) → Bool
  | [] => true
  | choice :: rest => piecesEmpty choice && choicesEmpty rest

end

mutual

/-- What may be left of a path behind a piece. -/
def Piece.rests (path : List UInt8) : Piece → List (List UInt8)
  | .literal c =>
    let bytes := Text.Utf8.encodeChar c
    if bytes.isPrefixOf path then [path.drop bytes.length] else []
  | .any =>
    match path with
    | [] => []
    | byte :: rest => if byte = slash then [] else [rest]
  | .star => behindName path
  | .leading => path :: behindSlashes path
  | .trailing => if path.head? = some slash then suffixes (path.drop 1) else []
  | .between =>
    if path.head? = some slash then path.drop 1 :: behindSlashes (path.drop 1) else []
  | .oneOf negated ranges =>
    match path with
    | [] => []
    | byte :: rest =>
      if (ranges.any fun (low, high) => inRange byte low high) != negated then [rest] else []
  | .alternates choices => if choicesEmpty choices then [path] else choicesRests path choices

/-- What may be left of a path behind some pieces. -/
def piecesRests (path : List UInt8) : List Piece → List (List UInt8)
  | [] => [path]
  | piece :: rest => ((piece.rests path).flatMap fun left => piecesRests left rest).eraseDups

/-- What may be left of a path behind one of some patterns. Empty ones do not count. -/
def choicesRests (path : List UInt8) : List (List Piece) → List (List UInt8)
  | [] => []
  | choice :: rest =>
    (if piecesEmpty choice then [] else piecesRests path choice) ++ choicesRests path rest

end

/-- Whether a pattern covers a path. Two stars alone cover everything. -/
def covers (pieces : List Piece) (path : List UInt8) : Bool :=
  match pieces with
  | [.leading] => true
  | pieces => (piecesRests path pieces).any (·.isEmpty)

end Glob

end SourceSurvey.Files
