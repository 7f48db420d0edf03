import SourceSurvey.Json.Input

/-!
Readers of words, numbers and strings.
-/

namespace SourceSurvey.Json

namespace Reader

/-- Reads the letters that are left of a word. -/
def letters : List Char → Reader Unit
  | [] => return
  | letter :: rest => do
    match ← peek with
    | none => failHere .endInValue
    | some c =>
      if c = letter then
        advance
        letters rest
      else failNext .expectedIdent

end Reader

/-- The value of a digit of any base up to sixteen. -/
def digitValue? (c : Char) : Option Nat :=
  if '0' ≤ c ∧ c ≤ '9' then some (c.toNat - '0'.toNat)
  else if 'a' ≤ c ∧ c ≤ 'f' then some (c.toNat - 'a'.toNat + 10)
  else if 'A' ≤ c ∧ c ≤ 'F' then some (c.toNat - 'A'.toNat + 10)
  else none

/-- The number that four hexadecimal digits spell. -/
def hexValue? (digits : List Char) : Option Nat :=
  (digits.mapM digitValue?).map fun values => values.foldl (fun n d => n * 16 + d) 0

/-- The character that a pair of surrogates stands for. -/
def pairValue (lead trail : Nat) : Nat := 0x10000 + (lead - 0xD800) * 0x400 + (trail - 0xDC00)

namespace Reader

/-- Reads the four digits of an escape. -/
def hexEscape : Reader Nat := do
  let input ← get
  let digits := input.rest.take 4
  match digits.length == 4, hexValue? digits with
  | true, some value =>
    set (Input.mk (input.rest.drop 4) (digits.foldl Place.after input.place))
    return value
  | _, _ =>
    if (String.ofList digits).utf8ByteSize < 4 then
      failAfter 4 .endInString
    else failAfter 4 .invalidEscape

/-- Reads one character that an escape needs to go on. -/
def escapePart (part : Char) : Reader Unit := do
  match ← peek with
  | none => failHere .endInString
  | some c => if c = part then advance else failNext .endOfHexEscape

/-- Reads a character given by its number, behind the letter that announces it. One beyond the basic
    plane is given by two numbers. -/
def numberEscape : Reader Char := do
  let lead ← hexEscape
  if 0xDC00 ≤ lead ∧ lead ≤ 0xDFFF then failHere .loneSurrogate
  else if lead < 0xD800 ∨ 0xDBFF < lead then return Char.ofNat lead
  else
    escapePart '\\'
    escapePart 'u'
    let trail ← hexEscape
    if trail < 0xDC00 ∨ 0xDFFF < trail then failHere .loneSurrogate
    else return Char.ofNat (pairValue lead trail)

end Reader

/-- What the letter of a short escape stands for. -/
def shortEscape? : Char → Option Char
  | '"' => some '"'
  | '\\' => some '\\'
  | '/' => some '/'
  | 'b' => some '\x08'
  | 'f' => some '\x0c'
  | 'n' => some '\n'
  | 'r' => some '\r'
  | 't' => some '\t'
  | _ => none

/-- Whether a character stands for itself in a string. -/
def isPlain (c : Char) : Bool := c != '"' && c != '\\' && 0x20 ≤ c.toNat

namespace Reader

/-- Reads an escape behind its backslash. -/
def escape : Reader Char := do
  match ← peek with
  | none => failHere .endInString
  | some 'u' =>
    advance
    numberEscape
  | some c =>
    match shortEscape? c with
    | some value =>
      advance
      return value
    | none => failNext .invalidEscape

/-- Reads a string behind its quotation mark, up to the closing one. The part that was read before
    is given in reverse; the number bounds the escapes still to come. -/
def stringEnd : Nat → List Char → Reader (List Char)
  | 0, _ => failHere .endInString
  | n + 1, reversed => do
    let plain ← run isPlain
    let reversed := plain.reverseAux reversed
    match ← peek with
    | none => failHere .endInString
    | some '"' =>
      advance
      return reversed.reverse
    | some '\\' =>
      advance
      let c ← escape
      stringEnd n (c :: reversed)
    | some _ => failNext .controlCharacter

/-- Reads a string whose quotation mark comes next. -/
def stringBody : Reader (List Char) := do
  advance
  stringEnd ((← get).rest.length + 1) []

/-- Passes over an escape behind its backslash. Pairs are not looked at. -/
def skipEscape : Reader Unit := do
  match ← peek with
  | none => failHere .endInString
  | some 'u' =>
    advance
    let _ ← hexEscape
  | some c => if (shortEscape? c).isSome then advance else failNext .invalidEscape

/-- Passes over a string behind its quotation mark. The number bounds its escapes. -/
def skipStringEnd : Nat → Reader Unit
  | 0 => failHere .endInString
  | n + 1 => do
    let _ ← run isPlain
    match ← peek with
    | none => failHere .endInString
    | some '"' => advance
    | some '\\' =>
      advance
      skipEscape
      skipStringEnd n
    | some _ => failHere .controlCharacter

/-- Passes over a string whose quotation mark comes next. -/
def skipString : Reader Unit := do
  advance
  skipStringEnd ((← get).rest.length + 1)

end Reader

end SourceSurvey.Json
