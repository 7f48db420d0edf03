import SourceSurvey.Syntax.Quotation
import SourceSurvey.Text.Split

/-!
The value of a string literal.
-/

namespace SourceSurvey.Syntax

/-- The value of a hexadecimal digit. -/
def hexValue (c : Char) : Nat :=
  if c.isDigit then c.toNat - '0'.toNat
  else if 'a' ≤ c then c.toNat - 'a'.toNat + 10
  else c.toNat - 'A'.toNat + 10

/-- The number that digits stand for. -/
def digitsValue (base : Nat) (digits : List Char) : Nat :=
  digits.foldl (fun n c => n * base + hexValue c) 0

/-- The character of a code point, unless that is a surrogate or out of range. -/
def scalar? (code : Nat) : Option Char :=
  if code < 0xD800 || (0xDFFF < code && code < 0x110000) then some (Char.ofNat code) else none

/-- The character that a letter or mark behind a backslash stands for by itself. -/
def simpleEscape? (c : Char) : Option Char :=
  if c == '\\' || c == '\'' || c == '"' then some c
  else if c == 'a' then some '\x07'
  else if c == 'b' then some '\x08'
  else if c == 'f' then some '\x0c'
  else if c == 'n' then some '\n'
  else if c == 'r' then some '\r'
  else if c == 't' then some '\t'
  else if c == 'v' then some '\x0b'
  else none

/-- The number of hexadecimal digits that a letter behind a backslash asks for. -/
def hexWidth? (c : Char) : Option Nat :=
  if c == 'x' then some 2 else if c == 'u' then some 4 else if c == 'U' then some 8 else none

/-- What a backslash stands for with the text behind it, and how much of that text it takes. An
    escape that is not known, cut short or out of range stands for itself. -/
def escapeValue (text : List Char) : List Char × Nat :=
  match text with
  | [] => (['\\'], 0)
  | c :: rest =>
    if c == '\n' then ([], 1)
    else if let some value := simpleEscape? c then ([value], 1)
    else if isOctalDigit c then
      let digits := c :: (rest.take 2).takeWhile isOctalDigit
      match scalar? (digitsValue 8 digits) with
      | some value => ([value], digits.length)
      | none => ('\\' :: digits, digits.length)
    else if let some width := hexWidth? c then
      let digits := (rest.take width).takeWhile isHexDigit
      match if digits.length = width then scalar? (digitsValue 16 digits) else none with
      | some value => ([value], digits.length + 1)
      | none => ('\\' :: c :: digits, digits.length + 1)
    else (['\\', c], 1)

/-- A text with its escapes replaced by what they stand for. -/
def unescape : List Char → List Char
  | [] => []
  | c :: rest =>
    if c == '\\' then
      let (value, taken) := escapeValue rest
      value ++ unescape (rest.drop taken)
    else c :: unescape rest
termination_by text => text.length
decreasing_by all_goals (simp only [List.length_drop, List.length_cons]; omega)

/-- The value of a complete string literal. Only text has one: neither bytes, nor a literal with
    interpolation, nor one in backquotes. Line ends in it count as line feeds. -/
def literalValue? (literal : List Char) : Option (List Char) := do
  let (q, opening) ← Quotation.ofText? literal
  if q.bytes || q.format || q.mark == '`' then none
  else
    let inside := Text.unixLineEnds ((literal.drop opening).take
      (literal.length - opening - q.width))
    some (if q.raw then inside else unescape inside)

end SourceSurvey.Syntax
