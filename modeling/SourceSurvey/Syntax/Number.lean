/-!
Numbers. Each function gives the length of the longest number, or part of one, that a text begins
with; zero when there is none.
-/

namespace SourceSurvey.Syntax

/-- Decimal digits, each perhaps followed by one underscore. -/
def decimalLength : List Char → Nat
  | c :: '_' :: rest => if c.isDigit then decimalLength rest + 2 else 0
  | c :: rest => if c.isDigit then decimalLength rest + 1 else 0
  | [] => 0

/-- Digits of a given kind, each perhaps preceded by one underscore. -/
def radixLength (isDigit : Char → Bool) : List Char → Nat
  | '_' :: c :: rest => if isDigit c then radixLength isDigit rest + 2 else 0
  | c :: rest => if isDigit c then radixLength isDigit rest + 1 else 0
  | [] => 0

/-- One where the text begins with one of the given characters. -/
def lengthOfAny (letters : List Char) (text : List Char) : Nat :=
  match text with
  | c :: _ => if letters.contains c then 1 else 0
  | [] => 0

/-- An exponent with its mark and sign; it has at least one digit. -/
def exponentLength : List Char → Nat
  | [] => 0
  | mark :: rest =>
    if mark == 'e' || mark == 'E' then
      let sign := lengthOfAny ['+', '-'] rest
      let digits := decimalLength (rest.drop sign)
      if digits = 0 then 0 else sign + digits + 1
    else 0

/-- Digits behind a point, with an exponent and the letter of an imaginary number. -/
def fractionLength (text : List Char) : Nat :=
  let digits := decimalLength text
  let exponent := exponentLength (text.drop digits)
  digits + exponent + lengthOfAny ['j', 'J'] (text.drop (digits + exponent))

/-- An exponent, and the letter of a long or imaginary number; with an exponent it is not long. -/
def magnitudeLength (text : List Char) : Nat :=
  let exponent := exponentLength text
  if exponent = 0 then lengthOfAny ['L', 'l', 'J', 'j'] text
  else exponent + lengthOfAny ['j', 'J'] (text.drop exponent)

/-- What may stand behind the whole part of a decimal number. -/
def decimalTailLength : List Char → Nat
  | '.' :: rest => fractionLength rest + 1
  | text => magnitudeLength text

/-- A decimal number: an integer, perhaps long or imaginary, or digits with a point or an exponent,
    perhaps imaginary. -/
def decimalNumberLength (text : List Char) : Nat :=
  let whole := decimalLength text
  whole + decimalTailLength (text.drop whole)

def isHexDigit (c : Char) : Bool :=
  c.isDigit || ('a' ≤ c && c ≤ 'f') || ('A' ≤ c && c ≤ 'F')

def isOctalDigit (c : Char) : Bool := '0' ≤ c && c ≤ '7'

def isBinaryDigit (c : Char) : Bool := c == '0' || c == '1'

/-- The kind of digits that a letter after a leading zero announces. -/
def radixOf? (letter : Char) : Option (Char → Bool) :=
  if letter == 'x' || letter == 'X' then some isHexDigit
  else if letter == 'o' || letter == 'O' then some isOctalDigit
  else if letter == 'b' || letter == 'B' then some isBinaryDigit
  else none

/-- A number of any base. A base letter that no digit of the base follows is not part of it. -/
def numberLength (text : List Char) : Nat :=
  match text with
  | '0' :: letter :: rest =>
    match radixOf? letter with
    | some isDigit =>
      let digits := radixLength isDigit rest
      if digits = 0 then decimalNumberLength text
      else 2 + digits + lengthOfAny ['L', 'l'] (rest.drop digits)
    | none => decimalNumberLength text
  | _ => decimalNumberLength text

end SourceSurvey.Syntax
