import SourceSurvey.Json.Input

/-!
Numbers. A number without point and exponent is an integer as long as a machine word holds it;
every other one is read as a floating point number.
-/

namespace SourceSurvey.Json

/-- A number as it is written. -/
structure Numeral where
  negative : Bool
  whole : List Char
  fraction : Option (List Char)
  exponent : Option (Bool × List Char)

/-- What a number amounts to. -/
inductive Amount where
  | unsigned (n : Nat)
  | negative (n : Nat)
  | floating (x : Float)

/-- How an amount is described. -/
def Amount.found : Amount → Found
  | unsigned n => .integer n
  | negative n => .integer (-(n : Int))
  | floating x => .floating x

namespace Numeral

/-- The greatest number of a machine word. -/
def wordLimit : Nat := 0xFFFFFFFFFFFFFFFF

/-- The greatest exponent that is looked at. -/
def exponentLimit : Nat := 0x7FFFFFFF

/-- Digits that have been read: their value as far as a word holds it, a power of ten, and whether
    the word was too small. -/
structure Reading where
  significand : Nat
  power : Int
  full : Bool

/-- Reads a digit before the point. Once the word is full, digits only count. -/
def Reading.wholeDigit (r : Reading) (c : Char) : Reading :=
  let next := r.significand * 10 + (c.toNat - '0'.toNat)
  if r.full || wordLimit < next then { r with power := r.power + 1, full := true }
  else { r with significand := next }

/-- Reads a digit behind the point. Once the word is full, digits are dropped. -/
def Reading.fractionDigit (r : Reading) (c : Char) : Reading :=
  let next := r.significand * 10 + (c.toNat - '0'.toNat)
  if r.full || wordLimit < next then { r with full := true }
  else { r with significand := next, power := r.power - 1 }

/-- The value of decimal digits. -/
def digitsValue (digits : List Char) : Nat :=
  digits.foldl (fun n c => n * 10 + (c.toNat - '0'.toNat)) 0

/-- A number times a power of ten, unless it is too large. Far below one it is scaled in steps. -/
def scale : Nat → Float → Int → Option Float
  | 0, x, _ => some x
  | steps + 1, x, power =>
    if power.natAbs ≤ 308 then
      let ten := Float.ofScientific 1 false power.natAbs
      if power < 0 then some (x / ten)
      else if (x * ten).isInf then none
      else some (x * ten)
    else if x == 0 then some x
    else if 0 ≤ power then none
    else scale steps (x / Float.ofScientific 1 false 308) (power + 308)

/-- The size of a number with a point or an exponent, unless it is too large. -/
def size? (reading : Reading) : Option (Bool × List Char) → Option Float
  | none => scale 4 (Float.ofNat reading.significand) reading.power
  | some (falling, digits) =>
    let exponent := digitsValue digits
    if exponentLimit < exponent then
      if reading.significand = 0 || falling then some 0 else none
    else
      scale 4 (Float.ofNat reading.significand)
        (if falling then reading.power - exponent else reading.power + exponent)

/-- What a number amounts to, unless it is too large. A negative integer has to fit into a signed
    word, and negative zero is no integer. -/
def amount? (numeral : Numeral) : Option Amount :=
  let whole := numeral.whole.foldl Reading.wholeDigit ⟨0, 0, false⟩
  match numeral.fraction, numeral.exponent, whole.full with
  | none, none, false =>
    if numeral.negative then
      if 0 < whole.significand && whole.significand ≤ 0x8000000000000000 then
        some (.negative whole.significand)
      else some (.floating (-Float.ofNat whole.significand))
    else some (.unsigned whole.significand)
  | fraction, exponent, _ =>
    let reading := (fraction.getD []).foldl Reading.fractionDigit { whole with full := false }
    (size? reading exponent).map fun x => .floating (if numeral.negative then -x else x)

end Numeral

namespace Reader

/-- Fails in front of something that is no part of a number, with another problem where the text has
    ended. -/
def failNumber {α : Type} (ended : Problem) : Reader α := do
  match ← peek with
  | none => failHere ended
  | some _ => failNext .invalidNumber

/-- Reads the digits that are needed at a place. -/
def someDigits (ended : Problem) : Reader (List Char) := do
  let digits ← run Char.isDigit
  if digits.isEmpty then failNumber ended else return digits

/-- Reads the digits before the point. A leading zero stands alone. -/
def wholeDigits (ended : Problem) : Reader (List Char) := do
  match ← peek with
  | some '0' =>
    advance
    if (← peek).any Char.isDigit then failNext .invalidNumber else return ['0']
  | _ => someDigits ended

/-- Reads the digits behind the point, if there is one. -/
def fractionDigits (ended : Problem) : Reader (Option (List Char)) := do
  match ← peek with
  | some '.' =>
    advance
    return some (← someDigits ended)
  | _ => return none

/-- Reads an exponent, if there is one: whether it is negative, and its digits. -/
def exponentDigits (ended : Problem) : Reader (Option (Bool × List Char)) := do
  if (← peek).any fun c => c == 'e' || c == 'E' then
    advance
    let sign ← peek
    if sign.any fun c => c == '+' || c == '-' then advance
    return some (sign == some '-', ← someDigits ended)
  else return none

/-- Reads a number. What is wrong where the text ends inside of it is given. -/
def numeral (ended : Problem) : Reader Numeral := do
  let negative := (← peek) == some '-'
  if negative then advance
  let whole ← wholeDigits ended
  let fraction ← fractionDigits ended
  return ⟨negative, whole, fraction, ← exponentDigits ended⟩

/-- Reads a number for what it amounts to. -/
def amount : Reader Amount := do
  match (← numeral .endInValue).amount? with
  | some amount => return amount
  | none => failHere .numberOutOfRange

end Reader

end SourceSurvey.Json
