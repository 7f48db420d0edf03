import SourceSurvey.Decimal.Shortest
import SourceSurvey.Text.Quote

/-!
What can be wrong with a text that should be a value of a certain form.
-/

namespace SourceSurvey.Json

/-- What stands where something else was expected. -/
inductive Found where
  | null
  | boolean (value : Bool)
  | integer (value : Int)
  | floating (value : Float)
  | string (text : List Char)
  | sequence
  | map

/-- The description of what stands somewhere. -/
def Found.message : Found → String
  | null => "null"
  | boolean value => "boolean `" ++ toString value ++ "`"
  | integer value => "integer `" ++ toString value ++ "`"
  | floating value => "floating point `" ++ String.ofList (Decimal.text value) ++ "`"
  | string text => "string " ++ String.ofList (Text.quote text)
  | sequence => "sequence"
  | map => "map"

/-- Something wrong with a text. -/
inductive Problem where
  | endInList
  | endInObject
  | endInString
  | endInValue
  | expectedColon
  | expectedListCommaOrEnd
  | expectedObjectCommaOrEnd
  | expectedIdent
  | expectedValue
  | invalidEscape
  | invalidNumber
  | numberOutOfRange
  | controlCharacter
  | keyNotString
  | loneSurrogate
  | trailingComma
  | trailingCharacters
  | endOfHexEscape
  | wrongType (found : Found) (expected : String)
  | wrongValue (found : Found) (expected : String)
  | wrongLength (length : Nat) (title : String) (elements : Nat)
  | missingField (key : String)
  | duplicateField (key : String)

/-- How a problem is classed: the text ends too early, is no value at all, or is the wrong value. -/
inductive Category where
  | ended
  | malformed
  | mismatched
  deriving DecidableEq

namespace Problem

/-- The class of a problem. -/
def category : Problem → Category
  | endInList | endInObject | endInString | endInValue => .ended
  | wrongType .. | wrongValue .. | wrongLength .. | missingField _ | duplicateField _ => .mismatched
  | _ => .malformed

/-- The text of a problem. -/
def message : Problem → String
  | endInList => "EOF while parsing a list"
  | endInObject => "EOF while parsing an object"
  | endInString => "EOF while parsing a string"
  | endInValue => "EOF while parsing a value"
  | expectedColon => "expected `:`"
  | expectedListCommaOrEnd => "expected `,` or `]`"
  | expectedObjectCommaOrEnd => "expected `,` or `\x7d`"
  | expectedIdent => "expected ident"
  | expectedValue => "expected value"
  | invalidEscape => "invalid escape"
  | invalidNumber => "invalid number"
  | numberOutOfRange => "number out of range"
  | controlCharacter => "control character (\\u0000-\\u001F) found while parsing a string"
  | keyNotString => "key must be a string"
  | loneSurrogate => "lone leading surrogate in hex escape"
  | trailingComma => "trailing comma"
  | trailingCharacters => "trailing characters"
  | endOfHexEscape => "unexpected end of hex escape"
  | wrongType found expected =>
    "invalid type: " ++ found.message ++ ", expected " ++ expected
  | wrongValue found expected =>
    "invalid value: " ++ found.message ++ ", expected " ++ expected
  | wrongLength length title elements =>
    "invalid length " ++ toString length ++ ", expected struct " ++ title ++ " with " ++
      toString elements ++ (if elements = 1 then " element" else " elements")
  | missingField key => "missing field `" ++ key ++ "`"
  | duplicateField key => "duplicate field `" ++ key ++ "`"

end Problem

/-- A place in a text: its line, counted from one, and the bytes before it on that line. -/
structure Place where
  line : Nat
  column : Nat
  deriving DecidableEq

/-- A problem and, once it is known, its place. -/
structure Fault where
  problem : Problem
  place : Option Place

/-- The text of a fault. -/
def Fault.message (fault : Fault) : String :=
  match fault.place with
  | none => fault.problem.message
  | some place =>
    fault.problem.message ++ " at line " ++ toString place.line ++ " column " ++
      toString place.column

end SourceSurvey.Json
