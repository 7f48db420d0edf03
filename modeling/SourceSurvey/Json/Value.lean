/-!
The values that a survey writes, and their text. `Value.text` puts every member and element on a line
of its own, indented by a fixed width for each level.
-/

namespace SourceSurvey.Json

/-- A value of the data format, as far as a survey writes them. -/
inductive Value where
  | null
  | string (text : List Char)
  | array (elements : List Value)
  | object (members : List (List Char × Value))

/-- A text or nothing. -/
def Value.ofOption : Option String → Value
  | none => .null
  | some text => .string text.toList

/-- One character as it is written in a string: quotation marks, backslashes and controls are
    escaped, all else stands for itself. -/
def escapeChar (c : Char) : List Char :=
  match c with
  | '"' => ['\\', '"']
  | '\\' => ['\\', '\\']
  | '\x08' => ['\\', 'b']
  | '\x0c' => ['\\', 'f']
  | '\n' => ['\\', 'n']
  | '\r' => ['\\', 'r']
  | '\t' => ['\\', 't']
  | c =>
    if c.toNat < 0x20 then
      ['\\', 'u', '0', '0', Nat.digitChar (c.toNat / 16), Nat.digitChar (c.toNat % 16)]
    else [c]

/-- A string in its written form. -/
def stringText (text : List Char) : List Char := '"' :: text.flatMap escapeChar ++ ['"']

/-- The start of a line that is indented to a level. -/
def newLine (width level : Nat) : List Char := '\n' :: List.replicate (width * level) ' '

mutual

/-- The text of a value that begins on a line of the given level. -/
def Value.text (width level : Nat) : Value → List Char
  | .null => ['n', 'u', 'l', 'l']
  | .string text => stringText text
  | .array [] => ['[', ']']
  | .array (element :: rest) =>
    '[' :: newLine width (level + 1) ++ element.text width (level + 1) ++
      elementsText width (level + 1) rest ++ newLine width level ++ [']']
  | .object [] => ['\x7b', '\x7d']
  | .object ((key, value) :: rest) =>
    '\x7b' :: newLine width (level + 1) ++ stringText key ++ [':', ' '] ++
      value.text width (level + 1) ++ membersText width (level + 1) rest ++
      newLine width level ++ ['\x7d']

/-- The text of the elements behind the first, each behind a comma on a new line. -/
def elementsText (width level : Nat) : List Value → List Char
  | [] => []
  | element :: rest =>
    ',' :: newLine width level ++ element.text width level ++ elementsText width level rest

/-- The text of the members behind the first, each behind a comma on a new line. -/
def membersText (width level : Nat) : List (List Char × Value) → List Char
  | [] => []
  | (key, value) :: rest =>
    ',' :: newLine width level ++ stringText key ++ [':', ' '] ++ value.text width level ++
      membersText width level rest

end

end SourceSurvey.Json
