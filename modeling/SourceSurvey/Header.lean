import SourceSurvey.Record
import SourceSurvey.Text.Blank
import SourceSurvey.Text.Split
import SourceSurvey.Text.WordChar

/-!
Definition headers, found in the text of any language without knowing its grammar: a keyword, blanks
and a name, and for functions perhaps a list in parentheses. Comments and strings are not told apart
from code. Headers are taken from left to right and do not overlap.
-/

namespace SourceSurvey

/-- A header: the name it defines and the text between its parentheses, if it has them. -/
structure Header where
  name : List Char
  parameters : Option (List Char)
  deriving DecidableEq

namespace Header

open Text

/-- The keywords of functions. -/
def functionKeywords : List (List Char) :=
  [['f', 'u', 'n', 'c', 't', 'i', 'o', 'n'], ['d', 'e', 'f'], ['f', 'n'], ['f', 'u', 'n', 'c']]

/-- The keyword of classes. -/
def classKeywords : List (List Char) := [['c', 'l', 'a', 's', 's']]

/-- The length of the keyword, blanks and name that the text begins with, and the name. -/
def nameAfter? (keyword text : List Char) : Option (List Char × Nat) :=
  if keyword.isPrefixOf text then
    let behind := text.drop keyword.length
    let blanks := (behind.takeWhile isBlank).length
    let name := (behind.drop blanks).takeWhile isWordChar
    if blanks = 0 || name.isEmpty then none
    else some (name, keyword.length + blanks + name.length)
  else none

/-- The name that the text defines by one of the keywords, and the length of the text up to the end
    of the name. -/
def named? (keywords : List (List Char)) (text : List Char) : Option (List Char × Nat) :=
  keywords.findSome? fun keyword => nameAfter? keyword text

/-- The text in parentheses that another text begins with, and its length with the parentheses. The
    first closing parenthesis ends it. -/
def parenthesised? : List Char → Option (List Char × Nat)
  | '(' :: rest =>
    let inside := rest.takeWhile (· != ')')
    if inside.length < rest.length then some (inside, inside.length + 2) else none
  | _ => none

/-- The header of a class at the start of the text, and its length. -/
def class? (text : List Char) : Option (Header × Nat) :=
  (named? classKeywords text).map fun (name, n) => (⟨name, none⟩, n)

/-- The header of a function at the start of the text, and its length. Spaces and tabs behind the
    name belong to it. -/
def function? (text : List Char) : Option (Header × Nat) :=
  (named? functionKeywords text).map fun (name, n) =>
    let behind := text.drop n
    let gap := (behind.takeWhile fun c => c == ' ' || c == '\t').length
    match parenthesised? (behind.drop gap) with
    | some (inside, m) => (⟨name, some inside⟩, n + gap + m)
    | none => (⟨name, none⟩, n + gap)

/-- All headers of a text, from left to right. One begins only where no word character comes
    directly before it; the search goes on behind its end. -/
def all (header? : List Char → Option (Header × Nat)) (afterWord : Bool) :
    List Char → List Header
  | [] => []
  | c :: rest =>
    match if afterWord then none else header? (c :: rest) with
    | some (header, n) =>
      let taken := c :: rest.take (n - 1)
      header :: all header? (taken.getLast?.any isWordChar) (rest.drop (n - 1))
    | none => all header? (isWordChar c) rest
termination_by text => text.length
decreasing_by all_goals (simp only [List.length_drop, List.length_cons]; omega)

/-- The parameters between the parentheses of a header: separated by commas and trimmed, none where
    there are only blanks. -/
def parameterList (header : Header) : List (List Char) :=
  match header.parameters with
  | none => []
  | some text => if (trim text).isEmpty then [] else (split ',' text).map trim

/-- The functions that a text has headers of. -/
def functions (text : List Char) : List FunctionRecord :=
  (all function? false text).map fun header =>
    { name := String.ofList header.name
      parameters := header.parameterList.map String.ofList
      returns := none, docstring := none, code := none }

/-- The classes that a text has headers of. -/
def classes (text : List Char) : List ClassRecord :=
  (all class? false text).map fun header =>
    { name := String.ofList header.name, docstring := none, code := none }

/-- The record of a file in which definitions are recognised by their headers. -/
def record (file path text : String) : FileRecord :=
  { FileRecord.ofText file path text with
    functions := functions text.toList, classes := classes text.toList }

end Header

end SourceSurvey
