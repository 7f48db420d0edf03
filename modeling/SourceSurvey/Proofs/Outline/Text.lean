import SourceSurvey.Docstring
import SourceSurvey.Record
import SourceSurvey.Syntax.Keyword
import SourceSurvey.Text.Split

/-!
Outlines: forests of nested definitions, each with a name and perhaps a documentation. An outline is
written out with four spaces for each level, and the records that its text should give are read off
it directly.
-/

namespace SourceSurvey.Syntax

/-- Whether a word consists of basic letters, digits and underscores and does not begin with a
    digit. -/
def isIdentifier : Word → Bool
  | [] => false
  | c :: rest => (c.isAlpha || c == '_') && rest.all fun d => d.isAlphanum || d == '_'

/-- A name in an outline. It may be spelled like a reserved word. -/
abbrev Identifier := { w : Word // isIdentifier w = true }

/-- The heading of a definition. -/
inductive Heading where
  | function (name : Identifier) (parameters : List Identifier)
  | classType (name : Identifier)

/-- A forest of definitions: none, or a first one with the forest inside it, and the rest. -/
inductive Outline where
  | done
  | definition (heading : Heading) (doc : Option (List Char)) (inside rest : Outline)

/-- The blanks before a line of some level. -/
def margin (level : Nat) : List Char := List.replicate (4 * level) ' '

/-- A number below sixteen as a digit. -/
def hexDigit (n : Nat) : Char := (Nat.digitChar n).toUpper

/-- The last digits of a number, as many as are asked for. -/
def hexDigits : Nat → Nat → List Char
  | 0, _ => []
  | width + 1, n => hexDigits width (n / 16) ++ [hexDigit (n % 16)]

/-- A character inside quotation marks. Only printable ones of the basic set stand for themselves;
    all others but quotation marks and backslashes are written as numbers. -/
def quoteChar (c : Char) : List Char :=
  if c = '\\' ∨ c = '"' then ['\\', c]
  else if 0x20 ≤ c.toNat ∧ c.toNat < 0x7F then [c]
  else '\\' :: 'U' :: hexDigits 8 c.toNat

/-- A text as a literal on one line. -/
def quoteLine (text : List Char) : List Char := '"' :: text.flatMap quoteChar ++ ['"']

/-- The name in a heading. -/
def Heading.name : Heading → Word
  | function name _ | classType name => name

/-- The text of a heading, up to its colon. -/
def Heading.text : Heading → List Char
  | function name parameters =>
    Keyword.def_ ++ ' ' :: name ++ '(' :: Text.join [',', ' '] (parameters.map (·.val)) ++ [')']
  | classType name => Keyword.class_ ++ ' ' :: name

/-- The line of a documentation, if there is one. -/
def docLine (level : Nat) : Option (List Char) → List Char
  | none => []
  | some doc => margin level ++ quoteLine doc ++ ['\n']

/-- A definition from its heading to its final `pass`, with the text of the definitions inside. -/
def snippet (level : Nat) (heading : Heading) (doc : Option (List Char)) (inside : List Char) :
    List Char :=
  heading.text ++ [':', '\n'] ++ docLine (level + 1) doc ++ inside ++ margin (level + 1) ++
    Keyword.pass_

namespace Outline

/-- The text of an outline whose outermost definitions stand at some level. -/
def text (level : Nat) : Outline → List Char
  | done => []
  | definition heading doc inside rest =>
    margin level ++ snippet level heading doc (inside.text (level + 1)) ++ '\n' :: rest.text level

/-- A documentation as it is recorded. -/
def recordedDoc (doc : Option (List Char)) : Option String :=
  doc.map fun text => String.ofList (Docstring.clean text)

/-- The records of the functions of an outline, outer ones before inner ones. -/
def functions (level : Nat) : Outline → List FunctionRecord
  | done => []
  | definition (.function name parameters) doc inside rest =>
    { name := String.ofList name
      parameters := parameters.map fun p => String.ofList p.val
      returns := none
      docstring := recordedDoc doc
      code := some (String.ofList
        (snippet level (.function name parameters) doc (inside.text (level + 1)))) } ::
      (inside.functions (level + 1) ++ rest.functions level)
  | definition (.classType _) _ inside rest => inside.functions (level + 1) ++ rest.functions level

/-- The records of the classes of an outline, outer ones before inner ones. -/
def classes (level : Nat) : Outline → List ClassRecord
  | done => []
  | definition (.classType name) doc inside rest =>
    { name := String.ofList name
      docstring := recordedDoc doc
      code := some (String.ofList
        (snippet level (.classType name) doc (inside.text (level + 1)))) } ::
      (inside.classes (level + 1) ++ rest.classes level)
  | definition (.function _ _) _ inside rest => inside.classes (level + 1) ++ rest.classes level

example : (definition (.classType ⟨['C'], rfl⟩) none
    (definition (.function ⟨['f'], rfl⟩ [⟨['a'], rfl⟩, ⟨['b'], rfl⟩]) (some ['"', 'é']) done done)
    done).text 0 = String.toList
      "class C:\n    def f(a, b):\n        \"\\\"\\U000000E9\"\n        pass\n    pass\n" := by
  decide

end Outline
end SourceSurvey.Syntax
