import SourceSurvey.Docstring
import SourceSurvey.Record
import SourceSurvey.Syntax.LineEnd
import SourceSurvey.Syntax.Literal
import SourceSurvey.Syntax.Violation

/-!
The definitions, imports and documentation of a source with significant indentation.
-/

namespace SourceSurvey.Syntax

/-- The text from one lexeme up to another, without the blanks before the first. -/
def slice (lexemes : List Lexeme) (start stop : Nat) : List Char :=
  match (lexemes.drop start).take (stop - start) with
  | [] => []
  | first :: rest => first.text ++ Lexeme.joined rest

/-- The literals that an expression consists of, possibly in parentheses. Inside parentheses, a
    joined line that stands on its own beside the expression hides it. -/
def Shape.literals? : Shape → Option (List LiteralPart)
  | .literal parts => some parts
  | .group spliced inside => if spliced then none else inside.literals?
  | _ => none

/-- The value of a lexeme, which has to be a literal. -/
def Lexeme.value? (l : Lexeme) : Option (List Char) :=
  match l.token with
  | .string _ => literalValue? l.text
  | _ => none

/-- The value of one of several adjacent literals. -/
def partValue? (lexemes : List Lexeme) : LiteralPart → Option (List Char)
  | .plain index => lexemes[index]?.bind Lexeme.value?
  | .formatted => none

/-- The documentation of a scope: the value of its first statement, where that is text and nothing
    else, cleaned. -/
def docstring? (lexemes : List Lexeme) (body : List Statement) : Option (List Char) :=
  match body with
  | .expression _ shape :: _ => do
    let parts ← shape.literals?
    let values ← parts.mapM (partValue? lexemes)
    return Docstring.clean values.flatten
  | _ => none

/-- The documentation of a whole source. A joined line that stands on its own before the first statement
    hides it. -/
def Module.docstring? (m : Module) (lexemes : List Lexeme) : Option (List Char) :=
  if m.spliced then none else Syntax.docstring? lexemes m.body

/-- A dotted name as it is written without blanks. -/
def DottedName.text (name : DottedName) : List Char := Text.join ['.'] name

/-- The module that names are imported from. A relative origin is written without its dots. -/
def ImportOrigin.text : ImportOrigin → List Char
  | .absolute path | .relative path => DottedName.text path
  | .future => Keyword.future_

/-- An import of names as one line. -/
def importLine (origin : ImportOrigin) (names : List (List Char)) : String :=
  "from " ++ String.ofList origin.text ++ " import " ++
    String.ofList (Text.join [',', ' '] names)

/-- The entries for an import: one for each module, or one for all names of a module. -/
def Import.entries : Import → List String
  | .modules list => list.map fun n => String.ofList (DottedName.text n.path)
  | .names origin list => [importLine origin (list.map fun n => DottedName.text n.path)]
  | .everything origin => [importLine origin [['*']]]

mutual

/-- The entries for the imports of a statement, at any depth. -/
def Statement.imports : Statement → List String
  | .importing _ what => what.entries
  | .definition _ _ _ _ _ body | .block _ body => Statement.importsOf body
  | .expression .. | .legacy .. | .plain _ => []

def Statement.importsOf : List Statement → List String
  | [] => []
  | statement :: rest => statement.imports ++ Statement.importsOf rest

end

mutual

/-- The functions of a statement, at any depth, in source order. -/
def Statement.functions (lexemes : List Lexeme) : Statement → List FunctionRecord
  | .definition _ start stop (.function parameters) name body =>
    { name := String.ofList name
      parameters := (Parameter.positional parameters).map String.ofList
      returns := none
      docstring := (docstring? lexemes body).map String.ofList
      code := some (String.ofList (slice lexemes start stop)) } ::
      Statement.functionsOf lexemes body
  | .definition _ _ _ .classType _ body | .block _ body => Statement.functionsOf lexemes body
  | .expression .. | .importing .. | .legacy .. | .plain _ => []

def Statement.functionsOf (lexemes : List Lexeme) : List Statement → List FunctionRecord
  | [] => []
  | statement :: rest => statement.functions lexemes ++ Statement.functionsOf lexemes rest

end

mutual

/-- The classes of a statement, at any depth, in source order. -/
def Statement.classes (lexemes : List Lexeme) : Statement → List ClassRecord
  | .definition _ start stop .classType name body =>
    { name := String.ofList name
      docstring := (docstring? lexemes body).map String.ofList
      code := some (String.ofList (slice lexemes start stop)) } ::
      Statement.classesOf lexemes body
  | .definition _ _ _ (.function _) _ body | .block _ body => Statement.classesOf lexemes body
  | .expression .. | .importing .. | .legacy .. | .plain _ => []

def Statement.classesOf (lexemes : List Lexeme) : List Statement → List ClassRecord
  | [] => []
  | statement :: rest => statement.classes lexemes ++ Statement.classesOf lexemes rest

end

/-- What a source defines. -/
structure Definitions where
  docstring : Option String
  imports : List String
  functions : List FunctionRecord
  classes : List ClassRecord

/-- The definitions of a source, or why it is refused. A refused source has none. -/
def definitions (text : List Char) : Except Problem Definitions :=
  let lexemes := lexemes text
  let places := (Place.start.ofLexemes lexemes).toArray
  let pieces := Piece.ofLexemes lexemes
  match Module.ofPieces pieces with
  | .error token =>
    if LineEnd.isMissing lexemes pieces token then .error .lineEnd
    else
      let place := places[token]?.getD .start
      .error (.grammar place.line place.column)
  | .ok m =>
    match violation places m.body with
    | some problem => .error problem
    | none =>
      .ok { docstring := (m.docstring? lexemes).map String.ofList
            imports := Statement.importsOf m.body
            functions := Statement.functionsOf lexemes m.body
            classes := Statement.classesOf lexemes m.body }

/-- The record of a file with significant indentation. -/
def record (file path text : String) : FileRecord :=
  let bare := FileRecord.ofText file path text
  match definitions text.toList with
  | .ok found =>
    { bare with docstring := found.docstring, imports := found.imports,
                functions := found.functions, classes := found.classes }
  | .error problem => { bare with error := some ("AST parse error: " ++ problem.message) }

end SourceSurvey.Syntax
