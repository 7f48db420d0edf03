import SourceSurvey.Json.Form
import SourceSurvey.Json.Value
import SourceSurvey.Record

/-!
Records as data: how each of them is written, and which form it is read from. What is absent is
written as null, the text and the error of a file apart, which are left out.
-/

namespace SourceSurvey

open Json

/-- A list of texts as data. -/
def Json.Value.ofStrings (texts : List String) : Value :=
  .array (texts.map fun text => .string text.toList)

/-- A function as data. -/
def FunctionRecord.value (r : FunctionRecord) : Value :=
  .object [("name".toList, .string r.name.toList), ("parameters".toList, .ofStrings r.parameters),
    ("returns".toList, .ofOption r.returns), ("docstring".toList, .ofOption r.docstring),
    ("code".toList, .ofOption r.code)]

/-- A class as data. -/
def ClassRecord.value (r : ClassRecord) : Value :=
  .object [("name".toList, .string r.name.toList), ("docstring".toList, .ofOption r.docstring),
    ("code".toList, .ofOption r.code)]

/-- A member that is left out when there is nothing to say. -/
def Json.Value.given (key : String) : Option String → List (List Char × Value)
  | none => []
  | some text => [(key.toList, .string text.toList)]

/-- A file as data. -/
def FileRecord.value (r : FileRecord) : Value :=
  .object <|
    [("file".toList, .string r.file.toList), ("path".toList, .string r.path.toList),
      ("docstring".toList, .ofOption r.docstring), ("imports".toList, .ofStrings r.imports),
      ("functions".toList, .array (r.functions.map FunctionRecord.value)),
      ("classes".toList, .array (r.classes.map ClassRecord.value))] ++
      Value.given "code" r.code ++ Value.given "error" r.error

/-- A commit as data. -/
def CommitRecord.value (r : CommitRecord) : Value :=
  .object [("hash".toList, .string r.hash.toList), ("author".toList, .string r.author.toList),
    ("date".toList, .string r.date.toList), ("message".toList, .string r.message.toList)]

/-- A survey as data. -/
def SurveyDocument.value (d : SurveyDocument) : Value :=
  .object [("codebase".toList, .array (d.codebase.map FileRecord.value)),
    ("git_commits".toList, .array (d.commits.map CommitRecord.value))]

/-- The text of a survey, with four spaces for each level. -/
def SurveyDocument.text (d : SurveyDocument) : List Char := d.value.text 4 0

/-- The text of one file's record, with two spaces for each level. -/
def FileRecord.text (r : FileRecord) : List Char := r.value.text 2 0

/-- The form of a function. -/
def FunctionRecord.form : Form FunctionRecord where
  title := "FunctionRecord"
  blank := ⟨"", [], none, none, none⟩
  fields := [
    .needed "name" .text fun v r => { r with name := v },
    .needed "parameters" (.list .text) fun v r => { r with parameters := v },
    .free "returns" (.optional .text) fun v r => { r with returns := v },
    .free "docstring" (.optional .text) fun v r => { r with docstring := v },
    .free "code" (.optional .text) fun v r => { r with code := v }]

/-- The form of a class. -/
def ClassRecord.form : Form ClassRecord where
  title := "ClassRecord"
  blank := ⟨"", none, none⟩
  fields := [
    .needed "name" .text fun v r => { r with name := v },
    .free "docstring" (.optional .text) fun v r => { r with docstring := v },
    .free "code" (.optional .text) fun v r => { r with code := v }]

/-- The form of a file. -/
def FileRecord.form : Form FileRecord where
  title := "FileRecord"
  blank := ⟨"", "", none, [], [], [], none, none⟩
  fields := [
    .needed "file" .text fun v r => { r with file := v },
    .needed "path" .text fun v r => { r with path := v },
    .free "docstring" (.optional .text) fun v r => { r with docstring := v },
    .free "imports" (.list .text) fun v r => { r with imports := v },
    .free "functions" (.list FunctionRecord.form.read) fun v r => { r with functions := v },
    .free "classes" (.list ClassRecord.form.read) fun v r => { r with classes := v },
    .free "code" (.optional .text) fun v r => { r with code := v },
    .free "error" (.optional .text) fun v r => { r with error := v }]

/-- The form of a commit. -/
def CommitRecord.form : Form CommitRecord where
  title := "CommitRecord"
  blank := ⟨"", "", "", ""⟩
  fields := [
    .needed "hash" .text fun v r => { r with hash := v },
    .needed "author" .text fun v r => { r with author := v },
    .needed "date" .text fun v r => { r with date := v },
    .needed "message" .text fun v r => { r with message := v }]

/-- The form of a survey. -/
def SurveyDocument.form : Form SurveyDocument where
  title := "ParsedDocument"
  blank := ⟨[], []⟩
  fields := [
    .needed "codebase" (.list FileRecord.form.read) fun v d => { d with codebase := v },
    .needed "git_commits" (.list CommitRecord.form.read) fun v d => { d with commits := v }]

/-- The survey that a text describes. -/
def SurveyDocument.ofText (text : List Char) : Except Fault SurveyDocument := form.ofText text

end SourceSurvey
