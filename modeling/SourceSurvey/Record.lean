/-!
The records that a survey of a source tree is made of.
-/

namespace SourceSurvey

/-- A function found in a file. -/
structure FunctionRecord where
  name : String
  parameters : List String
  returns : Option String
  docstring : Option String
  code : Option String
  deriving DecidableEq

/-- A class found in a file. -/
structure ClassRecord where
  name : String
  docstring : Option String
  code : Option String
  deriving DecidableEq

/-- What was found in one file. -/
structure FileRecord where
  file : String
  path : String
  docstring : Option String
  imports : List String
  functions : List FunctionRecord
  classes : List ClassRecord
  code : Option String
  error : Option String
  deriving DecidableEq

/-- One commit of a history. -/
structure CommitRecord where
  hash : String
  author : String
  date : String
  message : String
  deriving DecidableEq

/-- A whole survey: the files of a tree and the commits of its history. -/
structure SurveyDocument where
  codebase : List FileRecord
  commits : List CommitRecord
  deriving DecidableEq

/-- The record of a file of which only the text is known. -/
def FileRecord.ofText (file path text : String) : FileRecord :=
  { file := file, path := path, docstring := none, imports := [], functions := [], classes := []
    code := some text, error := none }

/-- The record of a file that could not be read. -/
def FileRecord.unreadable (file path error : String) : FileRecord :=
  { file := file, path := path, docstring := none, imports := [], functions := [], classes := []
    code := none, error := some error }

/-- Whether something went wrong with the file. -/
def FileRecord.hasError (r : FileRecord) : Bool := r.error.isSome

end SourceSurvey
