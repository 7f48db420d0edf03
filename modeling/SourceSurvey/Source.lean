import SourceSurvey.FileName
import SourceSurvey.Files.Tree
import SourceSurvey.Header
import SourceSurvey.Syntax.Survey

/-!
The record of a source file. The name of the file decides how its text is read; a file that cannot
be read has a record too.
-/

namespace SourceSurvey.Source

/-- What is found in the text of a file. -/
def record (file path text : String) : FileRecord :=
  match FileName.method file.toList with
  | .grammar => Syntax.record file path text
  | .headers => Header.record file path text

/-- The name that the record of a path gives: that of the file, or else all of another path. -/
def nameOf (path : List UInt8) (relative : List Char) : List Char :=
  ((Files.Path.fileName? path).map Files.Path.text).getD relative

/-- What a refusal to read a path is reported as. -/
def unread (path : List UInt8) (cause : Files.Failure) : String :=
  String.ofList (Files.Path.text path) ++ ": " ++ cause.message

/-- The record of the file that a path leads to. It is filed under another path. -/
def recordAt (t : Files.Tree) (path : List UInt8) (relative : List Char) : FileRecord :=
  let name := String.ofList (nameOf path relative)
  match t.read path with
  | .ok bytes =>
    record name (String.ofList relative) (String.ofList (Text.Utf8.decodeLossy bytes))
  | .error cause =>
    .unreadable name (String.ofList relative) ("Error reading " ++ unread path cause)

/-- The record of a file that is looked at alone, filed under its own path. -/
def inspect (t : Files.Tree) (path : List UInt8) : FileRecord :=
  recordAt t path (Files.Path.shown path)

/-- The remark on a file that cannot be read. -/
def remark? (t : Files.Tree) (path : List UInt8) : Option String :=
  match t.read path with
  | .ok _ => none
  | .error cause => some ("failed to read " ++ unread path cause)

end SourceSurvey.Source
