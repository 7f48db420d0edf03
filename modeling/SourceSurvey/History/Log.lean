import SourceSurvey.Record
import SourceSurvey.Text.Split

/-!
The log of a history: one line for each commit, with its hash, author, date and subject separated by
bars. Only the subject may have bars of its own.
-/

namespace SourceSurvey.History

/-- The arguments that make `git` print the log of a directory in this form. -/
def logArguments (directory : String) : List String :=
  ["-C", directory, "log", "--no-color", "--pretty=format:%H|%an|%ad|%s", "--date=iso"]

/-- The commit on a line of the log, if it has at least three bars. -/
def commit? (line : List Char) : Option CommitRecord :=
  match Text.splitAtMost '|' 3 line with
  | [hash, author, date, message] =>
    some { hash := String.ofList hash, author := String.ofList author
           date := String.ofList date, message := String.ofList message }
  | _ => none

/-- The commits of a log, in order. Lines of another form are passed over. -/
def commits (log : List Char) : List CommitRecord := (Text.lines log).filterMap commit?

end SourceSurvey.History
