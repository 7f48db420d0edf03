import SourceSurvey.History.Failure
import SourceSurvey.History.Log
import SourceSurvey.Text.Blank
import SourceSurvey.Text.Utf8

/-!
The program that a history is asked from, as far as it shows in what it answers.
-/

namespace SourceSurvey.History

/-- How a run of the program ends. -/
inductive Outcome where
  /-- It could not be started. -/
  | refused (cause : Files.Failure)
  /-- It did not end in time. -/
  | unfinished
  /-- It ended, well or not, with what it wrote to its two outputs. -/
  | ended (well : Bool) (output complaint : List UInt8)
  deriving DecidableEq

/-- The history that a run gives. A program that is not there is told apart from one that cannot be
    started; a complaint loses the blanks around it. -/
def Outcome.commits (seconds : Nat) : Outcome → Except Failure (List CommitRecord)
  | refused cause =>
    .error (if cause = Files.Failure.notFound then .toolMissing else .notStarted cause)
  | unfinished => .error (.timedOut seconds)
  | ended false _ complaint =>
    .error (.logFailed (String.ofList (Text.trim (Text.Utf8.decodeLossy complaint))))
  | ended true output _ => .ok (History.commits (Text.Utf8.decodeLossy output))

end SourceSurvey.History
