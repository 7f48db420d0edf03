import SourceSurvey.Files.Failure

/-!
Why a history could not be read.
-/

namespace SourceSurvey.History

/-- A reason for having no history. -/
inductive Failure where
  /-- There is no program to ask. -/
  | toolMissing
  /-- The program gave up, and this is what it complained about. -/
  | logFailed (complaint : String)
  /-- The program was stopped after this many seconds. -/
  | timedOut (seconds : Nat)
  /-- The program could not be started. -/
  | notStarted (cause : Files.Failure)
  deriving DecidableEq

/-- The text of a reason, as a warning shows it. -/
def Failure.message : Failure → String
  | toolMissing => "Git not installed."
  | logFailed complaint =>
    "No git history found. Maybe not a git repo? (" ++ complaint ++ ")"
  | timedOut seconds => "git log did not finish within " ++ toString seconds ++ "s"
  | notStarted cause => "failed to run git: " ++ cause.message

end SourceSurvey.History
