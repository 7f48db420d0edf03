import SourceSurvey.Files.Change
import SourceSurvey.History.Tool
import SourceSurvey.Pool
import SourceSurvey.Record.Json
import SourceSurvey.Scan
import SourceSurvey.Source

/-!
Surveys: the records of all files below a directory, with the commits of a history beside them. A
history that cannot be read is no obstacle; it leaves a warning.
-/

namespace SourceSurvey

open Files

/-- What is asked for. -/
structure Survey.Request where
  root : List UInt8
  /-- Where the history is read, if not in the root. -/
  historyDirectory : Option (List UInt8)
  config : Config

/-- What comes out. -/
structure Survey where
  document : SurveyDocument
  warnings : List String
  /-- How often progress was reported. -/
  ticks : Nat
  /-- The directory whose history was asked for. -/
  asked : Option (List UInt8)

namespace Survey

/-- Somewhere to ask for the history of a directory. -/
abbrev HistorySource := List UInt8 → Except History.Failure (List CommitRecord)

/-- The records of some entries, in their order. -/
def records (t : Tree) (entries : List Scan.Entry) : List FileRecord :=
  entries.map fun entry => Source.recordAt t entry.path entry.relative

/-- How many workers help the first one to make records. No record depends on it. -/
def helpers : Nat := 3

/-- The record of an entry. -/
def recordOf (t : Tree) (entry : Scan.Entry) : FileRecord :=
  Source.recordAt t entry.path entry.relative

/-- The records of some entries, made by a pool or one after another, and the entries whose record
    was reported, the latest first. -/
def extraction (t : Tree) (entries : List Scan.Entry) (parallel : Bool) :
    List FileRecord × List Nat :=
  if parallel then Pool.perform (recordOf t) entries helpers
  else Pool.inTurn (recordOf t) entries

/-- The directory whose history is asked for. -/
def Request.asks (request : Request) : List UInt8 := request.historyDirectory.getD request.root

/-- A survey of some files, with a history if it is wanted. Asking for it may have an effect. -/
def withHistory {m : Type → Type} [Monad m] (request : Request)
    (ask : List UInt8 → m (Except History.Failure (List CommitRecord)))
    (codebase : List FileRecord) (ticks : Nat) : m Survey := do
  if request.config.history.enabled then
    match ← ask request.asks with
    | .ok commits => return ⟨⟨codebase, commits⟩, [], ticks, some request.asks⟩
    | .error failure => return ⟨⟨codebase, []⟩, [failure.message], ticks, some request.asks⟩
  else return ⟨⟨codebase, []⟩, [], ticks, none⟩

/-- The survey of a tree. Only a root that cannot be scanned is in the way of it. -/
def buildAsking {m : Type → Type} [Monad m] (t : Tree) (request : Request)
    (ask : List UInt8 → m (Except History.Failure (List CommitRecord))) :
    m (Except Scan.Failure Survey) := do
  match Scan.entries t request.root request.config.scan with
  | .error failure => return .error failure
  | .ok entries =>
    let (codebase, reports) := extraction t entries request.config.parallel
    return .ok (← withHistory request ask codebase reports.length)

/-- The survey of a tree with a history that is there already. -/
def build (t : Tree) (request : Request) (history : HistorySource) : Except Scan.Failure Survey :=
  buildAsking (m := Id) t request history

/-- The number of files that something went wrong with. -/
def errors (survey : Survey) : Nat := survey.document.codebase.countP FileRecord.hasError

end Survey

namespace SurveyDocument

/-- Why a survey could not be written. -/
inductive WriteFailure where
  | directory (path : List UInt8) (cause : Files.Failure)
  | file (path : List UInt8) (cause : Files.Failure)
  deriving DecidableEq

/-- What went wrong, and what was behind it. -/
def WriteFailure.messages : WriteFailure → List String
  | directory path cause =>
    ["Failed to create output directory " ++ String.ofList (Path.text path), cause.message]
  | file path cause => ["Failed to write " ++ String.ofList (Path.text path), cause.message]

/-- Writes a survey, and makes the directory for it. -/
def write (document : SurveyDocument) (path : List UInt8) (t : Tree) :
    Except WriteFailure Unit × Tree :=
  let (made, t) : Except WriteFailure Unit × Tree :=
    match Path.parent? path with
    | none => (.ok (), t)
    | some parent =>
      let (result, t) := t.after (Change.makeAll parent)
      (result.mapError (WriteFailure.directory parent), t)
  match made with
  | .error failure => (.error failure, t)
  | .ok () =>
    let (result, t) := t.after (Change.write path (Text.Utf8.encode document.text))
    (result.mapError (WriteFailure.file path), t)

end SurveyDocument

end SourceSurvey
