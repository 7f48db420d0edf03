import SourceSurvey.Command.Run

/-!
The command itself: it fetches the files that are named on standard input, one path a line, runs on
them, prints what the run prints, and stores the file that the run has written. A file that is looked
at alone is fetched by its own name. No program is started from here, so a history counts as one
whose tool is missing.
-/

namespace SourceSurvey.Command

open Files

/-- Adds a file to a tree, with the directories above it. -/
def addFile (t : Tree) (path : List UInt8) (content : ByteArray) : Tree :=
  let (_, t) := t.after (Change.makeAll ((Path.parent? path).getD []))
  (t.after (Change.write path content.toList)).2

/-- Fetches a file, if it can be read. -/
def fetch (t : Tree) (path : List Char) : IO Tree := do
  match ← (IO.FS.readBinFile (String.ofList path)).toBaseIO with
  | .ok content => return addFile t (Text.Utf8.encode path) content
  | .error _ => return t

/-- Fetches the files that are named on the remaining lines of a stream. -/
partial def fetchAll (stream : IO.FS.Stream) (t : Tree) : IO Tree := do
  let line ← stream.getLine
  if line.isEmpty then return t
  else fetchAll stream (← fetch t (line.toList.filter (· != '\n')))

/-- Stores the file that a run has written. -/
def store (finish : Finish) : IO Unit := do
  if let some path := finish.written then
    if let .ok content := finish.tree.read path then
      let parent := (Path.parent? path).getD []
      unless parent.isEmpty do IO.FS.createDirAll (String.ofList (Path.text parent))
      IO.FS.writeBinFile (String.ofList (Path.text path)) ⟨content.toArray⟩

/-- Fetches what a run needs, runs, prints, stores, and ends with the code of the run. -/
def perform (arguments : List String) : IO UInt32 := do
  let bare : Tree := ⟨.directory [], []⟩
  let t ← match (Reading.ofArguments arguments).inspected? with
    | some path => fetch bare path
    | none => fetchAll (← IO.getStdin) bare
  let finish := run t (fun _ => .refused .notFound) arguments
  (← IO.getStderr).putStr (String.ofList finish.notes)
  (← IO.getStdout).putStr (String.ofList finish.output)
  store finish
  return finish.exitCode.toUInt32

end SourceSurvey.Command

/-- Runs the command. -/
def main (arguments : List String) : IO UInt32 := SourceSurvey.Command.perform arguments
