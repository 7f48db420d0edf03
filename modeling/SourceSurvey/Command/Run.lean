import SourceSurvey.Command.Args
import SourceSurvey.Survey

/-!
A run of the command: what it prints, how it ends, and what becomes of the files.
-/

namespace SourceSurvey.Command

open Files

/-- The end of a run. -/
structure Finish where
  exitCode : Nat
  output : List Char
  notes : List Char
  /-- The directory whose history was asked for. -/
  asked : Option (List UInt8)
  /-- The file that was written. -/
  written : Option (List UInt8)
  tree : Tree

/-- The name and version of the command. -/
def versionText : List Char := "codescribe 0.1.0\n".toList

/-- The description of the command. -/
def helpText : List Char :=
  ("Extract imports, functions, classes and git history from a source tree into JSON\n\n" ++
    "Usage: codescribe [OPTIONS] [ROOT]\n\n" ++
    "Arguments:\n" ++
    "  [ROOT]  Directory to scan [default: .]\n\n" ++
    "Options:\n" ++
    "  -o, --output <FILE>        Write the document here instead of " ++
    "\x7bROOT\x7d/\x7boutput_dir\x7d/parsed_code.json\n" ++
    "      --git-dir <DIR>        Read git history from this working copy instead of ROOT\n" ++
    "      --stdout               Also print the document to stdout\n" ++
    "      --no-history           Skip the git log entirely\n" ++
    "      --sequential           Extract files one at a time instead of on the thread pool\n" ++
    "      --inspect <FILE_PATH>  Extract a single file and print its record as JSON\n" ++
    "  -h, --help                 Print help\n" ++
    "  -V, --version              Print version\n").toList

/-- A warning as a line. -/
def warningLine (warning : String) : List Char := ("WARN " ++ warning ++ "\n").toList

/-- What went wrong as lines, with what was behind it. -/
def errorLines : List String → List Char
  | [] => []
  | [message] => ("Error: " ++ message ++ "\n").toList
  | message :: cause :: _ =>
    ("Error: " ++ message ++ "\n\nCaused by:\n    " ++ cause ++ "\n").toList

/-- The line that a survey ends with. -/
def summaryLine (survey : Survey) (path : List UInt8) : List Char :=
  ("Parsing complete. " ++ toString survey.document.codebase.length ++ " files (" ++
    toString survey.errors ++ " with errors), " ++ toString survey.document.commits.length ++
    " commits. Results saved at " ++ String.ofList (Path.text path) ++ "\n").toList

/-- Looks at one file. -/
def inspect (t : Tree) (path : List UInt8) : Finish where
  exitCode := 0
  output := (Source.inspect t path).text ++ ['\n']
  notes := ((Source.remark? t path).map warningLine).getD []
  asked := none
  written := none
  tree := t

/-- The settings of a run: those for the scanned directory, as far as no argument changes them. -/
def settings (config : Config) (args : Args) : Config :=
  let history :=
    if args.noHistory then { config.history with enabled := false } else config.history
  { config with history, parallel := config.parallel && !args.sequential }

/-- The remark on a file with settings that cannot be used. -/
def settingsRemark (root : List UInt8) (fault : Json.Fault) : String :=
  "ignoring malformed " ++ String.ofList (Path.text (Config.path root)) ++ ": " ++ fault.message

/-- Surveys a directory and writes the survey. The history comes from a program that is run in a
    directory. -/
def survey (t : Tree) (tool : List UInt8 → History.Outcome) (args : Args) : Finish :=
  let root := Text.Utf8.encode (args.root.getD ['.'])
  let (config, fault) := Config.load t root
  let config := settings config args
  let remarks := ((fault.map fun fault => warningLine (settingsRemark root fault)).getD [])
  let path := (args.output.map Text.Utf8.encode).getD (config.outputPath root)
  let historyDirectory := args.historyDirectory.map Text.Utf8.encode
  let history (directory : List UInt8) := (tool directory).commits config.history.timeoutSeconds
  match Survey.build t ⟨root, historyDirectory, config⟩ history with
  | .error failure => ⟨1, [], remarks ++ errorLines failure.messages, none, none, t⟩
  | .ok survey =>
    let notes := remarks ++ survey.warnings.flatMap warningLine
    match survey.document.write path t with
    | (.error failure, t) => ⟨1, [], notes ++ errorLines failure.messages, survey.asked,
      none, t⟩
    | (.ok (), t) =>
      let output := if args.printed then survey.document.text ++ ['\n'] else []
      ⟨0, output, notes ++ summaryLine survey path, survey.asked, some path, t⟩

/-- Runs the command. -/
def run (t : Tree) (tool : List UInt8 → History.Outcome) (arguments : List String) : Finish :=
  match Reading.ofArguments arguments with
  | .refused reason => ⟨2, [], ("error: " ++ reason ++ "\n").toList, none, none, t⟩
  | .help => ⟨0, helpText, [], none, none, t⟩
  | .version => ⟨0, versionText, [], none, none, t⟩
  | .run args =>
    match args.inspected with
    | some path => inspect t (Text.Utf8.encode path)
    | none => survey t tool args

end SourceSurvey.Command
