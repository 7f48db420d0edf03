import SourceSurvey.Files.Tree
import SourceSurvey.Json.Form

/-!
The settings of a survey, and the file in the scanned directory that may hold them.
-/

namespace SourceSurvey

open Json

/-- What a scan leaves out. -/
structure ScanConfig where
  /-- Patterns for names of directories or files. -/
  excluded : List String
  /-- Whether ignore files and hidden names are heeded. -/
  respectIgnoreFiles : Bool
  deriving DecidableEq

/-- Whether and how long a history is asked for. -/
structure HistoryConfig where
  enabled : Bool
  timeoutSeconds : Nat
  deriving DecidableEq

/-- The settings of a survey. -/
structure Config where
  /-- Where the survey is written, seen from the scanned directory. -/
  outputDirectory : String
  /-- Whether files are read side by side. The survey is the same either way. -/
  parallel : Bool
  scan : ScanConfig
  history : HistoryConfig
  deriving DecidableEq

namespace Config

/-- The name of the file with the settings. -/
def fileName : String := ".codescribe.json"

/-- The name of the file that a survey is written to. -/
def outputName : String := "parsed_code.json"

/-- What is scanned when nothing is set: everything. -/
def scanDefault : ScanConfig := ⟨[], false⟩

/-- How a history is read when nothing is set. -/
def historyDefault : HistoryConfig := ⟨true, 30⟩

/-- The settings when nothing is set. -/
def default : Config := ⟨".codescribe", true, scanDefault, historyDefault⟩

/-- The form of the settings of a scan. -/
def scanForm : Form ScanConfig where
  title := "ScanConfig"
  blank := scanDefault
  fields := [
    .free "exclude_dir_names" (.list .text) fun v c => { c with excluded := v },
    .free "respect_ignore_files" .boolean fun v c => { c with respectIgnoreFiles := v }]

/-- The form of the settings of a history. -/
def historyForm : Form HistoryConfig where
  title := "HistoryConfig"
  blank := historyDefault
  fields := [
    .free "enabled" .boolean fun v c => { c with enabled := v },
    .free "timeout_secs" .natural fun v c => { c with timeoutSeconds := v }]

/-- The form of all settings. -/
def form : Form Config where
  title := "Config"
  blank := default
  fields := [
    .free "output_dir" (Reader.textAs "path string") fun v c => { c with outputDirectory := v },
    .free "parallel" .boolean fun v c => { c with parallel := v },
    .free "scan" scanForm.read fun v c => { c with scan := v },
    .free "history" historyForm.read fun v c => { c with history := v }]

/-- The settings that a text gives. -/
def ofText (text : List Char) : Except Fault Config := form.ofText text

/-- The path of the file with the settings for a directory. -/
def path (root : List UInt8) : List UInt8 := Files.Path.join root (Files.Name.of fileName)

/-- The settings for a directory, and what is wrong with the file that should hold them. A file that
    cannot be read, or is no text, counts as none; where something is wrong, nothing is set. -/
def load (t : Files.Tree) (root : List UInt8) : Config × Option Fault :=
  match (t.read (path root)).toOption.bind Text.Utf8.decode? with
  | none => (default, none)
  | some text =>
    match ofText text with
    | .ok config => (config, none)
    | .error fault => (default, some fault)

/-- Where the survey of a directory is written. -/
def outputPath (config : Config) (root : List UInt8) : List UInt8 :=
  Files.Path.join (Files.Path.join root (Text.Utf8.encode config.outputDirectory.toList))
    (Files.Name.of outputName)

end Config

end SourceSurvey
