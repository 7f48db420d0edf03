import SourceSurvey.Config
import SourceSurvey.FileName
import SourceSurvey.Files.Ignore

/-!
The files of a tree that take part in a survey: those below a directory, reached through directories
alone, that nothing excludes and whose names have a supported ending.
-/

namespace SourceSurvey.Scan

open Files

/-- Why nothing could be scanned. -/
inductive Failure where
  | rootMissing (root : List UInt8) (cause : Files.Failure)
  | rootNotDirectory (root : List UInt8)
  | badPattern (line : List Char) (problem : Glob.Problem)
  deriving DecidableEq

/-- What went wrong, and what was behind it. -/
def Failure.messages : Failure → List String
  | rootMissing root cause =>
    ["Scan root does not exist: " ++ String.ofList (Path.text root), cause.message]
  | rootNotDirectory root => ["Scan root is not a directory: " ++ String.ofList (Path.text root)]
  | badPattern line problem =>
    ["error parsing glob '" ++ String.ofList line ++ "': " ++ problem.message]

/-- A file that takes part: its path, and as text its path below the scanned directory and its
    name. -/
structure Entry where
  path : List UInt8
  relative : List Char
  name : List Char
  deriving DecidableEq

/-- The lines of an ignore file that stand for an excluded name: the name anywhere, and everything
    below it. A blank name stands for nothing. -/
def exclusionLines (excluded : List Char) : List (List Char) :=
  let isSlash (c : Char) : Bool := c == '/'
  let name :=
    (((Text.trim excluded).dropWhile isSlash).reverse.dropWhile isSlash).reverse
  if name.isEmpty then []
  else [['!', '*', '*', '/'] ++ name, ['!', '*', '*', '/'] ++ name ++ ['/', '*', '*']]

/-- The rule that a line stands for. -/
def exclusionRule (line : List Char) : Except Failure (Option Rule) :=
  (Rule.parse? false line).mapError (Failure.badPattern (Rule.trimLine line))

/-- The rules for the excluded names. -/
def exclusions (excluded : List String) : Except Failure (List Rule) := do
  let rules ← (excluded.flatMap fun name => exclusionLines name.toList).mapM exclusionRule
  return rules.filterMap id

/-- The path to what is found at some names below a root. -/
def pathBelow (root : List UInt8) (names : List Name) : List UInt8 := names.foldl Path.join root

/-- Whether a path is a lone dash, but for slashes and dots behind it. A walk takes that for a stream,
    whatever it leads to. -/
def isStream (path : List UInt8) : Bool :=
  match Text.split Path.slash path with
  | first :: rest => first == Name.of "-" && rest.all fun step => step == [] || step == [Path.dot]
  | [] => false

/-- What a walk through a tree needs to know. -/
structure Walk where
  tree : Tree
  /-- The path to the scanned directory as it was asked for. -/
  start : List UInt8
  /-- The names that lead to the scanned directory. -/
  root : List Name
  excluded : List Rule
  respectIgnoreFiles : Bool

namespace Walk

/-- Whether a name is hidden. -/
def isHidden (name : Name) : Bool := name.head? == some Path.dot

/-- What the exclusions say about a path, whose names are given in reverse. They are read the other
    way round from ignore rules: what is wanted after all there is left out here. If a rule asks for
    files, then files that no rule asks for are left out too. -/
def exclusion (w : Walk) (path : List Name) (isDirectory : Bool) : Verdict :=
  match verdict w.excluded (Text.join [Path.slash] path.reverse) isDirectory with
  | .wanted => .ignored
  | .ignored => .wanted
  | .silent =>
    if w.excluded.any (fun rule => !rule.wanted) && !isDirectory then .ignored else .silent

/-- Whether a path takes part as far as ignore files and hidden names go. -/
def heeds (w : Walk) (layers : List Layer) (path : List Name) (isDirectory : Bool) : Bool :=
  match ignoreVerdict layers (path ++ w.root.reverse) isDirectory with
  | .ignored => false
  | .wanted => true
  | .silent => !(path.head?.any isHidden)

/-- Whether something takes part. Ignore files and hidden names only count where the exclusions are
    silent. -/
def passes (w : Walk) (layers : List Layer) (path : List Name) (isDirectory : Bool) : Bool :=
  match w.exclusion path isDirectory with
  | .ignored => false
  | .wanted => true
  | .silent => !w.respectIgnoreFiles || w.heeds layers path isDirectory

/-- The layers in a directory, with that of the directory itself. -/
def enter (w : Walk) (path : List Name) (layers : List Layer) : List Layer :=
  if w.respectIgnoreFiles then
    Layer.ofDirectory w.tree (w.root ++ path.reverse) :: layers
  else []

/-- Whether the directory at some names, given in reverse, can be opened. The path to it must not be
    too long. -/
def opens (w : Walk) (path : List Name) : Bool :=
  (pathBelow w.start path.reverse).length ≤ pathLimit

/-- Whether a path leads to a file in the end. -/
def leadsToFile (w : Walk) (path : List Name) : Bool :=
  match w.tree.find (pathBelow w.start path.reverse) with
  | .ok node => node.isFile
  | .error _ => false

mutual

/-- The files at or below a node. A link counts if it leads to a file, and is not entered; a directory
    that cannot be opened is passed over. -/
def nodeFiles (w : Walk) (layers : List Layer) (path : List Name) : Node → List (List Name)
  | .file _ => [path]
  | .link _ => if w.leadsToFile path then [path] else []
  | .directory entries =>
    if w.opens path then entriesFiles w (w.enter path layers) path entries else []

/-- The files at or below some entries of a directory. -/
def entriesFiles (w : Walk) (layers : List Layer) (path : List Name) :
    List (Name × Node) → List (List Name)
  | [] => []
  | (name, node) :: rest =>
    (if w.passes layers (name :: path) node.isDirectory then
      nodeFiles w layers (name :: path) node
    else []) ++ entriesFiles w layers path rest

end

/-- The layers above the scanned directory. -/
def outside (w : Walk) : List Layer :=
  if w.respectIgnoreFiles then
    match w.root.reverse with
    | [] => []
    | _ :: above => layersOf w.tree above
  else []

/-- The files that a walk finds, with their names in order. A stream is no file. -/
def files (w : Walk) (node : Node) : List (List Name) :=
  if isStream w.start then [] else (w.nodeFiles w.outside [] node).map List.reverse

end Walk

/-- The entry for a file that is found at some names below a root. -/
def Entry.of (root : List UInt8) (names : List Name) : Entry where
  path := pathBelow root names
  relative := Path.shown (Text.join [Path.slash] names)
  name := Path.text (names.getLast?.getD [])

/-- The entries of a scan, by their relative paths. -/
def entries (t : Tree) (root : List UInt8) (options : ScanConfig) :
    Except Failure (List Entry) := do
  let names ← (t.names root).mapError (Failure.rootMissing root)
  match t.top.at? names with
  | some (.directory content) =>
    let walk : Walk := ⟨t, root, names, ← exclusions options.excluded, options.respectIgnoreFiles⟩
    let found := (walk.files (.directory content)).map (Entry.of root)
    return (found.filter fun entry => FileName.isSupported entry.name).mergeSort
      fun a b => String.ofList a.relative ≤ String.ofList b.relative
  | _ => throw (.rootNotDirectory root)

end SourceSurvey.Scan
