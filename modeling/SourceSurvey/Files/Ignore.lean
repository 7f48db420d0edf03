import SourceSurvey.Files.Glob
import SourceSurvey.Files.Tree
import SourceSurvey.Text.Blank

/-!
Ignore files. A file is a list of rules, of which the last that covers a path decides; the files of a
directory and of those above it form layers, of which the nearest with an opinion decides.
-/

namespace SourceSurvey.Files

/-- A rule: the paths it covers, whether only directories count, and whether they are wanted after
    all. -/
structure Rule where
  pieces : List Glob.Piece
  onlyDirectories : Bool
  wanted : Bool

namespace Rule

/-- Whether a text ends in another one. -/
def endsIn (ending text : List Char) : Bool := ending.isSuffixOf text

/-- A line without the blanks at its end, unless the last of them is escaped. -/
def trimLine (line : List Char) : List Char :=
  if endsIn ['\\', ' '] line then line else Text.trimEnd line

/-- The parts of a line: whether it asks for paths after all, whether it begins at the top, and its
    pattern. A backslash takes the meaning from a first character. -/
def opening (line : List Char) : Bool × Bool × List Char :=
  match line with
  | '\\' :: c :: rest =>
    if c = '!' ∨ c = '#' then (false, false, c :: rest) else (false, false, line)
  | '!' :: '/' :: rest => (true, true, rest)
  | '!' :: rest => (true, false, rest)
  | '/' :: rest => (false, true, rest)
  | rest => (false, false, rest)

/-- The pattern that a rule matches with: one without a slash is looked for in every directory, and
    one for everything below a directory leaves the directory itself out. -/
def wholePattern (fromTop : Bool) (pattern : List Char) : List Char :=
  let anywhere := !fromTop && !pattern.contains '/' && pattern != ['*', '*']
  let pattern := if anywhere then '*' :: '*' :: '/' :: pattern else pattern
  if endsIn ['/', '*', '*'] pattern then pattern ++ ['/', '*'] else pattern

/-- The rule on a line. Blank lines and comments hold none. -/
def parse? (lenient : Bool) (line : List Char) : Except Glob.Problem (Option Rule) := do
  let trimmed := trimLine line
  if trimmed.head? == some '#' || trimmed.isEmpty then return none
  let (wanted, fromTop, pattern) := opening trimmed
  let onlyDirectories := endsIn ['/'] pattern
  let pattern :=
    if endsIn ['\\', '/'] pattern then pattern.dropLast.dropLast
    else if onlyDirectories then pattern.dropLast
    else pattern
  let pieces ← Glob.parse lenient (wholePattern fromTop pattern)
  return some ⟨pieces, onlyDirectories, wanted⟩

/-- Whether a rule covers something. -/
def covers (rule : Rule) (path : List UInt8) (isDirectory : Bool) : Bool :=
  (!rule.onlyDirectories || isDirectory) && Glob.covers rule.pieces path

end Rule

/-- What some rules say about a path. -/
inductive Verdict where
  | silent
  | ignored
  | wanted
  deriving DecidableEq

/-- The first verdict that says something. -/
def Verdict.first : List Verdict → Verdict
  | [] => silent
  | silent :: rest => first rest
  | verdict :: _ => verdict

/-- What a list of rules says: the last rule that covers the path counts. -/
def verdict (rules : List Rule) (path : List UInt8) (isDirectory : Bool) : Verdict :=
  match rules.reverse.find? fun rule => rule.covers path isDirectory with
  | none => .silent
  | some rule => if rule.wanted then .wanted else .ignored

/-- The rules in an ignore file. Lines with a faulty pattern are passed over; one that is no text
    ends the file; marks of byte order before the first line do not count. -/
def rulesOf (content : List UInt8) : List Rule :=
  let texts := ((Text.split 10 content).map Text.Utf8.decode?).takeWhile (·.isSome)
  let texts := match Text.lines (Text.join ['\n'] (texts.filterMap id)) with
    | [] => []
    | line :: rest => line.dropWhile (· == '\uFEFF') :: rest
  texts.filterMap fun line =>
    match Rule.parse? true line with
    | .ok rule => rule
    | .error _ => none

/-- What the files of one directory say, and whether a working copy begins in it. -/
structure Layer where
  plain : List Rule
  shared : List Rule
  own : List Rule
  isWorkingCopy : Bool

namespace Layer

/-- The rules in a file of a directory, if it can be read. -/
def rulesAt (t : Tree) (directory : List Name) (names : List Name) : List Rule :=
  match t.read (Path.slash :: Text.join [Path.slash] (directory ++ names)) with
  | .ok content => rulesOf content
  | .error _ => []

/-- Whether a directory has an entry that leads somewhere. -/
def has (t : Tree) (directory : List Name) (name : Name) : Bool :=
  match t.find (Path.slash :: Text.join [Path.slash] (directory ++ [name])) with
  | .ok _ => true
  | .error _ => false

/-- The layer of a directory. -/
def ofDirectory (t : Tree) (directory : List Name) : Layer where
  plain := rulesAt t directory [Name.of ".ignore"]
  shared := rulesAt t directory [Name.of ".gitignore"]
  own := rulesAt t directory [Name.of ".git", Name.of "info", Name.of "exclude"]
  isWorkingCopy := has t directory (Name.of ".git") || has t directory (Name.of ".jj")

end Layer

/-- The layers of a directory and of all above it, the nearest first. The names are given in
    reverse. -/
def layersOf (t : Tree) : List Name → List Layer
  | [] => [Layer.ofDirectory t []]
  | name :: above => Layer.ofDirectory t (name :: above).reverse :: layersOf t above

/-- The layers up to the nearest working copy, or none where there is none. -/
def ofWorkingCopy : List Layer → List Layer
  | [] => []
  | layer :: rest =>
    if layer.isWorkingCopy then [layer]
    else
      match ofWorkingCopy rest with
      | [] => []
      | others => layer :: others

/-- What one kind of rules says in the layers around a path. The names of the path are given in
    reverse; each layer sees the path from its own directory. -/
def layersVerdict (rules : Layer → List Rule) (path : List Name) (isDirectory : Bool)
    (layers : List Layer) : Verdict :=
  Verdict.first <| layers.mapIdx fun i layer =>
    verdict (rules layer) (Text.join [Path.slash] (path.take (i + 1)).reverse) isDirectory

/-- What all layers say. Plain rules go before shared ones and these before a copy's own; the last
    two only count within a working copy. -/
def ignoreVerdict (layers : List Layer) (path : List Name) (isDirectory : Bool) : Verdict :=
  Verdict.first [layersVerdict Layer.plain path isDirectory layers,
    layersVerdict Layer.shared path isDirectory (ofWorkingCopy layers),
    layersVerdict Layer.own path isDirectory (ofWorkingCopy layers)]

end SourceSurvey.Files
