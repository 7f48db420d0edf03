import SourceSurvey.Files.Failure
import SourceSurvey.Files.Path
import SourceSurvey.Text.Split

/-!
Trees of files. A tree is a value: looking something up follows links as a system would, and refuses
for the same reasons.
-/

namespace SourceSurvey.Files

/-- The name of an entry of a directory. It need not be text. -/
abbrev Name := List UInt8

/-- The name that a text spells. -/
def Name.of (text : String) : Name := Text.Utf8.encode text.toList

/-- What a name stands for. -/
inductive Node where
  | file (content : List UInt8)
  | directory (entries : List (Name × Node))
  | link (target : List UInt8)

/-- A tree of files, and the names that lead from its top to the directory in which relative paths
    begin. -/
structure Tree where
  top : Node
  working : List Name

namespace Node

/-- What a name stands for in a directory. -/
def child? (name : Name) : Node → Option Node
  | directory entries => entries.lookup name
  | _ => none

/-- What some names lead to, without following links. -/
def at? : Node → List Name → Option Node
  | node, [] => some node
  | node, name :: rest => (node.child? name).bind fun child => child.at? rest

/-- Whether a node is a directory. -/
def isDirectory : Node → Bool
  | directory _ => true
  | _ => false

/-- Whether a node is a file. -/
def isFile : Node → Bool
  | file _ => true
  | _ => false

/-- The entries with one more or one replaced. -/
def putEntry (name : Name) (node : Node) : List (Name × Node) → List (Name × Node)
  | [] => [(name, node)]
  | (other, old) :: rest =>
    if other = name then (name, node) :: rest else (other, old) :: putEntry name node rest

/-- The tree with a node in the place that some names lead to. Where they lead nowhere, nothing
    changes. -/
def put (node : Node) : List Name → Node → Node
  | [], _ => node
  | [name], directory entries => directory (putEntry name node entries)
  | name :: rest, directory entries =>
    match entries.lookup name with
    | some child => directory (putEntry name (put node rest child) entries)
    | none => directory entries
  | _, other => other

end Node

/-- Where a path leads: to something, or to a free name in a directory. -/
inductive Spot where
  | taken (names : List Name)
  | free (names : List Name)
  deriving DecidableEq

/-- The number of bytes that a name may have. -/
def nameLimit : Nat := 255

/-- The number of bytes that a path may have. -/
def pathLimit : Nat := 4095

/-- The number of links that one path may lead through. -/
def linkLimit : Nat := 40

namespace Tree

/-- Follows steps from a directory. `followLast` says whether a link at the very end is followed
    too; `links` is how many links may still be met. The names so far are in reverse. -/
def follow (top : Node) (followLast : Bool) (links : Nat) (here : List Name) :
    List Name → Except Failure Spot
  | [] => .ok (.taken here.reverse)
  | step :: rest =>
    match top.at? here.reverse with
    | some (.directory entries) =>
      if step = [] ∨ step = [Path.dot] then follow top followLast links here rest
      else if step = [Path.dot, Path.dot] then follow top followLast links (here.drop 1) rest
      else if nameLimit < step.length then .error .nameTooLong
      else
        match entries.lookup step with
        | none =>
          if rest.all (·.isEmpty) then .ok (.free (step :: here).reverse) else .error .notFound
        | some (.link target) =>
          if rest.isEmpty && !followLast then .ok (.taken (step :: here).reverse)
          else
            match links with
            | 0 => .error .tooManyLinks
            | links + 1 =>
              follow top followLast links (if Path.isAbsolute target then [] else here)
                (Text.split Path.slash target ++ rest)
        | some _ => follow top followLast links (step :: here) rest
    | _ => .error .notDirectory
termination_by steps => (links, steps.length)

/-- Where a path leads. -/
def locate (t : Tree) (followLast : Bool) (path : List UInt8) : Except Failure Spot :=
  if path.contains 0 then .error .zeroInPath
  else if path.isEmpty then .error .notFound
  else if pathLimit < path.length then .error .nameTooLong
  else
    follow t.top followLast linkLimit (if Path.isAbsolute path then [] else t.working.reverse)
      (Text.split Path.slash path)

/-- The names that a path leads along once all links are followed. -/
def names (t : Tree) (path : List UInt8) : Except Failure (List Name) := do
  match ← t.locate true path with
  | .taken names => return names
  | .free _ => throw .notFound

/-- What a path leads to. -/
def find (t : Tree) (path : List UInt8) : Except Failure Node := do
  match t.top.at? (← t.names path) with
  | some node => return node
  | none => throw .notFound

/-- The bytes of the file that a path leads to. -/
def read (t : Tree) (path : List UInt8) : Except Failure (List UInt8) := do
  match ← t.find path with
  | .file content => return content
  | .directory _ => throw .isDirectory
  | .link _ => throw .tooManyLinks

/-- Whether a path leads to a directory. -/
def isDirectory (t : Tree) (path : List UInt8) : Bool :=
  match t.find path with
  | .ok node => node.isDirectory
  | .error _ => false

end Tree

end SourceSurvey.Files
