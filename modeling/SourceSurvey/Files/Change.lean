import SourceSurvey.Files.Tree

/-!
Changes of a tree of files: new directories, links, and files that are written. A change that is
refused half way keeps what it has done before.
-/

namespace SourceSurvey.Files

/-- Something that changes a tree or is refused. -/
abbrev Change := ExceptT Failure (StateM Tree)

namespace Change

/-- Puts a node in the place that some names lead to. -/
def put (names : List Name) (node : Node) : Change Unit :=
  modify fun t => { t with top := Node.put node names t.top }

/-- Puts a node where a path leads to a free name. -/
def create (path : List UInt8) (node : Node) : Change Unit := do
  match ← (← get).locate false path with
  | .taken _ => throw .alreadyExists
  | .free names => put names node

/-- Makes a directory. -/
def makeDirectory (path : List UInt8) : Change Unit := create path (.directory [])

/-- Makes a directory, and content with one that is there. -/
def ensureDirectory (path : List UInt8) : Change Unit :=
  tryCatch (makeDirectory path) fun failure => do
    unless (← get).isDirectory path do throw failure

/-- Makes a directory and those above it. The number bounds the steps upwards. -/
def makeDirectories : Nat → List UInt8 → Change Unit
  | 0, path => ensureDirectory path
  | n + 1, path => do
    unless path.isEmpty do
      tryCatch (makeDirectory path) fun failure => do
        if failure = Failure.notFound then
          match Path.parent? path with
          | some parent => makeDirectories n parent
          | none => throw failure
          ensureDirectory path
        else unless (← get).isDirectory path do throw failure

/-- Makes a directory and all that are missing above it. -/
def makeAll (path : List UInt8) : Change Unit := makeDirectories (path.length + 1) path

/-- Whether a path leads to the file that is made where it leads to a free name. Behind a link that
    ends in a slash it does not, as it asks for a directory there. -/
def takesFile (t : Tree) (path : List UInt8) (names : List Name) : Bool :=
  let made : Tree := { t with top := Node.put (.file []) names t.top }
  (made.names path).toOption == some names

/-- Writes a file, which is made if its name is free. Links are followed. A path that ends in a slash
    cannot name a file. -/
def write (path : List UInt8) (content : List UInt8) : Change Unit := do
  let t ← get
  if path.getLast? == some Path.slash then
    let _ ← t.find ((Path.parent? path).getD path)
    throw .isDirectory
  match ← t.locate true path with
  | .free names => if takesFile t path names then put names (.file content) else throw .isDirectory
  | .taken names =>
    match t.top.at? names with
    | some (.file _) => put names (.file content)
    | _ => throw .isDirectory

/-- Makes a link. -/
def link (path target : List UInt8) : Change Unit := create path (.link target)

end Change

/-- The tree after a change, and whether it was refused. -/
def Tree.after {α : Type} (t : Tree) (change : Change α) : Except Failure α × Tree :=
  StateT.run (ExceptT.run change) t

end SourceSurvey.Files
