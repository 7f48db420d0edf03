import SourceSurvey.Json.Problem

/-!
A text that is being read, and the steps that every reader is made of. A reader keeps its place when
it fails, so that what encloses it can still look for its end.
-/

namespace SourceSurvey.Json

/-- The part of a text that is still to be read, and where it begins. -/
structure Input where
  rest : List Char
  place : Place

/-- The place behind a character. -/
def Place.after (place : Place) (c : Char) : Place :=
  if c = '\n' then ⟨place.line + 1, 0⟩ else ⟨place.line, place.column + c.utf8Size⟩

/-- The place a number of bytes further on. It may lie inside of a character; the end of the text is
    not passed. -/
def Place.afterBytes : Place → Nat → List Char → Place
  | place, 0, _ => place
  | place, _, [] => place
  | place, n + 1, c :: rest =>
    if c.utf8Size ≤ n + 1 then (place.after c).afterBytes (n + 1 - c.utf8Size) rest
    else ⟨place.line, place.column + (n + 1)⟩
termination_by _ n rest => (rest, n)

namespace Input

/-- A text from its beginning. -/
def ofText (text : List Char) : Input := ⟨text, ⟨1, 0⟩⟩

/-- The input behind its first character. -/
def advance (input : Input) : Input :=
  match input.rest with
  | [] => input
  | c :: rest => ⟨rest, input.place.after c⟩

/-- The input behind a run of characters of a class. -/
def skipWhile (class? : Char → Bool) (input : Input) : Input :=
  ⟨input.rest.dropWhile class?, (input.rest.takeWhile class?).foldl Place.after input.place⟩

end Input

/-- A reader of values. -/
abbrev Reader := ExceptT Fault (StateM Input)

/-- Whether a character only separates. -/
def isSpace (c : Char) : Bool := c == ' ' || c == '\n' || c == '\t' || c == '\r'

namespace Reader

/-- The next character, which stays where it is. -/
def peek : Reader (Option Char) := return (← get).rest.head?

/-- Passes over the next character. -/
def advance : Reader Unit := modify Input.advance

/-- Passes over separators; the next character. -/
def settle : Reader (Option Char) := do
  modify (Input.skipWhile isSpace)
  peek

/-- The characters of a class that come next, which are passed over. -/
def run (class? : Char → Bool) : Reader (List Char) := do
  let input ← get
  set (input.skipWhile class?)
  return input.rest.takeWhile class?

/-- Fails in front of the next character. -/
def failHere {α : Type} (problem : Problem) : Reader α := do
  throw ⟨problem, some (← get).place⟩

/-- Fails at the place a number of bytes on. -/
def failAfter {α : Type} (bytes : Nat) (problem : Problem) : Reader α := do
  let input ← get
  throw ⟨problem, some (input.place.afterBytes bytes input.rest)⟩

/-- Fails at the next byte, or at the end of the text if there is none. -/
def failNext {α : Type} (problem : Problem) : Reader α := failAfter 1 problem

/-- Fails at a place that is settled later. -/
def failLater {α : Type} (problem : Problem) : Reader α := throw ⟨problem, none⟩

/-- Settles the place of a failure that has none, where its reader stopped. -/
def placed {α : Type} (reader : Reader α) : Reader α :=
  tryCatch reader fun fault =>
    match fault.place with
    | some _ => throw fault
    | none => failHere fault.problem

/-- Reads the inside of brackets and then its end. The end is looked for even where the inside
    fails, and the failure of the inside goes before. -/
def closedBy {α : Type} (inside : Reader α) (close : Reader Unit) : Reader α := do
  let result : Except Fault α ← (ExceptT.run inside : StateM Input _)
  let ending : Except Fault Unit ← (ExceptT.run close : StateM Input _)
  match result, ending with
  | .error fault, _ => throw fault
  | .ok _, .error fault => throw fault
  | .ok value, .ok () => return value

end Reader

end SourceSurvey.Json
