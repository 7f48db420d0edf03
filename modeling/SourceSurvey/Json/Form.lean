import SourceSurvey.Json.Skip

/-!
Readers of values of a wanted form: strings, truth values, numbers, lists, and records. A record is
written as an object, whose members come in any order and among which unknown ones are passed over,
or as a list of its members in their order.
-/

namespace SourceSurvey.Json

namespace Reader

/-- Fails at a value that is not of the wanted form, and reads it as far as its kind shows. -/
def unexpected {α : Type} (expected : String) : Reader α := do
  match ← peek with
  | some 'n' =>
    advance
    letters ['u', 'l', 'l']
    failLater (.wrongType .null expected)
  | some 't' =>
    advance
    letters ['r', 'u', 'e']
    failLater (.wrongType (.boolean true) expected)
  | some 'f' =>
    advance
    letters ['a', 'l', 's', 'e']
    failLater (.wrongType (.boolean false) expected)
  | some '"' => failLater (.wrongType (.string (← stringBody)) expected)
  | some '[' => failLater (.wrongType .sequence expected)
  | some '\x7b' => failLater (.wrongType .map expected)
  | some c =>
    if c == '-' || c.isDigit then failLater (.wrongType (← amount).found expected)
    else failNext .expectedValue
  | none => failNext .expectedValue

/-- Reads a value that begins with one of some characters; each begins a way to go on. -/
def expecting {α : Type} (expected : String) (choose : Char → Option (Reader α)) : Reader α :=
  placed do
    match ← settle with
    | none => failNext .endInValue
    | some c => (choose c).getD (unexpected expected)

/-- Reads a string of which it is said what it should be. -/
def textAs (expected : String) : Reader String :=
  expecting expected fun c => if c = '"' then some (String.ofList <$> stringBody) else none

/-- Reads a string. -/
def text : Reader String := textAs "a string"

/-- Reads a truth value. -/
def boolean : Reader Bool :=
  expecting "a boolean" fun
    | 't' => some do
      advance
      letters ['r', 'u', 'e']
      return true
    | 'f' => some do
      advance
      letters ['a', 'l', 's', 'e']
      return false
    | _ => none

/-- Reads a natural number that fits into a machine word. -/
def natural : Reader Nat :=
  expecting "u64" fun c =>
    if c == '-' || c.isDigit then some do
      match ← amount with
      | .unsigned n => return n
      | .negative n => failLater (.wrongValue (.integer (-(n : Int))) "u64")
      | .floating x => failLater (.wrongType (.floating x) "u64")
    else none

/-- Reads nothing, written as null, or a value. -/
def optional {α : Type} (value : Reader α) : Reader (Option α) := do
  match ← settle with
  | some 'n' =>
    advance
    letters ['u', 'l', 'l']
    return none
  | _ => some <$> value

/-- Whether an element comes next in a list. Behind an element a comma is needed, and behind a comma
    an element. -/
def hasElement (behind : Bool) : Reader Bool := do
  match ← settle with
  | none => failNext .endInList
  | some ']' => return false
  | some c =>
    if behind then
      if c = ',' then
        advance
        match ← settle with
        | none => failNext .endInValue
        | some ']' => failNext .trailingComma
        | some _ => return true
      else failNext .expectedListCommaOrEnd
    else return true

/-- Reads the end of a list. -/
def listEnd : Reader Unit := do
  match ← settle with
  | none => failNext .endInList
  | some ']' => advance
  | some ',' =>
    advance
    if (← settle) == some ']' then failNext .trailingComma else failNext .trailingCharacters
  | some _ => failNext .trailingCharacters

/-- Reads the elements of a list, up to its end. The ones read before are given in reverse; the
    number bounds those to come. -/
def elements {α : Type} (element : Reader α) : Nat → Bool → List α → Reader (List α)
  | 0, _, _ => failHere .endInList
  | n + 1, behind, reversed => do
    if ← hasElement behind then
      let value ← element
      elements element n true (value :: reversed)
    else return reversed.reverse

/-- Reads a list. -/
def list {α : Type} (element : Reader α) : Reader (List α) :=
  expecting "a sequence" fun c =>
    if c = '[' then some do
      advance
      closedBy (do elements element ((← get).rest.length + 1) false []) listEnd
    else none

/-- Whether a member comes next in an object; its key is then next. -/
def hasMember (behind : Bool) : Reader Bool := do
  match ← settle with
  | none => failNext .endInObject
  | some '\x7d' => return false
  | some c =>
    if behind then
      if c = ',' then
        advance
        match ← settle with
        | none => failNext .endInValue
        | some '"' => return true
        | some '\x7d' => failNext .trailingComma
        | some _ => failNext .keyNotString
      else failNext .expectedObjectCommaOrEnd
    else if c = '"' then return true
    else failNext .keyNotString

/-- Reads the end of an object. -/
def objectEnd : Reader Unit := do
  match ← settle with
  | none => failNext .endInObject
  | some '\x7d' => advance
  | some ',' => failNext .trailingComma
  | some _ => failNext .trailingCharacters

/-- Reads the colon between a key and its value. -/
def colon : Reader Unit := do
  match ← settle with
  | none => failNext .endInObject
  | some ':' => advance
  | some _ => failNext .expectedColon

end Reader

/-- A member of a record: its key, whether it has to be given, and how its value changes the
    record. -/
structure Field (α : Type) where
  key : String
  required : Bool
  change : Reader (α → α)

/-- A field that has to be given. -/
def Field.needed {α β : Type} (key : String) (value : Reader β) (put : β → α → α) : Field α :=
  ⟨key, true, put <$> value⟩

/-- A field that may be left out. -/
def Field.free {α β : Type} (key : String) (value : Reader β) (put : β → α → α) : Field α :=
  ⟨key, false, put <$> value⟩

/-- A form of records: its title, the record in which nothing has been filled in, and its fields. -/
structure Form (α : Type) where
  title : String
  blank : α
  fields : List (Field α)

namespace Form

variable {α : Type}

/-- The first field that has to be given and is not among the keys. -/
def missing? (form : Form α) (given : List String) : Option (Field α) :=
  form.fields.find? fun field => field.required && !given.contains field.key

/-- Fills in the members of an object, up to its end. The number bounds those to come; the keys
    given so far are known. -/
def fillMembers (form : Form α) : Nat → List String → α → Bool → Reader α
  | 0, _, _, _ => Reader.failHere .endInObject
  | n + 1, given, record, behind => do
    if ← Reader.hasMember behind then
      let key := String.ofList (← Reader.stringBody)
      match form.fields.find? fun field => field.key == key with
      | some field =>
        if given.contains key then Reader.failLater (.duplicateField key)
        Reader.colon
        let change ← field.change
        fillMembers form n (key :: given) (change record) true
      | none =>
        Reader.colon
        Reader.skipValue
        fillMembers form n given record true
    else
      match form.missing? given with
      | some field => Reader.failLater (.missingField field.key)
      | none => return record

/-- Fills in fields from the elements of a list, in their order. The list may end before a field
    that need not be given. -/
def fillElements (form : Form α) : Nat → List (Field α) → α → Reader α
  | _, [], record => return record
  | index, field :: rest, record => do
    if ← Reader.hasElement (0 < index) then
      let change ← field.change
      fillElements form (index + 1) rest (change record)
    else if field.required then
      Reader.failLater (.wrongLength index form.title form.fields.length)
    else fillElements form index rest record

/-- Reads a record. -/
def read (form : Form α) : Reader α :=
  Reader.expecting ("struct " ++ form.title) fun
    | '[' => some do
      Reader.advance
      Reader.closedBy (form.fillElements 0 form.fields form.blank) Reader.listEnd
    | '\x7b' => some do
      Reader.advance
      Reader.closedBy (do form.fillMembers ((← get).rest.length + 1) [] form.blank false)
        Reader.objectEnd
    | _ => none

/-- The record that a text consists of. -/
def ofText (form : Form α) (text : List Char) : Except Fault α :=
  let whole : Reader α := do
    let record ← form.read
    match ← Reader.settle with
    | none => return record
    | some _ => Reader.failNext .trailingCharacters
  ((ExceptT.run whole : StateM Input _).run (.ofText text)).1

end Form

end SourceSurvey.Json
