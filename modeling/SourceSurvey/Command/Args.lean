import SourceSurvey.Text.Split

/-!
The arguments of the command. Options and flags may be given once each, anywhere before two dashes;
behind these, everything is a directory to scan.
-/

namespace SourceSurvey.Command

/-- What the arguments ask for. -/
structure Args where
  root : Option (List Char)
  output : Option (List Char)
  historyDirectory : Option (List Char)
  inspected : Option (List Char)
  printed : Bool
  noHistory : Bool
  sequential : Bool
  deriving DecidableEq

/-- What the arguments come to. -/
inductive Reading where
  | run (args : Args)
  | help
  | version
  | refused (reason : String)
  deriving DecidableEq

namespace Args

/-- Nothing is asked for. -/
def blank : Args := ⟨none, none, none, none, false, false, false⟩

/-- Something that is given with a value. -/
inductive Valued where
  | root
  | output
  | historyDirectory
  | inspected
  deriving DecidableEq

/-- Something that is switched on. -/
inductive Switch where
  | printed
  | noHistory
  | sequential
  deriving DecidableEq

/-- What an option is called for. -/
inductive Choice where
  | value (valued : Valued)
  | switch (switch : Switch)
  | help
  | version
  deriving DecidableEq

/-- The options by their long names. -/
def longNames : List (String × Choice) :=
  [("output", .value .output), ("git-dir", .value .historyDirectory), ("stdout", .switch .printed),
    ("no-history", .switch .noHistory), ("sequential", .switch .sequential),
    ("inspect", .value .inspected), ("help", .help), ("version", .version)]

/-- The options by their short names. -/
def shortNames : List (Char × Choice) := [('o', .value .output), ('h', .help), ('V', .version)]

/-- What has been given for something. -/
def given (args : Args) : Valued → Option (List Char)
  | .root => args.root
  | .output => args.output
  | .historyDirectory => args.historyDirectory
  | .inspected => args.inspected

/-- Whether something is switched on. -/
def isOn (args : Args) : Switch → Bool
  | .printed => args.printed
  | .noHistory => args.noHistory
  | .sequential => args.sequential

/-- Gives a value, which must not be empty and must not have been given before. -/
def give (args : Args) (valued : Valued) (value : List Char) : Except String Args :=
  if value.isEmpty then throw "a value is required"
  else if (args.given valued).isSome then throw "a value can be given only once"
  else
    return match valued with
      | .root => { args with root := some value }
      | .output => { args with output := some value }
      | .historyDirectory => { args with historyDirectory := some value }
      | .inspected => { args with inspected := some value }

/-- Switches something on, for the first time. -/
def turnOn (args : Args) (switch : Switch) : Except String Args :=
  if args.isOn switch then throw "a flag can be given only once"
  else
    return match switch with
      | .printed => { args with printed := true }
      | .noHistory => { args with noHistory := true }
      | .sequential => { args with sequential := true }

/-- What is asked for in the end. A file is looked at alone, without anything that only concerns
    surveys. -/
def finish (args : Args) : Reading :=
  if args.inspected.isSome &&
      (args.output.isSome || args.historyDirectory.isSome || args.printed) then
    .refused "a single file is inspected without survey options"
  else .run args

/-- One argument in the place where options may stand. -/
inductive Word where
  | dashes
  | option (choice : Choice) (value : Option (List Char))
  | unknown
  | plain (text : List Char)

/-- The option of a name, with the value that stands beside it. -/
def Word.ofChoice (choice : Option Choice) (value : Option (List Char)) : Word :=
  match choice with
  | some choice => .option choice value
  | none => .unknown

/-- Reads one argument. A value may follow a long name behind an equals sign, and a short name
    directly or behind an equals sign. -/
def Word.of (text : List Char) : Word :=
  match text with
  | ['-', '-'] => .dashes
  | '-' :: '-' :: long =>
    match Text.splitAtMost '=' 1 long with
    | [name, value] => .ofChoice (longNames.lookup (String.ofList name)) (some value)
    | _ => .ofChoice (longNames.lookup (String.ofList long)) none
  | ['-', short] => .ofChoice (shortNames.lookup short) none
  | '-' :: short :: '=' :: value => .ofChoice (shortNames.lookup short) (some value)
  | '-' :: short :: value =>
    match shortNames.lookup short with
    | some (.value valued) => .option (.value valued) (some value)
    | choice => .ofChoice choice none
  | text => .plain text

/-- Reads arguments behind two dashes. -/
def roots (args : Args) : List (List Char) → Reading
  | [] => args.finish
  | text :: rest =>
    match args.give .root text with
    | .ok args => roots args rest
    | .error reason => .refused reason

/-- Reads arguments. An option may still be waiting for its value. -/
def read (args : Args) (waiting : Option Valued) : List (List Char) → Reading
  | [] => if waiting.isSome then .refused "a value is required" else args.finish
  | text :: rest =>
    match Word.of text, waiting with
    | .plain text, waiting =>
      match args.give (waiting.getD .root) text with
      | .ok args => read args none rest
      | .error reason => .refused reason
    | _, some _ => .refused "a value is required"
    | .dashes, none => args.roots rest
    | .unknown, none => .refused "unexpected argument"
    | .option (.value valued) none, none => read args (some valued) rest
    | .option (.value valued) (some value), none =>
      match args.give valued value with
      | .ok args => read args none rest
      | .error reason => .refused reason
    | .option _ (some _), none => .refused "a flag takes no value"
    | .option (.switch switch) none, none =>
      match args.turnOn switch with
      | .ok args => read args none rest
      | .error reason => .refused reason
    | .option .help none, none => .help
    | .option .version none, none => .version

end Args

/-- What some arguments come to. -/
def Reading.ofArguments (arguments : List String) : Reading :=
  Args.blank.read none (arguments.map String.toList)

/-- The file that is looked at alone. -/
def Reading.inspected? : Reading → Option (List Char)
  | run args => args.inspected
  | _ => none

end SourceSurvey.Command
