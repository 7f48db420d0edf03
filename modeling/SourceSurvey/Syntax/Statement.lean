import SourceSurvey.Syntax.Parameter
import SourceSurvey.Syntax.Shape

/-!
Statements, as far as a survey of definitions needs them. Positions are indices of tokens.
-/

namespace SourceSurvey.Syntax

/-- Names joined by dots. -/
abbrev DottedName := List Word

/-- Where imported names come from. -/
inductive ImportOrigin
  | absolute (path : DottedName)
  /-- Relative to the importing package, which alone is meant by an empty path. -/
  | relative (path : DottedName)
  | future
  deriving DecidableEq

/-- An imported name with the name it is bound to, if that is given. -/
structure ImportedName where
  path : DottedName
  alias? : Option Word
  deriving DecidableEq

/-- What an import brings in. -/
inductive Import
  /-- Whole modules. -/
  | modules (names : List ImportedName)
  /-- Some names of one module. -/
  | names (origin : ImportOrigin) (names : List ImportedName)
  /-- All names of one module. -/
  | everything (origin : ImportOrigin)
  deriving DecidableEq

/-- Statements that only an older edition of the language has. -/
inductive Legacy
  | print | exec
  deriving DecidableEq

/-- What a definition introduces. -/
inductive DefinitionKind
  | function (parameters : List Parameter)
  | classType
  deriving DecidableEq

/-- A statement, or a clause of one. -/
inductive Statement
  /-- An expression by itself. -/
  | expression (start : Nat) (shape : Shape)
  | importing (start : Nat) (what : Import)
  | legacy (start : Nat) (keyword : Legacy)
  /-- Any other statement without a body. -/
  | plain (start : Nat)
  /-- A function or a class. It reaches from its first token, which comes after its decorators, up to
      the token at `stop`. -/
  | definition (decorators : List Nat) (start stop : Nat) (kind : DefinitionKind) (name : Word)
      (body : List Statement)
  /-- Any other statement with a body, or a later clause of such a statement. The clauses behind its
      first stand at the end of its body. -/
  | block (start : Nat) (body : List Statement)

/-- The statements of a source. Where a joined line stands on its own before the first of them,
    `spliced` is set. -/
structure Module where
  spliced : Bool
  body : List Statement

end SourceSurvey.Syntax
