import SourceSurvey.Syntax.Token

/-!
The parameters of a function, and which of them can be passed by position. Parameters may come in
any order and markers may be repeated.
-/

namespace SourceSurvey.Syntax

/-- One entry of a parameter list. -/
inductive Parameter
  /-- A named parameter, perhaps with an annotation, a default, or both. -/
  | named (name : Word) (annotated defaulted : Bool)
  /-- A tuple that the argument is taken apart into. -/
  | unpacked (defaulted : Bool)
  /-- `*` alone. -/
  | star
  /-- `*args`, perhaps with an annotation. -/
  | starred (annotated : Bool)
  /-- `**kwargs`, perhaps with an annotation. -/
  | doubleStarred (annotated : Bool)
  /-- `/` -/
  | slash
  deriving DecidableEq

/-- Whether nothing after this entry can be passed by position. -/
def Parameter.endsPositional : Parameter → Bool
  | .star | .starred _ => true
  | _ => false

/-- The name that this entry binds by itself. -/
def Parameter.name? : Parameter → Option Word
  | .named name _ _ => some name
  | _ => none

/-- The names of the parameters that can be passed by position, in order: those before the first
    star. -/
def Parameter.positional (parameters : List Parameter) : List Word :=
  (parameters.takeWhile fun p => !p.endsPositional).filterMap Parameter.name?

end SourceSurvey.Syntax
