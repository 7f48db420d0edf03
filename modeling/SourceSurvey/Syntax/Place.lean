import SourceSurvey.Syntax.Lexeme

/-!
Where a token stands in the text of its source.
-/

namespace SourceSurvey.Syntax

/-- A place in a text. Lines and columns count from zero, and a column counts bytes; only a line feed
    ends a line here. For the margin a carriage return does too. -/
structure Place where
  line : Nat
  column : Nat
  offset : Nat
  /-- The offset at which the margin begins. -/
  marginStart : Nat
  /-- The text since the last line feed or carriage return, backwards. -/
  margin : List Char

/-- The beginning of a text. -/
def Place.start : Place := ⟨0, 0, 0, 0, []⟩

/-- The place behind one more character. -/
def Place.after (p : Place) (c : Char) : Place :=
  let ends := c = '\n' || c = '\r'
  { line := if c = '\n' then p.line + 1 else p.line
    column := if c = '\n' then 0 else p.column + c.utf8Size
    offset := p.offset + 1
    marginStart := if ends then p.offset + 1 else p.marginStart
    margin := if ends then [] else c :: p.margin }

/-- The place behind a text. -/
def Place.over (p : Place) (text : List Char) : Place := text.foldl Place.after p

/-- The places of consecutive lexemes, from the place before the first. -/
def Place.ofLexemes (p : Place) : List Lexeme → List Place
  | [] => []
  | l :: rest =>
    let here := p.over l.gap
    here :: Place.ofLexemes (here.over l.text) rest

end SourceSurvey.Syntax
