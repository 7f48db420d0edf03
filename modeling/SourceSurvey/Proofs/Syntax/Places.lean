import Mathlib.Data.List.Induction
import SourceSurvey.Syntax.Place

/-!
The places of tokens in a source: how they depend on the text before, and where the lexemes of a text
stand.
-/

namespace SourceSurvey.Syntax

@[simp] theorem joined_nil : Lexeme.joined [] = [] := rfl

@[simp] theorem joined_cons (l : Lexeme) (rest : List Lexeme) :
    Lexeme.joined (l :: rest) = l.gap ++ (l.text ++ Lexeme.joined rest) := by
  simp [Lexeme.joined]

theorem Place.over_cons (p : Place) (c : Char) (text : List Char) :
    p.over (c :: text) = (p.after c).over text := rfl

theorem Place.over_append (p : Place) (first second : List Char) :
    p.over (first ++ second) = (p.over first).over second :=
  List.foldl_append

theorem Place.offset_over (p : Place) (text : List Char) :
    (p.over text).offset = p.offset + text.length := by
  induction text generalizing p with
  | nil => rfl
  | cons c rest ih =>
    have hafter : (p.after c).offset = p.offset + 1 := rfl
    rw [Place.over_cons, ih, hafter, List.length_cons]
    omega

/-- The place of a lexeme is behind all lexemes before it and its own blanks. -/
theorem Place.getElem?_ofLexemes (p : Place) (before : List Lexeme) (l : Lexeme)
    (after : List Lexeme) :
    (p.ofLexemes (before ++ l :: after))[before.length]? =
      some ((p.over (Lexeme.joined before)).over l.gap) := by
  induction before generalizing p with
  | nil => rfl
  | cons first before ih =>
    rw [List.cons_append, Place.ofLexemes, List.length_cons, List.getElem?_cons_succ, ih,
      joined_cons, Place.over_append, Place.over_append]

theorem Place.over_concat (p : Place) (text : List Char) (c : Char) :
    p.over (text ++ [c]) = (p.over text).after c :=
  p.over_append text [c]

theorem Place.offset_start_over (text : List Char) : (Place.start.over text).offset = text.length := by
  rw [Place.offset_over]
  exact Nat.zero_add _

/-- The margin begins within the text. -/
theorem Place.marginStart_le (text : List Char) :
    (Place.start.over text).marginStart ≤ text.length := by
  induction text using List.reverseRecOn with
  | nil => exact Nat.le_refl 0
  | append_singleton text c ih =>
    have hoffset := Place.offset_start_over text
    rw [Place.over_concat, List.length_append, List.length_singleton]
    simp only [Place.after]
    split <;> omega

/-- The places of all lexemes of a source. -/
def placesOf (lexemes : List Lexeme) : Array Place := (Place.start.ofLexemes lexemes).toArray

theorem getElem?_placesOf (before : List Lexeme) (l : Lexeme) (after : List Lexeme) :
    (placesOf (before ++ l :: after))[before.length]? =
      some ((Place.start.over (Lexeme.joined before)).over l.gap) := by
  rw [placesOf, List.getElem?_toArray, Place.getElem?_ofLexemes]

end SourceSurvey.Syntax
