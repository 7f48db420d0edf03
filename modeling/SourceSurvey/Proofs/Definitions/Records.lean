import Mathlib.Data.List.Forall2
import SourceSurvey.Proofs.Documentation.Scopes
import SourceSurvey.Proofs.Outline.Records

/-!
Every definition of a source has one record, and records come in the order of the definitions. What a
record says is known from the heading and the extent of its definition.
-/

namespace SourceSurvey.Syntax

/-- The record of a function, by the definition that it is made for. -/
structure Extent.RecordedBy (lexemes : List Lexeme) (e : Extent) (f : FunctionRecord) : Prop where
  heading : ∃ name parameters, e.kind = .function parameters ∧
    Headed (Piece.ofLexemes lexemes) e.start e.kind name ∧ f.name = String.ofList name ∧
    f.parameters = (Parameter.positional parameters).map String.ofList
  code : f.code = e.code lexemes

/-- The record of a class, by the definition that it is made for. -/
structure Extent.RecordedByClass (lexemes : List Lexeme) (e : Extent) (f : ClassRecord) : Prop where
  heading : ∃ name, e.kind = .classType ∧ Headed (Piece.ofLexemes lexemes) e.start e.kind name ∧
    f.name = String.ofList name
  code : f.code = e.code lexemes

/-- The functions among some definitions. -/
def functionsAmong (extents : List Extent) : List Extent := extents.filter Extent.isFunction

/-- The classes among some definitions. -/
def classesAmong (extents : List Extent) : List Extent := extents.filter fun e => !e.isFunction

section Records

variable {lexemes : List Lexeme} {lo hi : Nat} {body : List Statement}

theorem functionsOf_eq_nil (h : Statement.extentsOf body = []) :
    Statement.functionsOf lexemes body = [] := by
  have hsay : FunctionsSay lexemes (fun _ => ()) fun _ => () := fun _ _ _ _ _ => rfl
  have hmap := Statement.map_functionsOf hsay body
  rw [h] at hmap
  exact List.map_eq_nil_iff.mp hmap

theorem classesOf_eq_nil (h : Statement.extentsOf body = []) :
    Statement.classesOf lexemes body = [] := by
  have hsay : ClassesSay lexemes (fun _ => ()) fun _ => () := fun _ _ _ _ => rfl
  have hmap := Statement.map_classesOf hsay body
  rw [h] at hmap
  exact List.map_eq_nil_iff.mp hmap

/-- Every function has one record. -/
theorem Built.functions (h : Built (Piece.ofLexemes lexemes) lo body hi) :
    List.Forall₂ (Extent.RecordedBy lexemes) (functionsAmong (Statement.extentsOf body))
      (Statement.functionsOf lexemes body) := by
  induction h with
  | nil => exact .nil
  | line _ hc hread =>
    have hnone := (beginAt_statementLine hc hread).2
    rw [functionsOf_eq_nil hnone, hnone]
    exact .nil
  | @block _ start _ body _ _ _ ih =>
    rw [extentsOf_singleton, Statement.extents, Statement.functionsOf, Statement.functions,
      Statement.functionsOf, List.append_nil]
    exact ih
  | @definition _ start stop _ decorators kind name body _ _ _ hheaded _ _ ih =>
    rw [extentsOf_singleton, Statement.extents, Statement.functionsOf, Statement.functionsOf,
      List.append_nil]
    cases kind with
    | function parameters =>
      rw [Statement.functions, functionsAmong, List.filter_cons_of_pos rfl]
      exact .cons ⟨⟨name, parameters, rfl, hheaded, rfl, rfl⟩, rfl⟩ ih
    | classType =>
      rw [Statement.functions, functionsAmong, List.filter_cons_of_neg Bool.false_ne_true]
      exact ih
  | append _ _ ih ih' =>
    rw [extentsOf_append, functionsOf_append, functionsAmong, List.filter_append]
    exact List.rel_append ih ih'

/-- Every class has one record. -/
theorem Built.classes (h : Built (Piece.ofLexemes lexemes) lo body hi) :
    List.Forall₂ (Extent.RecordedByClass lexemes) (classesAmong (Statement.extentsOf body))
      (Statement.classesOf lexemes body) := by
  induction h with
  | nil => exact .nil
  | line _ hc hread =>
    have hnone := (beginAt_statementLine hc hread).2
    rw [classesOf_eq_nil hnone, hnone]
    exact .nil
  | @block _ start _ body _ _ _ ih =>
    rw [extentsOf_singleton, Statement.extents, Statement.classesOf, Statement.classes,
      Statement.classesOf, List.append_nil]
    exact ih
  | @definition _ start stop _ decorators kind name body _ _ _ hheaded _ _ ih =>
    rw [extentsOf_singleton, Statement.extents, Statement.classesOf, Statement.classesOf,
      List.append_nil]
    cases kind with
    | function parameters =>
      rw [Statement.classes, classesAmong, List.filter_cons_of_neg Bool.false_ne_true]
      exact ih
    | classType =>
      rw [Statement.classes, classesAmong, List.filter_cons_of_pos rfl]
      exact .cons ⟨⟨name, rfl, hheaded, rfl⟩, rfl⟩ ih
  | append _ _ ih ih' =>
    rw [extentsOf_append, classesOf_append, classesAmong, List.filter_append]
    exact List.rel_append ih ih'

end Records

/-- The records of an accepted source are those of its definitions, at any depth. -/
theorem recorded_of_definitions {text : List Char} {found : Definitions} {m : Module}
    (hfound : definitions text = .ok found)
    (hmodule : Module.ofPieces (Piece.ofLexemes (lexemes text)) = .ok m) :
    List.Forall₂ (Extent.RecordedBy (lexemes text)) (functionsAmong (Statement.extentsOf m.body))
        found.functions ∧
      List.Forall₂ (Extent.RecordedByClass (lexemes text))
        (classesAmong (Statement.extentsOf m.body)) found.classes := by
  have hbuilt := built_of_ofPieces hmodule
  rw [definitions_of_ok hmodule] at hfound
  split at hfound
  · cases hfound
  · cases hfound
    exact ⟨hbuilt.functions, hbuilt.classes⟩

end SourceSurvey.Syntax
