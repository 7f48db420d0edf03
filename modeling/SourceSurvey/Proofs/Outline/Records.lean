import SourceSurvey.Proofs.Outline.Margins
import SourceSurvey.Source

/-!
The records made of the text of an outline: those of its definitions, outer ones before inner ones,
each with its documentation and its own text.
-/

namespace SourceSurvey.Syntax

section StandsAt

variable {all first second : List Lexeme} {index : Nat}

/-- Some lexemes stand in a source, the first of them at some token. -/
def StandsAt (all : List Lexeme) (index : Nat) (lexemes : List Lexeme) : Prop :=
  lexemes <+: all.drop index

theorem StandsAt.left (h : StandsAt all index (first ++ second)) : StandsAt all index first :=
  (List.prefix_append first second).trans h

theorem StandsAt.right (h : StandsAt all index (first ++ second)) :
    StandsAt all (index + first.length) second := by
  obtain ⟨after, hafter⟩ := h
  refine ⟨after, ?_⟩
  rw [← List.drop_drop, ← hafter, List.append_assoc, List.drop_left]

theorem StandsAt.getElem? {l : Lexeme} {rest : List Lexeme} (h : StandsAt all index (l :: rest)) :
    all[index]? = some l := by
  obtain ⟨after, hafter⟩ := h
  rw [← List.head?_drop, ← hafter]
  rfl

/-- The text of some lexemes is cut out without the blanks before the first of them. -/
theorem StandsAt.slice {l : Lexeme} {rest : List Lexeme} {stop : Nat}
    (h : StandsAt all index (l :: rest)) (hstop : stop = index + (l :: rest).length) :
    slice all index stop = l.text ++ Lexeme.joined rest := by
  obtain ⟨after, hafter⟩ := h
  have htake : (all.drop index).take (stop - index) = l :: rest := by
    rw [← hafter, hstop, Nat.add_sub_cancel_left, List.take_left]
  rw [Syntax.slice, htake]

end StandsAt

theorem positional_plain (parameters : List Identifier) :
    Parameter.positional (parameters.map plainParameter) = parameters.map (·.val) := by
  induction parameters with
  | nil => rfl
  | cons p rest ih =>
    have hcons : Parameter.positional (plainParameter p :: rest.map plainParameter) =
        p.val :: Parameter.positional (rest.map plainParameter) := rfl
    rw [List.map_cons, hcons, ih, List.map_cons]

theorem functionsOf_append (lexemes : List Lexeme) (first second : List Statement) :
    Statement.functionsOf lexemes (first ++ second) =
      Statement.functionsOf lexemes first ++ Statement.functionsOf lexemes second := by
  induction first with
  | nil => rfl
  | cons s rest ih =>
    rw [List.cons_append, Statement.functionsOf, Statement.functionsOf, ih, List.append_assoc]

theorem classesOf_append (lexemes : List Lexeme) (first second : List Statement) :
    Statement.classesOf lexemes (first ++ second) =
      Statement.classesOf lexemes first ++ Statement.classesOf lexemes second := by
  induction first with
  | nil => rfl
  | cons s rest ih =>
    rw [List.cons_append, Statement.classesOf, Statement.classesOf, ih, List.append_assoc]

theorem importsOf_append (first second : List Statement) :
    Statement.importsOf (first ++ second) =
      Statement.importsOf first ++ Statement.importsOf second := by
  induction first with
  | nil => rfl
  | cons s rest ih =>
    rw [List.cons_append, Statement.importsOf, Statement.importsOf, ih, List.append_assoc]

/-- The documentation of a body is what its literal stands for. Without one, the first statement is
    a definition or a `pass`, so that nothing else is taken for it. -/
theorem docstring?_body {all : List Lexeme} {index level : Nat} {doc : Option (List Char)}
    (h : StandsAt all index (docLexemes level doc)) (inside : Outline) (n last : Nat) :
    docstring? all (docStatements index doc ++ (inside.statements n ++ [.plain last])) =
      doc.map Docstring.clean := by
  cases doc with
  | none => cases inside <;> rfl
  | some doc =>
    have hvalue : partValue? all (.plain index) = some doc := by
      rw [partValue?, h.getElem?]
      exact literalValue?_quoteLine doc
    rw [docStatements, List.cons_append, docstring?]
    simp [Shape.literals?, hvalue]

namespace Outline

section Definition

variable {all : List Lexeme} {index level : Nat} {gap : List Char} {heading : Heading}
  {doc : Option (List Char)} {inside rest : Outline}
  (h : StandsAt all index ((definition heading doc inside rest).lexemes gap level))

include h

theorem standsAt_behindColon :
    StandsAt all (index + heading.size + 1) (docLexemes (level + 1) doc ++
      (inside.lexemes (lead (level + 1)) (level + 1) ++
        [⟨lead (level + 1), Keyword.pass_, .word Keyword.pass_⟩])) := by
  have hbody : StandsAt all (index + heading.size)
      ([⟨[], [':'], .symbol .colon⟩] ++ (docLexemes (level + 1) doc ++
        (inside.lexemes (lead (level + 1)) (level + 1) ++
          [⟨lead (level + 1), Keyword.pass_, .word Keyword.pass_⟩]))) :=
    h.left.right
  exact hbody.right

theorem standsAt_doc : StandsAt all (index + heading.size + 1) (docLexemes (level + 1) doc) :=
  (standsAt_behindColon h).left

theorem standsAt_inside :
    StandsAt all (index + heading.size + 1 + docSize doc)
      (inside.lexemes (lead (level + 1)) (level + 1)) := by
  rw [← length_docLexemes (level + 1) doc]
  exact (standsAt_behindColon h).right.left

theorem standsAt_rest :
    StandsAt all (index + heading.size + 1 + docSize doc + inside.size + 1)
      (rest.lexemes (lead level) level) := by
  have hrest : StandsAt all _ (rest.lexemes (lead level) level) := h.right
  rw [length_definition] at hrest
  have hstop : index + (heading.size + (docSize doc + inside.size + 2)) =
      index + heading.size + 1 + docSize doc + inside.size + 1 := by omega
  rw [← hstop]
  exact hrest

/-- The code of a definition is its text from its heading to its final `pass`. -/
theorem slice_definition :
    slice all index (index + heading.size + 1 + docSize doc + inside.size + 1) =
      snippet level heading doc (inside.text (level + 1)) := by
  let others := heading.tail ++
    bodyLexemes level doc (inside.lexemes (lead (level + 1)) (level + 1))
  have hfirst : StandsAt all index (⟨gap, heading.keyword, .word heading.keyword⟩ :: others) :=
    h.left
  have hlength : index + heading.size + 1 + docSize doc + inside.size + 1 =
      index + (heading.lexemes gap ++
        bodyLexemes level doc (inside.lexemes (lead (level + 1)) (level + 1))).length := by
    rw [length_definition]
    omega
  have htext := joined_definition gap level heading doc (inside.joined_lexemes (level + 1))
  rw [Heading.lexemes, List.cons_append, joined_cons] at htext
  rw [hfirst.slice hlength]
  exact List.append_cancel_left htext

end Definition

/-- The functions found in the text of an outline are its functions. -/
theorem functionsOf_statements (o : Outline) {all : List Lexeme} {index level : Nat}
    {gap : List Char} (h : StandsAt all index (o.lexemes gap level)) :
    Statement.functionsOf all (o.statements index) = o.functions level := by
  induction o generalizing index gap level with
  | done => rfl
  | definition heading doc inside rest ihinside ihrest =>
    have hbody (last : Nat) : Statement.functionsOf all
        (docStatements (index + heading.size + 1) doc ++
          (inside.statements (index + heading.size + 1 + docSize doc) ++ [.plain last])) =
        inside.functions (level + 1) := by
      rw [functionsOf_append, functionsOf_append, ihinside (standsAt_inside h)]
      cases doc <;> simp [docStatements, Statement.functionsOf, Statement.functions]
    cases heading with
    | function name parameters =>
      have hcode := slice_definition h
      have hdoc := docstring?_body (standsAt_doc h) inside
      rw [statements, Statement.functionsOf, ihrest (standsAt_rest h), functions]
      simp only [Heading.kind, Statement.functions, hcode, hdoc, hbody, positional_plain,
        List.map_map, Option.map_map]
      rfl
    | classType name =>
      rw [statements, Statement.functionsOf, ihrest (standsAt_rest h), functions]
      simp only [Heading.kind, Statement.functions, hbody]

/-- The classes found in the text of an outline are its classes. -/
theorem classesOf_statements (o : Outline) {all : List Lexeme} {index level : Nat}
    {gap : List Char} (h : StandsAt all index (o.lexemes gap level)) :
    Statement.classesOf all (o.statements index) = o.classes level := by
  induction o generalizing index gap level with
  | done => rfl
  | definition heading doc inside rest ihinside ihrest =>
    have hbody (last : Nat) : Statement.classesOf all
        (docStatements (index + heading.size + 1) doc ++
          (inside.statements (index + heading.size + 1 + docSize doc) ++ [.plain last])) =
        inside.classes (level + 1) := by
      rw [classesOf_append, classesOf_append, ihinside (standsAt_inside h)]
      cases doc <;> simp [docStatements, Statement.classesOf, Statement.classes]
    cases heading with
    | function name parameters =>
      rw [statements, Statement.classesOf, ihrest (standsAt_rest h), classes]
      simp only [Heading.kind, Statement.classes, hbody]
    | classType name =>
      have hcode := slice_definition h
      have hdoc := docstring?_body (standsAt_doc h) inside
      rw [statements, Statement.classesOf, ihrest (standsAt_rest h), classes]
      simp only [Heading.kind, Statement.classes, hcode, hdoc, hbody, Option.map_map]
      rfl

theorem importsOf_statements (o : Outline) (index : Nat) :
    Statement.importsOf (o.statements index) = [] := by
  induction o generalizing index with
  | done => rfl
  | definition heading doc inside rest ihinside ihrest =>
    rw [statements, Statement.importsOf, Statement.imports, importsOf_append, importsOf_append,
      ihinside, ihrest]
    cases doc <;> simp [docStatements, Statement.importsOf, Statement.imports]

theorem docstring?_statements (o : Outline) (all : List Lexeme) (spliced : Bool) :
    Module.docstring? ⟨spliced, o.statements 0⟩ all = none := by
  cases spliced <;> cases o <;> rfl

/-- The text of an outline is read without a problem, as its definitions and nothing else. -/
theorem definitions_text (o : Outline) :
    definitions (o.text 0) =
      .ok { docstring := none, imports := [], functions := o.functions 0
            classes := o.classes 0 } := by
  obtain ⟨gap, -, hlexemes⟩ := o.lexemes_text
  obtain ⟨spliced, hpieces⟩ := o.exists_ofPieces_text
  have hviolation := o.violation_eq_none [⟨gap, [], .finish⟩]
  have hstands : StandsAt (Syntax.lexemes (o.text 0)) 0 (o.lexemes [] 0) :=
    ⟨[⟨gap, [], .finish⟩], hlexemes.symm⟩
  rw [← hlexemes, placesOf] at hviolation
  rw [definitions]
  simp only [hpieces, hviolation, docstring?_statements, importsOf_statements,
    functionsOf_statements o hstands, classesOf_statements o hstands]
  rfl

end Outline
end SourceSurvey.Syntax

namespace SourceSurvey.Source

open Syntax

/-- A file with the text of an outline, whatever it is called but for its ending, is read without an
    error. Its record has the functions and the classes of the outline, outer ones before inner
    ones, and no documentation or imports of its own. -/
theorem record_outline (stem path : String) (o : Outline) :
    record (stem ++ ".py") path (String.ofList (o.text 0)) =
      { file := stem ++ ".py", path := path, docstring := none, imports := []
        functions := o.functions 0, classes := o.classes 0
        code := some (String.ofList (o.text 0)), error := none } := by
  have hmethod : FileName.method (stem ++ ".py").toList = .grammar := by
    rw [FileName.method, String.toList_append]
    exact if_pos (List.isSuffixOf_iff_suffix.mpr (List.suffix_append _ _))
  rw [record, hmethod]
  simp only [Syntax.record, String.toList_ofList, o.definitions_text]
  rfl

end SourceSurvey.Source
