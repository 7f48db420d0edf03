import Mathlib
import SourceSurvey.Proofs.LineEnds.Places
import SourceSurvey.Proofs.Syntax.Acceptance

/-!
A source is read in the same way however its line ends are written: what it defines, and what is
wrong with it, is the same. The exception is a source with a literal on single marks that runs over a
line end which nothing shields; with carriage returns before its line feeds that is no source at all.
-/

namespace SourceSurvey.Syntax

open SourceSurvey.Text

/-! ### What the reading of two texts has in common -/

/-- A function but for its own text. -/
def signature (f : FunctionRecord) : FunctionRecord := { f with code := none }

/-- A class but for its own text. -/
def classSignature (c : ClassRecord) : ClassRecord := { c with code := none }

/-- Two sources define the same, but for the text of the definitions. -/
structure Definitions.Alike (first second : Definitions) : Prop where
  docstring : first.docstring = second.docstring
  imports : first.imports = second.imports
  functions : first.functions.map signature = second.functions.map signature
  classes : first.classes.map classSignature = second.classes.map classSignature

/-- Whether a source is refused although the grammar accepts it. -/
def Problem.isOwn : Problem → Bool
  | .legacy .. | .indentation .. => true
  | .grammar .. | .lineEnd => false

/-- Two sources are both accepted, and define the same, or both refused; what the checks behind the
    grammar find wrong is the same, and in the same place. -/
inductive Agree : Except Problem Definitions → Except Problem Definitions → Prop
  | accepted {first second : Definitions} (h : first.Alike second) : Agree (.ok first) (.ok second)
  | refused {first second : Problem} (h : first.isOwn || second.isOwn → first = second) :
      Agree (.error first) (.error second)

theorem Agree.isOk_eq {first second : Except Problem Definitions} (h : Agree first second) :
    first.isOk = second.isOk := by
  cases h with
  | accepted => rfl
  | refused => rfl

/-! ### Pieces and literals -/

theorem ofLexeme_congr {gap gap' : List Char} (h : Layout.ofGap gap' = Layout.ofGap gap)
    (text text' : List Char) (token : Token) :
    Piece.ofLexeme ⟨gap', text', token⟩ = Piece.ofLexeme ⟨gap, text, token⟩ := by
  unfold Piece.ofLexeme Layout.atEnd
  simp only [h]

theorem ofGap_rewritten {early : Bool} {gap gap' : List Char} (hreturn : '\r' ∉ gap)
    (hgap : taken early ++ gap' = crlf gap) : Layout.ofGap gap' = Layout.ofGap gap := by
  cases early with
  | false =>
    have hgap : gap' = crlf gap := hgap
    rw [hgap, ofGap_crlf hreturn]
  | true =>
    obtain ⟨rest, rfl, rfl⟩ := exists_of_return_cons hreturn hgap
    exact ofGap_lineFeed (List.not_mem_of_not_mem_cons hreturn)

theorem map_ofLexeme_rewritten {early : Bool} {lexemes lexemes' : List Lexeme}
    (h : Rewritten early lexemes lexemes') :
    lexemes'.map Piece.ofLexeme = lexemes.map Piece.ofLexeme := by
  induction h with
  | nil => rfl
  | cons hreturn hgap _ _ _ _ ih =>
    rw [List.map_cons, List.map_cons, ih, ofLexeme_congr (ofGap_rewritten hreturn hgap)]

/-- The pieces of both texts are the same. -/
theorem ofLexemes_rewritten {lexemes lexemes' : List Lexeme} (h : Rewritten false lexemes lexemes') :
    Piece.ofLexemes lexemes' = Piece.ofLexemes lexemes := by
  cases h with
  | nil => rfl
  | @cons _ late gap gap' _ _ _ _ _ hreturn hgap _ _ _ hrest =>
    have hgap : gap' = crlf gap := hgap
    rw [Piece.ofLexemes, Piece.ofLexemes, map_ofLexeme_rewritten hrest, hgap]
    congr 1
    by_cases hmark : ∃ inside, gap = '\ufeff' :: inside
    · obtain ⟨inside, rfl⟩ := hmark
      exact ofLexeme_congr (ofGap_crlf (List.not_mem_of_not_mem_cons hreturn)) ..
    · have hmark' : ∀ inside, crlf gap ≠ '\ufeff' :: inside := by
        intro inside hcrlf
        cases gap with
        | nil => cases hcrlf
        | cons c rest =>
          by_cases hc : c = '\n'
          · subst hc
            cases hcrlf
          · rw [crlf_cons hc] at hcrlf
            obtain ⟨rfl, -⟩ := List.cons.inj hcrlf
            exact hmark ⟨rest, rfl⟩
      split
      · next inside hcrlf => exact absurd hcrlf (hmark' inside)
      · split
        · next heq => exact absurd ⟨_, heq⟩ hmark
        · exact ofLexeme_congr (ofGap_crlf hreturn) ..

theorem value?_rewritten {early : Bool} {lexemes lexemes' : List Lexeme}
    (h : Rewritten early lexemes lexemes') (index : Nat) :
    lexemes'[index]?.bind Lexeme.value? = lexemes[index]?.bind Lexeme.value? := by
  induction h generalizing index with
  | nil => rfl
  | @cons _ _ _ _ text text' token _ _ _ _ _ _ hvalue _ ih =>
    cases index with
    | zero =>
      simp only [List.getElem?_cons_zero, Option.bind_some, Lexeme.value?]
      split
      · exact hvalue _ rfl
      · rfl
    | succ index => exact ih index

theorem docstring?_rewritten {early : Bool} {lexemes lexemes' : List Lexeme}
    (h : Rewritten early lexemes lexemes') : docstring? lexemes' = docstring? lexemes := by
  have hparts : partValue? lexemes' = partValue? lexemes := by
    funext part
    cases part with
    | plain index => exact value?_rewritten h index
    | formatted => rfl
  funext body
  unfold docstring?
  rw [hparts]

/-! ### Definitions -/

mutual

theorem functions_congr {lexemes lexemes' : List Lexeme}
    (h : docstring? lexemes' = docstring? lexemes) : ∀ s : Statement,
    (s.functions lexemes).map signature = (s.functions lexemes').map signature
  | .definition _ _ _ (.function _) _ body => by
    rw [Statement.functions, Statement.functions, List.map_cons, List.map_cons,
      functionsOf_congr h body, h]
    rfl
  | .definition _ _ _ .classType _ body => functionsOf_congr h body
  | .block _ body => functionsOf_congr h body
  | .expression .. | .importing .. | .legacy .. | .plain _ => rfl

theorem functionsOf_congr {lexemes lexemes' : List Lexeme}
    (h : docstring? lexemes' = docstring? lexemes) : ∀ body : List Statement,
    (Statement.functionsOf lexemes body).map signature =
      (Statement.functionsOf lexemes' body).map signature
  | [] => rfl
  | s :: rest => by
    rw [Statement.functionsOf, Statement.functionsOf, List.map_append, List.map_append,
      functions_congr h s, functionsOf_congr h rest]

end

mutual

theorem classes_congr {lexemes lexemes' : List Lexeme}
    (h : docstring? lexemes' = docstring? lexemes) : ∀ s : Statement,
    (s.classes lexemes).map classSignature = (s.classes lexemes').map classSignature
  | .definition _ _ _ .classType _ body => by
    rw [Statement.classes, Statement.classes, List.map_cons, List.map_cons,
      classesOf_congr h body, h]
    rfl
  | .definition _ _ _ (.function _) _ body => classesOf_congr h body
  | .block _ body => classesOf_congr h body
  | .expression .. | .importing .. | .legacy .. | .plain _ => rfl

theorem classesOf_congr {lexemes lexemes' : List Lexeme}
    (h : docstring? lexemes' = docstring? lexemes) : ∀ body : List Statement,
    (Statement.classesOf lexemes body).map classSignature =
      (Statement.classesOf lexemes' body).map classSignature
  | [] => rfl
  | s :: rest => by
    rw [Statement.classesOf, Statement.classesOf, List.map_append, List.map_append,
      classes_congr h s, classesOf_congr h rest]

end

/-! ### The outcome -/

/-- What the grammar refuses, it refuses with a problem of its own. -/
theorem definitions_of_error {text : List Char} {token : Nat}
    (h : Module.ofPieces (Piece.ofLexemes (lexemes text)) = .error token) :
    ∃ p, definitions text = .error p ∧ p.isOwn = false := by
  simp only [definitions, h]
  split
  · exact ⟨_, rfl, rfl⟩
  · exact ⟨_, rfl, rfl⟩

/-- Two texts whose lexemes correspond. -/
theorem agree_of_rewritten {text : List Char} (hreturn : '\r' ∉ text)
    (h : Rewritten false (lexemes text) (lexemes (crlf text))) :
    Agree (definitions text) (definitions (crlf text)) := by
  have hpieces := ofLexemes_rewritten h
  have hdoc := docstring?_rewritten h
  cases hparsed : Module.ofPieces (Piece.ofLexemes (lexemes text)) with
  | error token =>
    obtain ⟨p, hp, hown⟩ := definitions_of_error hparsed
    obtain ⟨p', hp', hown'⟩ := definitions_of_error (hpieces ▸ hparsed)
    rw [hp, hp']
    refine .refused fun hchecks => ?_
    rw [hown, hown'] at hchecks
    cases hchecks
  | ok m =>
    have hviolation : violation (placesOf (lexemes (crlf text))) m.body =
        violation (placesOf (lexemes text)) m.body := by
      refine violationAt_matches text (fun token => ?_) .base none _
      rw [placesOf, placesOf, List.getElem?_toArray, List.getElem?_toArray]
      exact matches_ofLexemes [] h hreturn (joined_lexemesFrom [] text).symm token
    rw [definitions_of_ok hparsed, definitions_of_ok (hpieces ▸ hparsed), hviolation]
    cases violation (placesOf (lexemes text)) m.body with
    | some problem => exact .refused fun _ => rfl
    | none =>
      refine .accepted ⟨?_, rfl, functionsOf_congr hdoc m.body, classesOf_congr hdoc m.body⟩
      simp only [Module.docstring?, hdoc]

/-- A source without carriage returns is read in the same way when its line ends are written with
    them, unless one of its literals spills over a line end: then the grammar refuses the other
    text. -/
theorem definitions_crlf (text : List Char) (hreturn : '\r' ∉ text) :
    if spills text then ∃ p, definitions (crlf text) = .error p ∧ p.isOwn = false
    else Agree (definitions text) (definitions (crlf text)) := by
  have hlexemes := lexemesFrom_crlf [] text false hreturn rfl nofun
  rw [← spills] at hlexemes
  by_cases hspills : spills text
  · rw [if_pos hspills] at hlexemes ⊢
    obtain ⟨l, hl, hinvalid⟩ := hlexemes
    cases hparsed : Module.ofPieces (Piece.ofLexemes (lexemes (crlf text))) with
    | error token => exact definitions_of_error hparsed
    | ok m => exact absurd hinvalid (token_ne_invalid_of_ofPieces hparsed l hl)
  · rw [if_neg hspills] at hlexemes ⊢
    exact agree_of_rewritten hreturn hlexemes

/-- A source is accepted when the checks find nothing wrong with the module it is read as. -/
theorem isOk_of_violation {text : List Char} {m : Module}
    (hmodule : Module.ofPieces (Piece.ofLexemes (lexemes text)) = .ok m)
    (hsound : violation (placesOf (lexemes text)) m.body = none) :
    (definitions text).isOk = true := by
  rw [definitions_of_ok hmodule, hsound]
  rfl

/-- A source with a text over two lines and a literal whose line end a backslash shields. -/
def shieldedSample : List Char :=
  "def f(a):\n    \"\"\"One\n    two\"\"\"\n    return 'x\\\ny'\n".toList

/-- The module `shieldedSample` is read as. -/
def shieldedModule : Module :=
  ⟨false, [.definition [] 0 9 (.function [.named ['a'] false false]) ['f']
    [.expression 6 (.literal [.plain 6]), .plain 7]]⟩

set_option maxRecDepth 8000 in
theorem definitions_crlf_shielded :
    '\r' ∉ shieldedSample ∧ spills shieldedSample = false ∧
      (definitions shieldedSample).isOk = true ∧
      Agree (definitions shieldedSample) (definitions (crlf shieldedSample)) := by
  have hreturn : '\r' ∉ shieldedSample := by decide +kernel
  have hspills : spills shieldedSample = false := by with_unfolding_all rfl
  have hmodule : Module.ofPieces (Piece.ofLexemes (lexemes shieldedSample)) =
      .ok shieldedModule := by
    with_unfolding_all rfl
  have hsound : violation (placesOf (lexemes shieldedSample)) shieldedModule.body = none := by
    with_unfolding_all rfl
  have hagree := definitions_crlf shieldedSample hreturn
  rw [hspills, if_neg Bool.false_ne_true] at hagree
  exact ⟨hreturn, hspills, isOk_of_violation hmodule hsound, hagree⟩

set_option maxRecDepth 8000 in
/-- A line feed that follows the opening mark of a literal directly ends no line for the lexer, but a
    carriage return there does. -/
theorem not_forall_agree_crlf :
    ¬ ∀ text, '\r' ∉ text → Agree (definitions text) (definitions (crlf text)) := by
  intro h
  have hagree := h "x = \"\n\"\n".toList (by decide)
  have hmodule : Module.ofPieces (Piece.ofLexemes (lexemes "x = \"\n\"\n".toList)) =
      .ok ⟨false, [.plain 0]⟩ := by
    with_unfolding_all rfl
  have haccepted : (definitions "x = \"\n\"\n".toList).isOk = true :=
    isOk_of_violation hmodule (by with_unfolding_all rfl)
  have hrefused : (definitions (crlf "x = \"\n\"\n".toList)).isOk = false := by
    with_unfolding_all rfl
  have hsame := hagree.isOk_eq
  rw [haccepted, hrefused] at hsame
  cases hsame

end SourceSurvey.Syntax
