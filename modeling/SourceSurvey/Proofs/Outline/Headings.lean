import SourceSurvey.Proofs.Outline.Lexemes
import SourceSurvey.Proofs.Syntax.Line

/-!
Reading the headings of an outline.
-/

namespace SourceSurvey.Syntax

/-- The pieces of some lexemes. -/
def piecesOf (lexemes : List Lexeme) : List Piece := lexemes.map Piece.ofLexeme

@[simp] theorem piecesOf_nil : piecesOf [] = [] := rfl

@[simp] theorem piecesOf_cons (l : Lexeme) (rest : List Lexeme) :
    piecesOf (l :: rest) = Piece.ofLexeme l :: piecesOf rest := rfl

@[simp] theorem piecesOf_append (first second : List Lexeme) :
    piecesOf (first ++ second) = piecesOf first ++ piecesOf second :=
  List.map_append

@[simp] theorem length_piecesOf (lexemes : List Lexeme) :
    (piecesOf lexemes).length = lexemes.length :=
  List.length_map _

/-- Only a byte order mark at the start of a source would be left out. -/
theorem ofLexemes_cons {first : Lexeme} (hmark : first.gap.head? ≠ some '\ufeff')
    (rest : List Lexeme) : Piece.ofLexemes (first :: rest) = piecesOf (first :: rest) := by
  rw [Piece.ofLexemes]
  split
  · next gap heq =>
    rw [heq] at hmark
    exact absurd rfl hmark
  · rfl

/-- The layout inside a line of an outline: nothing, or one space. -/
def spaced (space : Bool) : Layout := if space then { column := 1 } else { tight := true }

/-- The blanks inside a line of an outline. -/
def spaces (space : Bool) : List Char := if space then [' '] else []

theorem ofLexeme_word_gap (gap text : List Char) (w : Word) :
    Piece.ofLexeme ⟨gap, text, .word w⟩ = ⟨Layout.ofGap gap, .word w⟩ := by
  simp [Piece.ofLexeme, Token.startsLiteral]

theorem ofLexeme_word (space : Bool) (text : List Char) (w : Word) :
    Piece.ofLexeme ⟨spaces space, text, .word w⟩ = ⟨spaced space, .word w⟩ := by
  cases space <;> rfl

theorem ofLexeme_symbol (text : List Char) (s : Symbol) :
    Piece.ofLexeme ⟨[], text, .symbol s⟩ = ⟨spaced false, .symbol s⟩ := rfl

theorem inLine_word (space : Bool) (w : Word) : Piece.InLine ⟨spaced space, .word w⟩ := by
  cases space <;> exact ⟨⟨rfl, nofun, rfl⟩, rfl⟩

theorem inLine_symbol (s : Symbol) : Piece.InLine ⟨spaced false, .symbol s⟩ :=
  ⟨⟨rfl, nofun, rfl⟩, rfl⟩

/-- The entry for a parameter that is a name alone. -/
def plainParameter (p : Identifier) : Parameter := .named p false false

namespace Parser

variable {more : List Piece} {indents : List Nat} {index budget : Nat}

/-- A parameter that another one follows. -/
theorem gives_parameterStep_comma (inner : Phrases) (hint : Parser Unit) (space : Bool)
    (p q : Identifier) (before : List Parameter) :
    Gives (parameterStep inner .bracketed (some hint) .rightParen before)
      (.before (⟨spaced space, .word p⟩ :: ⟨spaced false, .symbol .comma⟩ ::
        ⟨spaced true, .word q⟩ :: more) index indents budget)
      (.inl (plainParameter p :: before))
      (.before (⟨spaced true, .word q⟩ :: more) (index + 2) indents budget) := by
  refine Gives.bind (gives_parameter inner hint (inLine_word space p).toPlain
    (inLine_symbol .comma) nofun nofun) ?_
  refine Gives.bind (gives_next (inLine_symbol .comma) _) ?_
  exact Gives.bind (gives_advance (inLine_symbol .comma).toPlain (inLine_word true q) _)
    (gives_pure _ _)

/-- The last parameter. -/
theorem gives_parameterStep_close (inner : Phrases) (hint : Parser Unit) (space : Bool)
    (p : Identifier) (before : List Parameter) :
    Gives (parameterStep inner .bracketed (some hint) .rightParen before)
      (.before (⟨spaced space, .word p⟩ :: ⟨spaced false, .symbol .rightParen⟩ :: more) index
        indents budget)
      (.inr (plainParameter p :: before).reverse)
      (.before (⟨spaced false, .symbol .rightParen⟩ :: more) (index + 1) indents budget) := by
  refine Gives.bind (gives_parameter inner hint (inLine_word space p).toPlain
    (inLine_symbol .rightParen) nofun nofun) ?_
  exact Gives.bind (gives_next (inLine_symbol .rightParen) _) (gives_pure _ _)

theorem exists_parameterLexemes_cons (gap : List Char) (p : Identifier) (rest : List Identifier) :
    ∃ others, parameterLexemes gap (p :: rest) = ⟨gap, p, .word p⟩ :: others := by
  cases rest with
  | nil => exact ⟨_, rfl⟩
  | cons q rest => exact ⟨_, rfl⟩

/-- Parameters are read one by one up to the closing parenthesis. -/
theorem gives_iterate_parameters (inner : Phrases) (hint : Parser Unit) (space : Bool)
    (p : Identifier) (rest : List Identifier) {n : Nat} (hn : rest.length < n)
    (before : List Parameter) :
    Gives (iterate (parameterStep inner .bracketed (some hint) .rightParen) n before)
      (.before (piecesOf (parameterLexemes (spaces space) (p :: rest)) ++
        ⟨spaced false, .symbol .rightParen⟩ :: more) index indents budget)
      (before.reverse ++ (p :: rest).map plainParameter)
      (.before (⟨spaced false, .symbol .rightParen⟩ :: more)
        (index + (parameterLexemes (spaces space) (p :: rest)).length) indents budget) := by
  induction rest generalizing space p n before index with
  | nil =>
    obtain ⟨n, rfl⟩ := Nat.exists_eq_succ_of_ne_zero (Nat.ne_of_gt hn)
    rw [parameterLexemes, piecesOf_cons, ofLexeme_word, List.map_cons, List.map_nil,
      ← List.reverse_cons]
    exact (gives_parameterStep_close inner hint space p before).iterate_done n
  | cons q rest ih =>
    obtain ⟨n, rfl⟩ := Nat.exists_eq_succ_of_ne_zero (Nat.ne_zero_of_lt hn)
    obtain ⟨others, hothers⟩ := exists_parameterLexemes_cons (spaces true) q rest
    have hlexemes : parameterLexemes (spaces space) (p :: q :: rest) =
        ⟨spaces space, p, .word p⟩ :: ⟨[], [','], .symbol .comma⟩ ::
          ⟨spaces true, q, .word q⟩ :: others := by
      rw [← hothers]
      rfl
    have hindex : index + 2 + (parameterLexemes (spaces true) (q :: rest)).length =
        index + (parameterLexemes (spaces space) (p :: q :: rest)).length := by
      rw [hlexemes, hothers]
      simp only [List.length_cons]
      omega
    have hrest := @ih (index + 2) true q n (Nat.lt_of_succ_lt_succ hn) (plainParameter p :: before)
    rw [hindex, hothers, piecesOf_cons, ofLexeme_word, List.reverse_cons, List.append_assoc] at hrest
    have hstep := (gives_parameterStep_comma inner hint space p q before).iterate_more hrest
    rw [hlexemes, piecesOf_cons, piecesOf_cons, piecesOf_cons, ofLexeme_word, ofLexeme_symbol,
      ofLexeme_word]
    rw [hlexemes] at hstep
    exact hstep

theorem gives_parameterList (inner : Phrases) (hint : Parser Unit) (parameters : List Identifier)
    (hbudget : parameters.length ≤ budget) :
    Gives (parameterList inner .bracketed (some hint) .rightParen)
      (.before (piecesOf (parameterLexemes [] parameters) ++
        ⟨spaced false, .symbol .rightParen⟩ :: more) index indents budget)
      (parameters.map plainParameter)
      (.before (⟨spaced false, .symbol .rightParen⟩ :: more)
        (index + (parameterLexemes [] parameters).length) indents budget) := by
  cases parameters with
  | nil => exact Gives.bind (gives_next (inLine_symbol .rightParen) _) (gives_pure _ _)
  | cons p rest =>
    obtain ⟨others, hothers⟩ := exists_parameterLexemes_cons [] p rest
    have hfirst : Gives (next Follow.bracketed.expected)
        (.before (piecesOf (parameterLexemes [] (p :: rest)) ++
          ⟨spaced false, .symbol .rightParen⟩ :: more) index indents budget)
        (.word p)
        (.before (piecesOf (parameterLexemes [] (p :: rest)) ++
          ⟨spaced false, .symbol .rightParen⟩ :: more) index indents budget) := by
      rw [hothers, piecesOf_cons]
      exact gives_next (inLine_word false p) _
    refine Gives.bind hfirst ?_
    rw [if_neg nofun]
    exact Gives.loop (gives_iterate_parameters inner hint false p rest hbudget [])

end Parser

/-- The number of lexemes of a heading. -/
def Heading.size (heading : Heading) : Nat := heading.tail.length + 1

theorem Heading.length_lexemes (heading : Heading) (gap : List Char) :
    (heading.lexemes gap).length = heading.size := rfl

theorem length_le_length_parameterLexemes (gap : List Char) (parameters : List Identifier) :
    parameters.length ≤ (parameterLexemes gap parameters).length := by
  fun_induction parameterLexemes gap parameters with
  | case1 => exact Nat.le_refl 0
  | case2 => exact Nat.le_refl 1
  | case3 gap p q rest ih =>
    simp only [List.length_cons] at ih ⊢
    omega

/-- What a heading introduces. -/
def Heading.kind : Heading → DefinitionKind
  | function _ parameters => .function (parameters.map plainParameter)
  | classType _ => .classType

namespace Parser

variable {more : List Piece} {indents : List Nat} {index budget : Nat}

/-- Nothing stands in brackets behind a name. -/
theorem gives_typeParameters {q : Piece} (rules : Rules) (hq : q.InLine)
    (hbracket : q.token ≠ .symbol .leftBracket) :
    Gives (typeParameters rules) (.before (q :: more) index indents budget) ()
      (.before (q :: more) index indents budget) :=
  gives_unless_next hq hbracket _ ()

theorem gives_functionHeading {rules : Rules} {layout : Layout} {name : Identifier}
    {parameters : List Identifier} (hvisible : layout.blocked = false)
    (hbudget : parameters.length ≤ budget) :
    Gives (functionHeading rules)
      (.before (⟨layout, .word Keyword.def_⟩ :: ⟨spaced true, .word name⟩ ::
        ⟨spaced false, .symbol .leftParen⟩ :: (piecesOf (parameterLexemes [] parameters) ++
          ⟨spaced false, .symbol .rightParen⟩ :: ⟨spaced false, .symbol .colon⟩ :: more))
        index indents budget)
      (name, parameters.map plainParameter)
      (.before (⟨spaced false, .symbol .colon⟩ :: more)
        (index + ((parameterLexemes [] parameters).length + 4)) indents budget) := by
  have hplain : Piece.Plain ⟨layout, .word Keyword.def_⟩ := ⟨hvisible, nofun, rfl⟩
  refine Gives.bind (gives_take hplain).discard ?_
  refine Gives.bind (gives_expectWord (inLine_word true name) _) ?_
  refine Gives.bind (gives_typeParameters rules (inLine_symbol .leftParen) nofun) ?_
  refine Gives.bind (gives_expect (inLine_symbol .leftParen) _) ?_
  refine Gives.bind (gives_parameterList _ _ parameters hbudget) ?_
  refine Gives.bind (gives_expect (inLine_symbol .rightParen) _) ?_
  refine Gives.bind (gives_next (inLine_symbol .colon) _) ?_
  rw [if_neg nofun]
  have hindex : index + ((parameterLexemes [] parameters).length + 4) =
      index + 1 + 1 + 1 + (parameterLexemes [] parameters).length + 1 := by omega
  rw [hindex]
  exact gives_pure _ _

theorem gives_functionDefinition {rules : Rules} {statement : Parser (List Statement)}
    {layout : Layout} {name : Identifier} {parameters : List Identifier} {body : List Statement}
    {after : Cursor} (hvisible : layout.blocked = false) (hbudget : parameters.length ≤ budget)
    (hbody : Gives (colonSuite rules statement)
      (.before (⟨spaced false, .symbol .colon⟩ :: more)
        (index + ((parameterLexemes [] parameters).length + 4)) indents budget) body after)
    (start : Nat) :
    Gives (functionDefinition rules statement [] start)
      (.before (⟨layout, .word Keyword.def_⟩ :: ⟨spaced true, .word name⟩ ::
        ⟨spaced false, .symbol .leftParen⟩ :: (piecesOf (parameterLexemes [] parameters) ++
          ⟨spaced false, .symbol .rightParen⟩ :: ⟨spaced false, .symbol .colon⟩ :: more))
        index indents budget)
      (.definition [] start after.index (.function (parameters.map plainParameter)) name body)
      after := by
  refine Gives.bind (gives_functionHeading hvisible hbudget) ?_
  exact Gives.bind hbody (Gives.bind (gives_position _) (gives_pure _ _))

theorem gives_classDefinition {rules : Rules} {statement : Parser (List Statement)}
    {layout : Layout} {name : Identifier} {body : List Statement} {after : Cursor}
    (hvisible : layout.blocked = false)
    (hbody : Gives (colonSuite rules statement)
      (.before (⟨spaced false, .symbol .colon⟩ :: more) (index + 2) indents budget) body after) :
    Gives (classDefinition rules statement [])
      (.before (⟨layout, .word Keyword.class_⟩ :: ⟨spaced true, .word name⟩ ::
        ⟨spaced false, .symbol .colon⟩ :: more) index indents budget)
      (.definition [] index after.index .classType name body) after := by
  have hplain : Piece.Plain ⟨layout, .word Keyword.class_⟩ := ⟨hvisible, nofun, rfl⟩
  have hheading : Gives (classHeading rules)
      (.before (⟨layout, .word Keyword.class_⟩ :: ⟨spaced true, .word name⟩ ::
        ⟨spaced false, .symbol .colon⟩ :: more) index indents budget) name.val
      (.before (⟨spaced false, .symbol .colon⟩ :: more) (index + 2) indents budget) := by
    refine Gives.bind (gives_take hplain).discard ?_
    refine Gives.bind (gives_expectWord (inLine_word true name) _) ?_
    refine Gives.bind (gives_typeParameters rules (inLine_symbol .colon) nofun) ?_
    refine Gives.bind (gives_next (inLine_symbol .colon) _) ?_
    rw [if_neg nofun]
    exact gives_pure _ _
  refine Gives.bind (gives_position _) (Gives.bind hheading ?_)
  exact Gives.bind hbody (Gives.bind (gives_position _) (gives_pure _ _))

/-- A definition is read by its heading and then its body, from the colon on. -/
theorem gives_statementRule_heading {rules : Rules} {statement : Parser (List Statement)}
    {gap : List Char} {heading : Heading} {body : List Statement} {after : Cursor}
    (hgap : (Layout.ofGap gap).blocked = false) (hbudget : heading.size ≤ budget)
    (hbody : Gives (colonSuite rules statement)
      (.before (⟨spaced false, .symbol .colon⟩ :: more) (index + heading.size) indents budget) body
      after) :
    Gives (statementRule rules statement)
      (.before (piecesOf (heading.lexemes gap) ++ ⟨spaced false, .symbol .colon⟩ :: more) index
        indents budget)
      [.definition [] index after.index heading.kind heading.name body] after := by
  cases heading with
  | function name parameters =>
    have hparameters := length_le_length_parameterLexemes [] parameters
    have hsize : (Heading.function name parameters).size =
        (parameterLexemes [] parameters).length + 4 := by
      rw [Heading.size, Heading.tail, List.length_cons, List.length_cons, List.length_append,
        List.length_singleton]
    rw [hsize] at hbudget hbody
    have hpieces : piecesOf ((Heading.function name parameters).lexemes gap) ++
        ⟨spaced false, .symbol .colon⟩ :: more =
          ⟨Layout.ofGap gap, .word Keyword.def_⟩ :: ⟨spaced true, .word name⟩ ::
            ⟨spaced false, .symbol .leftParen⟩ :: (piecesOf (parameterLexemes [] parameters) ++
              ⟨spaced false, .symbol .rightParen⟩ :: ⟨spaced false, .symbol .colon⟩ :: more) := by
      simp [Heading.lexemes, Heading.keyword, Heading.tail, ofLexeme_word_gap, ofLexeme_symbol]
      rfl
    rw [hpieces]
    refine Gives.bind (gives_position _) (Gives.bind (gives_head _ _) ?_)
    exact Gives.bind (gives_functionDefinition hgap (by omega) hbody index) (gives_pure _ _)
  | classType name =>
    have hpieces : piecesOf ((Heading.classType name).lexemes gap) ++
        ⟨spaced false, .symbol .colon⟩ :: more =
          ⟨Layout.ofGap gap, .word Keyword.class_⟩ :: ⟨spaced true, .word name⟩ ::
            ⟨spaced false, .symbol .colon⟩ :: more := by
      simp [Heading.lexemes, Heading.keyword, Heading.tail, ofLexeme_word_gap]
      rfl
    rw [hpieces]
    refine Gives.bind (gives_position _) (Gives.bind (gives_head _ _) ?_)
    exact Gives.bind (gives_classDefinition hgap hbody) (gives_pure _ _)

end Parser
end SourceSurvey.Syntax
