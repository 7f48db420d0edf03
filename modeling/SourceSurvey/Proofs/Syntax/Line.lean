import SourceSurvey.Proofs.Syntax.Reading
import SourceSurvey.Syntax.Module

/-!
Reading the simplest lines: a literal by itself, a `pass`, and parameters without annotations or
defaults.
-/

namespace SourceSurvey.Syntax.Parser

variable {p q : Piece} {rest : List Piece} {indents : List Nat} {index budget column : Nat}
  {layout : Layout} {f : Follow}

section Literal

variable (inner : Phrases) (hp : Piece.Plain ⟨layout, .string true⟩) (hq : q.StartsLine column)
  (hf : f.lineEnd = true) (hbudget : budget ≠ 0)

include hp hq hf hbudget

/-- A literal at the end of a line stands alone. -/
theorem gives_literals :
    Gives (literals inner f) (.before (⟨layout, .string true⟩ :: q :: rest) index indents budget)
      (.literal [.plain index]) (.before (q :: rest) (index + 1) indents budget) := by
  refine Gives.loop_once hbudget ?_
  refine Gives.bind (gives_position _) (Gives.bind (gives_head _ _) ?_)
  refine Gives.bind (gives_take hp).discard (Gives.bind (gives_pure _ _) ?_)
  exact Gives.bind (gives_look_lineEnd hq rfl rfl hf) (gives_pure _ _)

theorem gives_primary_literal :
    Gives (primary inner f) (.before (⟨layout, .string true⟩ :: q :: rest) index indents budget)
      (.literal [.plain index], false) (.before (q :: rest) (index + 1) indents budget) := by
  refine Gives.bind (Gives.bind (gives_head _ _) (gives_literals inner hp hq hf hbudget)) ?_
  refine Gives.loop_once hbudget ?_
  exact Gives.bind (gives_look_lineEnd hq rfl rfl hf) (gives_pure _ _)

theorem gives_expressionRule_literal :
    Gives (expressionRule inner f)
      (.before (⟨layout, .string true⟩ :: q :: rest) index indents budget)
      (.literal [.plain index]) (.before (q :: rest) (index + 1) indents budget) := by
  refine Gives.bind (Gives.bind (gives_head _ _)
    (Gives.bind (gives_primary_literal inner hp hq hf hbudget) (gives_pure _ _))) ?_
  refine Gives.loop_once hbudget ?_
  exact Gives.bind (gives_look_lineEnd hq rfl rfl hf) (gives_pure _ _)

omit hf

theorem gives_lineExpressions_literal (types : TypeRule) (patterns : Patterns) (n : Nat) :
    Gives (lineExpressions ⟨Phrases.upTo (n + 1), types, patterns⟩ neverStop)
      (.before (⟨layout, .string true⟩ :: q :: rest) index indents budget)
      ([.literal [.plain index]], false) (.before (q :: rest) (index + 1) indents budget) := by
  refine Gives.bind (gives_expressionRule_literal _ hp hq rfl hbudget) ?_
  refine Gives.loop_once hbudget ?_
  exact Gives.bind (gives_look_lineEnd hq rfl rfl rfl) (gives_pure _ _)

omit hp in
/-- Nothing is assigned at the end of a line. -/
theorem gives_assignmentTail (rules : Rules) (target : Bool) :
    Gives (assignmentTail rules target) (.before (q :: rest) index indents budget) false
      (.before (q :: rest) index indents budget) := by
  refine Gives.loop_once hbudget ?_
  exact Gives.bind (gives_look_lineEnd hq rfl rfl rfl) (gives_pure _ _)

/-- A line of one literal is an expression by itself. -/
theorem gives_expressionStatement_literal (types : TypeRule) (patterns : Patterns) (n : Nat) :
    Gives (expressionStatement ⟨Phrases.upTo (n + 1), types, patterns⟩)
      (.before (⟨layout, .string true⟩ :: q :: rest) index indents budget)
      (.expression index (.literal [.plain index]))
      (.before (q :: rest) (index + 1) indents budget) := by
  refine Gives.bind (gives_position _) (Gives.bind (gives_head _ _) ?_)
  rw [if_neg (by simp)]
  refine Gives.bind (gives_lineExpressions_literal hp hq hbudget types patterns n) ?_
  exact Gives.bind (gives_assignmentTail hq hbudget _ _) (gives_pure _ _)

end Literal

/-- A line ends behind a statement that has read everything on it. -/
theorem gives_statementLine {rules : Rules} {c : Cursor} {statement : Statement}
    (hbudget : c.budget ≠ 0)
    (h : Gives (simpleStatement rules) c statement (.before (q :: rest) index indents budget))
    (hq : q.StartsLine column) :
    Gives (statementLine rules) c [statement] (.before (q :: rest) index indents budget) := by
  refine Gives.loop_once hbudget (Gives.bind h ?_)
  exact Gives.bind (gives_look_lineEnd hq rfl rfl rfl) (gives_pure _ _)

theorem gives_simpleStatement_pass (rules : Rules)
    (hp : Piece.Plain ⟨layout, .word Keyword.pass_⟩) :
    Gives (simpleStatement rules)
      (.before (⟨layout, .word Keyword.pass_⟩ :: rest) index indents budget) (.plain index)
      (.before rest (index + 1) indents budget) := by
  refine Gives.bind (gives_position _) (Gives.bind (gives_head _ _) ?_)
  exact Gives.bind (gives_take hp).discard (gives_pure _ _)

/-- The rule for statements takes a literal on a line of its own for an expression. -/
theorem gives_statement_literal (n m : Nat) (hp : Piece.Plain ⟨layout, .string true⟩)
    (hq : q.StartsLine column) (hbudget : budget ≠ 0) :
    Gives (statementUpTo (Rules.upTo (n + 1)) (m + 1))
      (.before (⟨layout, .string true⟩ :: q :: rest) index indents budget)
      [.expression index (.literal [.plain index])]
      (.before (q :: rest) (index + 1) indents budget) := by
  refine Gives.bind (gives_position _) (Gives.bind (gives_head _ _) ?_)
  refine gives_statementLine hbudget ?_ hq
  refine Gives.bind (gives_position _) (Gives.bind (gives_head _ _) ?_)
  exact gives_expressionStatement_literal hp hq hbudget _ _ n

theorem gives_statement_pass (rules : Rules) (m : Nat)
    (hp : Piece.Plain ⟨layout, .word Keyword.pass_⟩) (hq : q.StartsLine column)
    (hbudget : budget ≠ 0) :
    Gives (statementUpTo rules (m + 1))
      (.before (⟨layout, .word Keyword.pass_⟩ :: q :: rest) index indents budget) [.plain index]
      (.before (q :: rest) (index + 1) indents budget) := by
  refine Gives.bind (gives_position _) (Gives.bind (gives_head _ _) ?_)
  exact gives_statementLine hbudget (gives_simpleStatement_pass rules hp) hq

/-- What is read behind a certain token alone is left out where another one stands. -/
theorem gives_unless_next {α : Type} {e : Expected} {t : Token} (hq : q.InLine) (ht : q.token ≠ t)
    (reader : Parser α) (a : α) :
    Gives (do if (← next e) = t then reader else pure a)
      (.before (q :: rest) index indents budget) a (.before (q :: rest) index indents budget) := by
  refine Gives.bind (gives_next hq e) ?_
  rw [if_neg ht]
  exact gives_pure a _

/-- A parameter by its name alone ends in front of a comma or a parenthesis. -/
theorem gives_parameter (inner : Phrases) (hint : Parser Unit) {w : Word}
    (hp : Piece.Plain ⟨layout, .word w⟩) (hq : q.InLine)
    (hcolon : q.token ≠ .symbol .colon) (hassign : q.token ≠ .symbol .assign) :
    Gives (parameter inner f (some hint))
      (.before (⟨layout, .word w⟩ :: q :: rest) index indents budget) (.named w false false)
      (.before (q :: rest) (index + 1) indents budget) := by
  refine Gives.bind (gives_head _ _) (Gives.bind (gives_take hp).discard ?_)
  refine Gives.bind (gives_unless_next hq hcolon _ false) ?_
  exact Gives.bind (gives_unless_next hq hassign _ false) (gives_pure _ _)

end SourceSurvey.Syntax.Parser
