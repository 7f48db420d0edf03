import SourceSurvey.Proofs.Syntax.Inversion
import SourceSurvey.Syntax.Module

/-!
A reader of a phrase passes at least one token. It is enough that one of its steps does, since no
step goes back.
-/

namespace SourceSurvey.Syntax

namespace Parser

variable {α β σ : Type}

/-- A reader passes at least one token. -/
def Advances (reader : Parser α) : Prop := ∀ ⦃c a d⦄, Gives reader c a d → c.index < d.index

theorem Advances.bind {reader : Parser α} (h : reader.Advances) (f : α → Parser β) :
    (reader >>= f).Advances := by
  intro c b d hread
  obtain ⟨a, c', hfirst, hrest⟩ := gives_bind_iff.mp hread
  exact Nat.lt_of_lt_of_le (h hfirst) hrest.reaches.index_le

theorem advances_bind (reader : Parser α) {f : α → Parser β} (h : ∀ a, (f a).Advances) :
    (reader >>= f).Advances := by
  intro c b d hread
  obtain ⟨a, c', hfirst, hrest⟩ := gives_bind_iff.mp hread
  exact Nat.lt_of_le_of_lt hfirst.reaches.index_le (h a hrest)

theorem Advances.discard {reader : Parser α} (h : reader.Advances) :
    (Functor.discard reader).Advances := by
  intro c u d hread
  obtain ⟨a, hread⟩ := gives_discard_iff.mp hread
  exact h hread

theorem Advances.orElse {first second : Parser α} (hfirst : first.Advances)
    (hsecond : second.Advances) : (first <|> second).Advances := by
  intro c a d hread
  obtain hread | hread := hread.of_orElse
  · exact hfirst hread
  · exact hsecond hread

theorem advances_failure : (failure : Parser α).Advances := fun _ _ _ h => absurd h not_gives_failure

theorem Advances.ite {p : Prop} [Decidable p] {first second : Parser α} (hfirst : first.Advances)
    (hsecond : second.Advances) : (if p then first else second).Advances := by
  split
  · exact hfirst
  · exact hsecond

/-- The first round of a loop takes place. -/
theorem Advances.loop {step : σ → Parser (σ ⊕ α)} {s : σ} (h : (step s).Advances) :
    (Parser.loop step s).Advances := by
  refine advances_bind _ fun rounds => ?_
  cases rounds with
  | zero => exact advances_failure
  | succ rounds => exact h.bind _

theorem advances_take : take.Advances := by
  intro c t d h
  obtain ⟨p, rest, -, -, rfl⟩ := h.of_take
  exact Nat.lt_succ_self c.index

theorem advances_advance (e : Expected) : (advance e).Advances := advances_take.discard.bind _

theorem advances_advanceLook (e : Expected) : (advanceLook e).Advances := advances_take.discard.bind _

theorem advances_interpolated (body : Parser Unit) : (interpolated body).Advances := by
  intro c u d h
  obtain ⟨first, rest, inside, last, behind, -, hbody, -, rfl⟩ := h.of_interpolated
  exact Nat.lt_succ_of_le (Nat.le_of_succ_le hbody.reaches.index_le)

end Parser

open SourceSurvey.Syntax.Parser

/-! ### Expressions -/

variable {inner : Phrases} {f : Follow}

theorem advances_literals : (literals inner f).Advances := by
  refine .loop (advances_bind _ fun index => advances_bind _ fun t => ?_)
  split
  · exact advances_take.discard.bind _
  · exact (advances_interpolated _).bind _
  · exact advances_failure.bind _

theorem advances_parenthesised : (parenthesised inner).Advances := (advances_advance _).bind _

theorem advances_bracketed : (bracketed inner).Advances := (advances_advance _).bind _

theorem advances_braced : (braced inner).Advances := (advances_advance _).bind _

theorem advances_atom : (atom inner f).Advances := by
  refine advances_bind _ fun t => ?_
  split
  · exact advances_take.discard.bind _
  · exact advances_take.discard.bind _
  · exact advances_literals
  · exact advances_literals
  · exact advances_take.discard.bind _
  · exact advances_parenthesised
  · exact advances_bracketed
  · exact advances_braced.bind _
  · exact advances_failure

theorem advances_primary : (primary inner f).Advances := advances_atom.bind _

theorem advances_namedPrimary (whole : Bool) : (namedPrimary inner whole f).Advances :=
  advances_primary.bind _

theorem advances_starredOperand : (starredOperand inner f).Advances :=
  (advances_advance _).bind _

theorem advances_awaited (whole : Bool) : (awaited inner whole f).Advances := by
  have hname : (namedPrimary inner whole f).Advances := advances_namedPrimary whole
  have hoperator : (do
    discard <| advance .operand
    discard <| inner.operand false f
    return .other : Parser Shape).Advances := (advances_advance _).discard.bind _
  refine advances_bind _ fun found => ?_
  split
  · split
    all_goals first
      | exact hname | exact hoperator | exact hname.orElse hoperator
      | exact .ite hname hoperator
  · exact hname

theorem advances_lambdaPhrase : (lambdaPhrase inner f).Advances := advances_take.discard.bind _

theorem advances_operandRule (whole : Bool) : (operandRule inner whole f).Advances := by
  have hadvance := (advances_advance .operand).discard
  refine advances_bind _ fun t => ?_
  split
  · refine .ite (hadvance.bind _) (.ite (advances_lambdaPhrase.bind _) ?_)
    exact .ite (advances_awaited whole) (advances_namedPrimary whole)
  · exact hadvance.bind _
  · exact hadvance.bind _
  · exact hadvance.bind _
  · exact advances_starredOperand
  · exact advances_namedPrimary whole

theorem advances_expression (depth : Nat) : ((Phrases.upTo depth).expression f).Advances := by
  cases depth with
  | zero => exact advances_failure
  | succ depth => exact (advances_operandRule true).bind _

theorem advances_expressionList (depth : Nat) (stop : Token → Bool) :
    (expressionList (Phrases.upTo depth) f stop).Advances := (advances_expression depth).bind _

theorem advances_yieldPhrase : (yieldPhrase inner f).Advances := (advances_advanceLook _).bind _

/-! ### Statements -/

variable (depth : Nat)

theorem advances_expressionStatement : (expressionStatement (Rules.upTo depth)).Advances := by
  refine advances_bind _ fun start => advances_bind _ fun t => ?_
  exact .ite (advances_yieldPhrase.bind _) ((advances_expressionList depth _).bind _)

theorem advances_expressionOr {other : Parser Statement} (hother : other.Advances) :
    (expressionOr (Rules.upTo depth) other).Advances :=
  ((advances_expressionStatement depth).bind _).orElse hother

theorem advances_simpleStatement : (simpleStatement (Rules.upTo depth)).Advances := by
  have hexpression := advances_expressionStatement depth
  have htoOperand : advanceToOperand.Advances := (advances_advance _).bind _
  have hprint : (printStatement (Rules.upTo depth)).Advances :=
    advances_bind _ fun start => htoOperand.bind _
  have hexec : (execStatement (Rules.upTo depth)).Advances :=
    advances_bind _ fun start => htoOperand.bind _
  have halias : (aliasStatement (Rules.upTo depth)).Advances :=
    advances_bind _ fun start => htoOperand.discard.bind _
  have hfrom : importFromStatement.Advances :=
    advances_bind _ fun start => .bind (.bind (advances_advance _) _) _
  have hraise : (raiseStatement (Rules.upTo depth)).Advances := (advances_advanceLook _).bind _
  refine advances_bind _ fun start => advances_bind _ fun t => ?_
  split
  · refine .ite ((advances_advance _).discard.bind _) (.ite hfrom (.ite ?_ (.ite ?_ (.ite ?_ ?_))))
    · exact advances_take.discard.bind _
    · exact (advances_advanceLook _).bind _
    · exact .bind (.bind (advances_advance _).discard _) _
    · refine .ite ?_ (.ite ?_ (.ite ?_ (.ite ?_ ?_)))
      · exact (advances_advance _).discard.bind _
      · exact hraise.bind _
      · exact advances_take.discard.bind _
      · refine advances_bind _ fun found => ?_
        split
        · exact hprint
        · exact advances_expressionOr depth hprint
      · refine .ite (advances_expressionOr depth hexec) (.ite ?_ hexpression)
        exact advances_expressionOr depth halias
  · exact hexpression

end SourceSurvey.Syntax
