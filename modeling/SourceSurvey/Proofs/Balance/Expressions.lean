import Mathlib.Data.Option.Basic
import SourceSurvey.Proofs.Balance.Nesting
import SourceSurvey.Proofs.Syntax.RuleParts

/-!
Every expression is balanced: the rule for it leaves whatever bracket or literal it enters.
-/

namespace SourceSurvey.Syntax

open SourceSurvey.Syntax.Parser

/-- The rules that phrases nest in are balanced. -/
structure Phrases.AllBalanced (inner : Phrases) : Prop where
  expression : ∀ f, Balanced (inner.expression f)
  operand : ∀ whole f, Balanced (inner.operand whole f)
  hole : Balanced inner.hole

/-- A token that opens and closes nothing is passed, and a phrase is read behind it. -/
theorem balanced_behind {α : Type} {e : Expected} {u : Token} {reader : Parser α}
    (hu : u.nesting = 0) (h : Balanced reader) :
    BalancedAt (some u) (do discard <| advance e; discard reader) :=
  (balanced_advance hu).discard.bind fun _ => h.discard

section Phrases

variable {inner : Phrases} {f : Follow} {t : Option Token} {u : Token}

section

variable (hinner : inner.AllBalanced)

include hinner

theorem balanced_expressionList (stop : Token → Bool) :
    BalancedAt t (expressionList inner f stop) := by
  refine .bind ((hinner.expression f).at t) fun first => .loop fun s => .look fun l => ?_
  split
  · refine .advanceLook rfl fun l => ?_
    split
    · refine .ite ?_ (nests_pure rfl)
      exact .bind ((hinner.expression f).at _) fun shape => nests_pure rfl
    · exact nests_pure rfl
  · exact nests_pure rfl

theorem balanced_yieldPhrase (hu : u.nesting = 0) : BalancedAt (some u) (yieldPhrase inner f) := by
  have hlist : Balanced (discard (expressionList inner f neverStop)) :=
    (balanced_expressionList hinner neverStop).discard
  refine .advanceLook hu fun l => ?_
  split
  · exact .ite (balanced_behind rfl (hinner.expression f)) (hlist.at _)
  · exact .ite (hlist.at _) (nests_pure rfl)
  · exact nests_pure rfl

theorem balanced_formatLiteral : BalancedAt t (formatLiteral inner) := by
  refine .interpolated (.loop fun s => .head fun u => ?_)
  split
  · exact .bind (balanced_pass rfl) fun _ => .bind hinner.hole fun _ => nests_pure rfl
  · exact nests_pure rfl
  · exact nests_failure

/-- The end of interpolated code, with a format or without. -/
theorem balanced_holeEnd {e : Expected} : BalancedAt (some u) (do
    if u = .formatColon then
      discard take
      loop (fun () => do
        match ← take with
        | .holeOpen => do
          inner.hole
          pure (.inl ())
        | .holeClose => pure (.inr ())
        | _ => failure) ()
    else expect e .holeClose) := by
  refine .iteShows (.bind (balanced_pass rfl) fun _ => .loop fun s => .take fun u => ?_)
    (balanced_expect rfl)
  split
  · exact .bind hinner.hole fun _ => nests_pure rfl
  · exact nests_pure rfl
  · exact nests_failure

theorem balanced_holeRule : Balanced (holeRule inner) := by
  refine .next fun u => ?_
  split
  · refine .ite (.bind (balanced_yieldPhrase hinner rfl) fun _ => ?_)
      (.bind (balanced_expressionList hinner _).discard fun _ => ?_)
    all_goals
      exact .next fun v => .advanceIf rfl fun w => .advanceIf rfl fun x => balanced_holeEnd hinner
  · refine .bind (balanced_expressionList hinner _).discard fun _ => ?_
    exact .next fun v => .advanceIf rfl fun w => .advanceIf rfl fun x => balanced_holeEnd hinner

omit hinner in
theorem nests_literalsEnd (parts : List LiteralPart) :
    Nests none (Sum.elim (fun _ => 0) (fun _ => 0)) (literalsEnd f parts) := by
  refine .look fun l => ?_
  split
  · exact .ite (nests_pure rfl) (nests_pure rfl)
  · exact nests_pure rfl

theorem balanced_literals : BalancedAt t (literals inner f) := by
  refine .loop fun s => .ask fun index => .head fun u => ?_
  split
  · exact .bind (balanced_pass rfl) fun _ => .pureBind (nests_literalsEnd _)
  · exact .bind (balanced_formatLiteral hinner) fun _ => .pureBind (nests_literalsEnd _)
  · exact .bind nests_failure fun part => nests_literalsEnd (part :: s)

theorem balanced_targets : BalancedAt t (targets inner) := by
  refine .loop fun s => .bind (hinner.operand false .inner) fun shape => .guarded fun _ => ?_
  refine .next fun u => ?_
  split
  · exact .advance rfl fun v => .ite (nests_pure rfl) (nests_pure rfl)
  · exact nests_pure rfl

theorem balanced_forClause (hu : u.nesting = 0) : BalancedAt (some u) (forClause inner) := by
  refine .bind (balanced_advance hu).discard fun _ => .bind (balanced_targets hinner) fun _ => ?_
  refine .bind (balanced_expect rfl) fun _ => .bind balanced_next.discard fun _ => ?_
  exact (balanced_expressionList hinner _).discard

theorem balanced_clauses : BalancedAt t (clauses inner) := by
  refine .loop fun s => .next fun u => ?_
  split
  · refine .ite ?_ (.ite ?_ (.ite ?_ (nests_pure rfl)))
    · refine .advance rfl fun v => .iteShows ?_ nests_failure
      exact .bind (balanced_forClause hinner rfl) fun _ => nests_pure rfl
    · exact .bind (balanced_forClause hinner rfl) fun _ => nests_pure rfl
    · refine .bind (balanced_advance rfl).discard fun _ => ?_
      exact .bind (hinner.expression _).discard fun _ => nests_pure rfl
  · exact nests_pure rfl

/-- A comprehension, from its clauses to behind the bracket that closes it. -/
theorem nests_clauses_expect {α : Type} {n : α → Int} {e : Expected} {a : α}
    (hu : n a = u.nesting) :
    Nests t n (do clauses inner; expect e u; pure a) :=
  .bind (balanced_clauses hinner) fun _ => nests_expect_pure hu

theorem balanced_element : BalancedAt t (element inner) := by
  have hvalue : Balanced (do return Element.value (← inner.expression .bracketed)) :=
    .bind (hinner.expression _) fun shape => nests_pure rfl
  refine .head fun u => ?_
  split
  · refine .bind (.attempt ?_) fun starred => ?_
    · refine .bind (balanced_advance rfl).discard fun _ => ?_
      refine .bind (hinner.expression _) fun shape => .next fun v => ?_
      exact nests_pure rfl
    · split
      · exact nests_pure rfl
      · exact hvalue
  · refine .ite ?_ (hvalue.at _)
    exact .bind (balanced_yieldPhrase hinner rfl) fun _ => nests_pure rfl
  · exact hvalue.at _

theorem nests_moreElements {close : Symbol} {first : List Shape} (hclose : close.nesting = -1) :
    Nests t (fun _ => -1) (moreElements inner close first) := by
  have hend : ∀ shapes : List Shape,
      Nests (some (.symbol close)) (Sum.elim (fun _ => 0) (fun _ => -1)) (do
        discard take
        pure (.inr (.collection shapes.reverse)) : Parser (List Shape ⊕ Shape)) :=
    fun shapes => nests_pass_pure hclose.symm
  refine .loop fun shapes => .next fun u => ?_
  split
  · next s =>
    split
    · next hs =>
      subst hs
      refine .advance rfl fun v => .iteShows (hend shapes) ?_
      exact .bind (balanced_element hinner) fun e => nests_pure rfl
    · split
      · next hs =>
        subst hs
        exact hend shapes
      · exact nests_failure
  · exact nests_failure

theorem balanced_parenthesised :
    BalancedAt (some (.symbol .leftParen)) (parenthesised inner) := by
  refine .open rfl fun u => .iteShows (nests_pass_pure rfl) (.ask fun before => ?_)
  refine .bind ((balanced_element hinner).at _) fun first => .next fun v => ?_
  split
  · refine .ask fun after => ?_
    split
    · exact nests_pass_pure rfl
    · exact nests_pass_pure rfl
  · exact nests_moreElements hinner rfl
  · split
    · exact .guarded fun _ => nests_clauses_expect hinner rfl
    · exact nests_failure

theorem balanced_bracketed :
    BalancedAt (some (.symbol .leftBracket)) (bracketed inner) := by
  refine .open rfl fun u => .iteShows (nests_pass_pure rfl) ?_
  refine .bind ((balanced_element hinner).at _) fun first => .next fun v => ?_
  split
  · exact .ite (nests_clauses_expect hinner rfl) (nests_moreElements hinner rfl)
  · exact nests_moreElements hinner rfl

theorem balanced_keyedValue (hu : u.nesting = 0) : BalancedAt (some u) (keyedValue inner) :=
  balanced_behind hu (hinner.expression _)

theorem nests_moreEntries : Nests t (fun _ => -1) (moreEntries inner) := by
  refine .loop fun s => .next fun u => ?_
  split
  · refine .advance rfl fun v => ?_
    split
    · exact nests_pass_pure rfl
    · exact .bind (balanced_keyedValue hinner rfl) fun _ => nests_pure rfl
    · refine .bind ((hinner.expression _).discard.at _) fun _ => .next fun w => ?_
      refine .guarded fun hw => ?_
      subst hw
      exact .bind (balanced_keyedValue hinner rfl) fun _ => nests_pure rfl
  · exact nests_pass_pure rfl
  · exact nests_failure

theorem balanced_braced : BalancedAt (some (.symbol .leftBrace)) (braced inner) := by
  refine .open rfl fun u => ?_
  split
  · exact nests_pass _
  · exact .bind (balanced_pass rfl) fun _ => nests_expect _
  · exact .bind (balanced_keyedValue hinner rfl) fun _ => nests_moreEntries hinner
  · refine .bind ((balanced_element hinner).at _) fun first => .next fun v => ?_
    have hset : Nests (some v) (fun _ => -1) (discard (moreElements inner .rightBrace [])) :=
      (nests_moreElements hinner rfl).discard
    split
    · refine .iteShows ?_ (.ite ?_ hset)
      · refine .bind (balanced_keyedValue hinner rfl) fun _ => .next fun w => ?_
        refine .ite ?_ (nests_moreEntries hinner)
        exact .bind (balanced_clauses hinner) fun _ => nests_expect _
      · exact .bind (balanced_clauses hinner) fun _ => nests_expect _
    · exact hset

/-- What comes behind an argument: the end, a comma or the clauses of a comprehension. -/
theorem nests_behindArgument (allowed : Bool) :
    Nests none (Sum.elim (fun _ => 0) (fun _ => -1)) (do
      let t ← next Follow.bracketed.expected
      match t with
      | .symbol .rightParen => do
        discard take
        pure (.inr ())
      | .symbol .comma =>
        if (← advance .element) = .symbol .rightParen then
          discard take
          pure (.inr ())
        else pure (.inl false)
      | _ => do
        guard (allowed && t.startsClauses)
        clauses inner
        expect Follow.bracketed.expected (.symbol .rightParen)
        pure (.inr ()) : Parser (Bool ⊕ Unit)) := by
  refine .next fun u => ?_
  split
  · exact nests_pass_pure rfl
  · exact .advance rfl fun v => .iteShows (nests_pass_pure rfl) (nests_pure rfl)
  · exact .guarded fun _ => nests_clauses_expect hinner rfl

theorem balanced_arguments (comprehension : Bool) :
    BalancedAt (some (.symbol .leftParen)) (arguments inner comprehension) := by
  have hbehind := nests_behindArgument hinner
  refine .open rfl fun u => ?_
  split
  · exact nests_pass _
  · exact .bind (balanced_pass rfl) fun _ => nests_expect _
  · refine .loop fun alone => .head fun v => ?_
    split
    · exact .bind (balanced_keyedValue hinner rfl) fun _ => .pureBind (hbehind _)
    · refine .bind (balanced_element hinner) fun e => ?_
      split
      · exact .pureBind (hbehind _)
      · exact .pureBind (hbehind _)
    · refine .bind ((hinner.expression _).at _) fun shape => .next fun w => .iteShows ?_ ?_
      · split
        · exact .bind (balanced_keyedValue hinner rfl) fun _ => .pureBind (hbehind _)
        · exact .bind nests_failure fun _ => hbehind _
      · exact .pureBind ((hbehind _).at _)

theorem balanced_sliceBound (hu : u.nesting = 0) : BalancedAt (some u) (sliceBound inner) := by
  refine .advance hu fun w => ?_
  split
  · exact nests_pure rfl
  · exact nests_pure rfl
  · exact nests_pure rfl
  · exact ((hinner.expression _).at _).discard

theorem balanced_sliceBounds (hu : u.nesting = 0) : BalancedAt (some u) (sliceBounds inner) :=
  .bind (balanced_sliceBound hinner hu) fun _ =>
    .next fun _ => .iteShows (balanced_sliceBound hinner rfl) (nests_pure rfl)

omit hinner in
theorem nests_indexEnd : Nests none (Sum.elim (fun _ => 0) (fun _ => -1)) indexEnd := by
  refine .next fun u => ?_
  split
  · exact nests_pass_pure rfl
  · exact .advance rfl fun v => .iteShows (nests_pass_pure rfl) (nests_pure rfl)
  · exact nests_failure

theorem balanced_subscripts : BalancedAt (some (.symbol .leftBracket)) (subscripts inner) := by
  have hslice : BalancedAt (some (.symbol .colon)) (sliceBounds inner) :=
    balanced_sliceBounds hinner rfl
  refine .close (nests_advance _).discard fun _ => .loop fun s => .head fun v => .iteShows ?_ ?_
  · exact .bind hslice fun _ => nests_indexEnd
  · refine .bind ((hinner.expression _).discard.at _) fun _ => .next fun w => .iteShows ?_ ?_
    · exact .bind hslice fun _ => nests_indexEnd
    · exact .pureBind (nests_indexEnd.at _)

theorem balanced_atom : BalancedAt t (atom inner f) := by
  refine .head fun u => ?_
  split
  · exact nests_pass_pure rfl
  · exact nests_pass_pure rfl
  · exact balanced_literals hinner
  · exact balanced_literals hinner
  · exact nests_pass_pure rfl
  · exact balanced_parenthesised hinner
  · exact balanced_bracketed hinner
  · exact .bind (balanced_braced hinner) fun _ => nests_pure rfl
  · exact nests_failure

theorem balanced_primary : BalancedAt t (primary inner f) := by
  refine .bind (balanced_atom hinner) fun first => .loop fun s => .look fun l => ?_
  split
  · refine .bind (balanced_pass rfl) fun _ => .bind balanced_expectWord.discard fun _ => ?_
    exact nests_pure rfl
  · exact .bind (balanced_arguments hinner true) fun _ => nests_pure rfl
  · exact .bind (balanced_subscripts hinner) fun _ => nests_pure rfl
  · exact nests_pure rfl

theorem balanced_namedPrimary (whole : Bool) : BalancedAt t (namedPrimary inner whole f) := by
  refine .bind (balanced_primary hinner) fun (shape, member) => ?_
  simp only
  split
  · refine .ite (.look fun l => ?_) (nests_pure rfl)
    split
    · exact .bind (balanced_advance rfl).discard fun _ =>
        .bind (hinner.operand true f).discard fun _ => nests_pure rfl
    · exact nests_pure rfl
  · exact nests_pure rfl

/-- An operator that opens and closes nothing, and its operand. -/
theorem balanced_operator {α : Type} {n : α → Int} {e : Expected} {whole : Bool} {a : α}
    (hu : u.nesting = 0) (ha : n a = 0) :
    Nests (some u) n (do
      discard <| advance e
      discard <| inner.operand whole f
      return a) :=
  .bind (balanced_advance hu).discard fun _ =>
    .bind (hinner.operand whole f).discard fun _ => nests_pure ha

theorem balanced_starredOperand (hu : u.nesting = 0) :
    BalancedAt (some u) (starredOperand inner f) := by
  refine .advance hu fun v => .bind (balanced_primary hinner) fun (shape, member) => ?_
  exact .guarded fun _ => nests_pure rfl

theorem balanced_awaited (whole : Bool) (hu : u.nesting = 0) :
    BalancedAt (some u) (awaited inner whole f) := by
  have hname : BalancedAt (some u) (namedPrimary inner whole f) :=
    balanced_namedPrimary hinner whole
  have hoperator : BalancedAt (some u) (do
    discard <| advance .operand
    discard <| inner.operand false f
    return .other : Parser Shape) := balanced_operator hinner hu rfl
  refine .ask fun found => ?_
  split
  · split
    all_goals first
      | exact hname | exact hoperator | exact hname.orElse hoperator
      | exact .ite hname hoperator
  · exact hname

/-! ### Parameters -/

omit hinner in
theorem balanced_annotationPhrase {hint : Option (Parser Unit)} (hhint : ∀ r ∈ hint, Balanced r) :
    BalancedAt t (annotationPhrase f hint) := by
  cases hint with
  | none => exact nests_pure rfl
  | some hint =>
    refine .next fun u => .iteShows ?_ (nests_pure rfl)
    refine .bind (balanced_advance rfl).discard fun _ => ?_
    exact .bind (hhint hint rfl) fun _ => nests_pure rfl

theorem balanced_defaultPhrase : BalancedAt t (defaultPhrase inner f) := by
  refine .next fun u => .iteShows ?_ (nests_pure rfl)
  refine .bind (balanced_advance rfl).discard fun _ => ?_
  exact .bind (hinner.expression f).discard fun _ => nests_pure rfl

theorem balanced_parameter {hint : Option (Parser Unit)} (hhint : ∀ r ∈ hint, Balanced r) :
    BalancedAt t (parameter inner f hint) := by
  refine .head fun u => ?_
  split
  · refine .bind (balanced_pass rfl) fun _ => .bind (balanced_annotationPhrase hhint) fun a => ?_
    exact .bind (balanced_defaultPhrase hinner) fun d => nests_pure rfl
  · refine .bind (balanced_parenthesised hinner) fun shape => .guarded fun _ => ?_
    exact .bind (balanced_defaultPhrase hinner) fun d => nests_pure rfl
  · refine .advance rfl fun v => ?_
    split
    · exact nests_pure rfl
    · exact nests_pure rfl
    · exact nests_pure rfl
    · refine .bind ((hinner.operand false f).at _) fun shape => .guarded fun _ => ?_
      exact .bind (balanced_annotationPhrase hhint) fun a => nests_pure rfl
  · refine .bind (balanced_advance rfl).discard fun _ => ?_
    refine .bind (hinner.operand false f) fun shape => .guarded fun _ => ?_
    exact .bind (balanced_annotationPhrase hhint) fun a => nests_pure rfl
  · exact nests_pass_pure rfl
  · exact nests_failure

theorem balanced_parameterList {hint : Option (Parser Unit)} (hhint : ∀ r ∈ hint, Balanced r)
    (close : Symbol) : BalancedAt t (parameterList inner f hint close) := by
  refine .next fun u => .ite (nests_pure rfl) (.loop fun before => ?_)
  refine .bind (balanced_parameter hinner hhint) fun p => .next fun v => ?_
  split
  · next s =>
    split
    · next hs =>
      subst hs
      exact .advance rfl fun w => .ite (nests_pure rfl) (nests_pure rfl)
    · exact .ite (nests_pure rfl) nests_failure
  · exact nests_failure

theorem balanced_lambdaPhrase (hu : u.nesting = 0) :
    BalancedAt (some u) (lambdaPhrase inner f) := by
  have hnone : ∀ r ∈ (none : Option (Parser Unit)), Balanced r := nofun
  refine .bind (balanced_pass hu) fun _ => ?_
  refine .bind (balanced_parameterList hinner hnone _).discard fun _ => ?_
  refine .bind (balanced_expect rfl) fun _ => .bind balanced_next.discard fun _ => ?_
  exact (hinner.expression _).discard

/-! ### Operators -/

theorem balanced_operandRule (whole : Bool) : BalancedAt t (operandRule inner whole f) := by
  refine .head fun u => ?_
  split
  · refine .ite (balanced_operator hinner rfl rfl) (.ite ?_ ?_)
    · exact .bind (balanced_lambdaPhrase hinner rfl) fun _ => nests_pure rfl
    · exact .ite (balanced_awaited hinner whole rfl) (balanced_namedPrimary hinner whole)
  · exact balanced_operator hinner rfl rfl
  · exact balanced_operator hinner rfl rfl
  · exact balanced_operator hinner rfl rfl
  · exact balanced_starredOperand hinner rfl
  · exact balanced_namedPrimary hinner whole

theorem balanced_wordOperator (w : Word) :
    BalancedAt (some (.word w)) (wordOperator inner f w) := by
  refine .ite (balanced_operator hinner rfl rfl) (.ite (balanced_operator hinner rfl rfl) ?_)
  refine .ite ?_ (.ite ?_ (.ite ?_ (nests_pure rfl)))
  · refine .advance rfl fun v => .guarded fun hv => ?_
    subst hv
    exact balanced_operator hinner rfl rfl
  · refine .advance rfl fun v => .iteShows (balanced_operator hinner rfl rfl) ?_
    exact .bind ((hinner.operand false f).discard.at _) fun _ => nests_pure rfl
  · refine .bind (balanced_advance rfl).discard fun _ => ?_
    refine .bind (hinner.expression _).discard fun _ => .bind (balanced_expect rfl) fun _ => ?_
    refine .bind balanced_next.discard fun _ => ?_
    exact .bind (hinner.operand true f).discard fun _ => nests_pure rfl

theorem balanced_expressionRule : Balanced (expressionRule inner f) := by
  refine .bind (balanced_operandRule hinner true) fun first => .loop fun shape => .look fun l => ?_
  split
  · next s =>
    split
    · next hbinary =>
      have hs : (Token.symbol s).nesting = 0 := by
        cases s <;> first | rfl | cases hbinary
      exact balanced_operator hinner hs rfl
    · exact nests_pure rfl
  · refine .bind (balanced_wordOperator hinner _) fun found => .ite (nests_pure rfl) (nests_pure rfl)
  · exact nests_pure rfl

end

end Phrases

/-- However deep phrases nest, they are balanced. -/
theorem allBalanced_upTo (depth : Nat) : (Phrases.upTo depth).AllBalanced := by
  induction depth with
  | zero => exact ⟨fun _ => nests_failure, fun _ _ => nests_failure, nests_failure⟩
  | succ depth ih =>
    exact ⟨fun _ => balanced_expressionRule ih, fun whole _ => balanced_operandRule ih whole,
      balanced_holeRule ih⟩

end SourceSurvey.Syntax
