import SourceSurvey.Proofs.Splices.Types

/-!
Statements on one logical line are read alike at cursors that are alike.
-/

namespace SourceSurvey.Syntax

open SourceSurvey.Syntax.Parser

/-! ### Statements without marks -/

mutual

/-- A statement without the marks of joined lines on its shapes. -/
def Statement.bare : Statement → Statement
  | .expression start shape => .expression start shape.bare
  | .definition decorators start stop kind name body =>
    .definition decorators start stop kind name (Statement.bareAll body)
  | .block start body => .block start (Statement.bareAll body)
  | .importing start what => .importing start what
  | .legacy start keyword => .legacy start keyword
  | .plain start => .plain start

/-- Statements without the marks of joined lines on their shapes. -/
def Statement.bareAll : List Statement → List Statement
  | [] => []
  | s :: rest => s.bare :: Statement.bareAll rest

end

/-- Statements that differ only in the marks of joined lines. -/
def Statement.Alike (s s' : Statement) : Prop := s.bare = s'.bare

/-- The same for each of some statements. -/
def Statement.AllAlike (body body' : List Statement) : Prop :=
  Statement.bareAll body = Statement.bareAll body'

theorem Statement.Alike.refl (s : Statement) : s.Alike s := rfl

theorem Statement.Alike.expression {s s' : Shape} (h : s.Alike s') (start : Nat) :
    (Statement.expression start s).Alike (.expression start s') :=
  congrArg (Statement.expression start) h

theorem Statement.bareAll_eq_map (body : List Statement) :
    Statement.bareAll body = body.map Statement.bare := by
  induction body with
  | nil => rfl
  | cons s rest ih => rw [Statement.bareAll, ih, List.map_cons]

namespace Statement.AllAlike

variable {s s' : Statement} {body body' more more' : List Statement}

theorem refl (body : List Statement) : AllAlike body body := rfl

theorem cons (h : s.Alike s') (hs : AllAlike body body') : AllAlike (s :: body) (s' :: body') :=
  congrArg₂ List.cons h hs

theorem single (h : s.Alike s') : AllAlike [s] [s'] := .cons h rfl

theorem append (h : AllAlike body body') (hmore : AllAlike more more') :
    AllAlike (body ++ more) (body' ++ more') := by
  unfold AllAlike at h hmore ⊢
  simp only [bareAll_eq_map, List.map_append] at h hmore ⊢
  rw [h, hmore]

theorem reverse (h : AllAlike body body') : AllAlike body.reverse body'.reverse := by
  unfold AllAlike at h ⊢
  simp only [bareAll_eq_map, List.map_reverse] at h ⊢
  rw [h]

theorem block (h : AllAlike body body') (start : Nat) :
    (Statement.block start body).Alike (.block start body') := congrArg (Statement.block start) h

theorem definition (h : AllAlike body body') (decorators : List Nat) (start stop : Nat)
    (kind : DefinitionKind) (name : Word) :
    (Statement.definition decorators start stop kind name body).Alike
      (.definition decorators start stop kind name body') :=
  congrArg (Statement.definition decorators start stop kind name) h

end Statement.AllAlike

/-! ### Rules -/

/-- The rules that statements are built from are blind to joined lines. -/
structure Rules.AllBlind (rules : Rules) : Prop where
  phrases : rules.phrases.AllBlind
  types : ∀ constrained f, Blind (rules.types constrained f)
  patterns : rules.patterns.AllBlind

theorem Rules.allBlind_upTo (depth : Nat) : (Rules.upTo depth).AllBlind where
  phrases := Phrases.allBlind_upTo depth
  types := blind_typesUpTo (Phrases.allBlind_upTo depth) depth
  patterns := Patterns.allBlind_upTo (Phrases.allBlind_upTo depth) depth

section Rules

variable {rules : Rules} (hrules : rules.AllBlind)

include hrules

theorem blindTo_lineExpressions (stop : Token → Bool) :
    BlindTo Listed (lineExpressions rules stop) := blindTo_expressionList hrules.phrases stop

theorem blindTo_assignedValue : BlindTo (Sum.LiftRel Eq Eq) (assignedValue rules) := by
  have hlist : BlindTo (Sum.LiftRel Eq Eq) (assignedList rules) :=
    (blindTo_lineExpressions hrules _).bindRel fun _ _ h =>
      matches_pure (.inl (congrArg (·, true) h.1.areTargets))
  refine blind_advance.bind fun t => ?_
  split
  · refine .ite ?_ hlist
    exact (blind_yieldPhrase hrules.phrases).bind fun _ => matches_pure (.inr rfl)
  · exact hlist

theorem blind_assignmentTail (target : Bool) : Blind (assignmentTail rules target) := by
  refine .loop fun s => blind_look.bind fun l => ?_
  refine .ite (blind_guard.bind fun _ => blindTo_assignedValue hrules) ?_
  split
  · refine blind_guard.bind fun _ => blind_advance.discard.bind fun _ => ?_
    refine (hrules.types _ _).bind fun _ => blind_look.bind fun l => ?_
    split
    · exact blindTo_assignedValue hrules
    · exact matches_pure (.inr rfl)
  · exact matches_pure (.inr rfl)

theorem blindTo_expressionStatement : BlindTo Statement.Alike (expressionStatement rules) := by
  refine blind_position.bind fun start => blind_head.bind fun t => .ite ?_ ?_
  · exact (blind_yieldPhrase hrules.phrases).bind fun _ => matches_pure (.refl _)
  · refine (blindTo_lineExpressions hrules _).bindRel ?_
    rintro ⟨shapes, comma⟩ ⟨shapes', _⟩ ⟨hshapes, rfl⟩
    have hshapes : Shape.AllAlike shapes shapes' := hshapes
    simp only [hshapes.areTargets]
    refine (blind_assignmentTail hrules _).bind fun assigned => ?_
    cases shapes with
    | nil =>
      cases shapes' with
      | nil => exact matches_pure (.refl _)
      | cons => cases hshapes
    | cons shape rest =>
      cases shapes' with
      | nil => cases hshapes
      | cons shape' rest' =>
        obtain ⟨hshape, hrest⟩ := List.cons.inj hshapes
        have hshape : shape.Alike shape' := hshape
        cases rest with
        | nil =>
          cases rest' with
          | nil =>
            refine matches_pure ?_
            split
            · exact .refl _
            · exact .expression hshape start
          | cons => cases hrest
        | cons =>
          cases rest' with
          | nil => cases hrest
          | cons => exact matches_pure (.refl _)

omit hrules in
theorem blind_atStatementEnd : Blind atStatementEnd := by
  refine blind_look.bind fun l => ?_
  split
  · exact matches_pure rfl
  · exact blind_guard
  · exact matches_failure

theorem blindTo_expressionOr {other : Parser Statement} (h : BlindTo Statement.Alike other) :
    BlindTo Statement.Alike (expressionOr rules other) := by
  refine .orElse ((blindTo_expressionStatement hrules).bindRel fun s s' hs => ?_) h
  exact blind_atStatementEnd.bind fun _ => matches_pure hs

theorem blind_keywordExpressions : Blind (keywordExpressions rules) :=
  blind_advance.discard.bind fun _ => (blindTo_lineExpressions hrules _).discard

theorem blind_strictExpressions : Blind (strictExpressions rules) := by
  refine .loop fun _ => (hrules.phrases.expression _).discard.bind fun _ => ?_
  refine blind_look.bind fun l => ?_
  split
  · exact blind_advance.discard.bind fun _ => matches_pure (.inl rfl)
  · exact matches_pure (.inr rfl)

omit hrules in
theorem blind_advanceToOperand : Blind advanceToOperand := by
  refine blind_advance.bind fun t => ?_
  split
  · exact blind_guard.bind fun _ => matches_pure rfl
  · exact matches_pure rfl

theorem blindTo_printStatement : BlindTo Statement.Alike (printStatement rules) := by
  have hrest : ∀ start, BlindTo Statement.Alike (do
      discard <| lineExpressions rules neverStop
      return .legacy start .print) := fun start =>
    (blindTo_lineExpressions hrules _).discard.bind fun _ => matches_pure (.refl _)
  refine blind_position.bind fun start => blind_advanceToOperand.bind fun t => ?_
  exact .ite (blind_advance.discard.bind fun _ => hrest start) (hrest start)

theorem blindTo_execEnd (start : Nat) : BlindTo Statement.Alike (execEnd rules start) := by
  refine blind_look.bind fun l => ?_
  split
  · refine .ite (blind_advance.discard.bind fun _ => ?_) (matches_pure (.refl _))
    exact (blind_strictExpressions hrules).bind fun _ => matches_pure (.refl _)
  · exact matches_pure (.refl _)

theorem blindTo_execStatement : BlindTo Statement.Alike (execStatement rules) := by
  refine blind_position.bind fun start => blind_advanceToOperand.bind fun t => ?_
  have hend := blindTo_execEnd hrules start
  split
  · exact blind_guard.bind fun _ => blind_take.discard.bind fun _ => hend
  · exact blind_take.discard.bind fun _ => hend
  · exact (blind_formatLiteral hrules.phrases).bind fun _ => hend
  · exact matches_failure

theorem blindTo_aliasStatement : BlindTo Statement.Alike (aliasStatement rules) := by
  refine blind_position.bind fun start => blind_advanceToOperand.discard.bind fun _ => ?_
  refine (hrules.types _ _).bind fun _ => (blind_expect _).bind fun _ => ?_
  refine blind_next.discard.bind fun _ => (hrules.types _ _).bind fun _ => ?_
  exact matches_pure (.refl _)

end Rules

/-! ### Imports -/

theorem blind_dottedName (f : Follow) : Blind (dottedName f) := by
  refine blind_take.bind fun t => ?_
  split
  · exact (blind_dottedRest f).bind fun _ => matches_pure rfl
  · exact matches_failure

theorem blind_importAlias (f : Follow) : Blind (importAlias f) := by
  refine blind_look.bind fun l => ?_
  split
  · refine .ite (blind_take.discard.bind fun _ => ?_) (matches_pure rfl)
    exact blind_expectWord.bind fun _ => matches_pure rfl
  · exact matches_pure rfl

theorem blind_importedNames (f : Follow) : Blind (importedNames f) := by
  refine .loop fun names => (blind_dottedName f).bind fun path => ?_
  refine (blind_importAlias f).bind fun name => blind_look.bind fun l => ?_
  split
  · refine blind_advanceLook.bind fun l => ?_
    split
    · exact matches_pure (.inl rfl)
    · exact matches_pure (.inr rfl)
  · exact matches_pure (.inr rfl)

theorem blind_importedFrom : Blind importedFrom := by
  refine blind_next.bind fun t => .ite (blind_advance.discard.bind fun _ => ?_) (blind_importedNames _)
  exact (blind_importedNames _).bind fun names => (blind_expect _).bind fun _ => matches_pure rfl

theorem blind_dottedOrigin : Blind dottedOrigin := by
  refine .loop fun _ => blind_advance.bind fun t => ?_
  split
  · exact matches_pure (.inl rfl)
  · exact matches_pure (.inl rfl)
  · exact .ite (matches_pure (.inr rfl))
      ((blind_dottedName _).bind fun _ => matches_pure (.inr rfl))
  · exact matches_failure

theorem blind_importOrigin : Blind importOrigin := by
  refine blind_advance.bind fun t => ?_
  split
  · refine .ite (blind_take.discard.bind fun _ => matches_pure rfl) ?_
    exact (blind_dottedName _).bind fun _ => matches_pure rfl
  · exact blind_dottedOrigin
  · exact blind_dottedOrigin
  · exact matches_failure

theorem blindTo_importFromStatement : BlindTo Statement.Alike importFromStatement := by
  refine blind_position.bind fun start => blind_importOrigin.bind fun origin => ?_
  refine (blind_expect _).bind fun _ => blind_next.bind fun t => .ite ?_ ?_
  · exact blind_take.discard.bind fun _ => matches_pure (.refl _)
  · exact blind_importedFrom.bind fun _ => matches_pure (.refl _)

theorem blind_wordList : Blind wordList := by
  refine .loop fun _ => blind_expectWord.discard.bind fun _ => blind_look.bind fun l => ?_
  split
  · exact blind_take.discard.bind fun _ => matches_pure (.inl rfl)
  · exact matches_pure (.inr rfl)

/-! ### Lines -/

section Lines

variable {rules : Rules} (hrules : rules.AllBlind)

include hrules

theorem blind_raiseStatement : Blind (raiseStatement rules) := by
  have hcause : Blind (do
      discard <| advance .operand
      discard <| rules.phrases.expression .line) :=
    blind_advance.discard.bind fun _ => (hrules.phrases.expression _).discard
  refine blind_advanceLook.bind fun l => ?_
  split
  · refine .ite hcause (.ite ((blindTo_lineExpressions hrules _).discard.bind fun _ => ?_)
      (matches_pure rfl))
    refine blind_look.bind fun l => ?_
    split
    · exact .ite hcause (matches_pure rfl)
    · exact matches_pure rfl
  · exact matches_pure rfl

theorem blindTo_simpleStatement : BlindTo Statement.Alike (simpleStatement rules) := by
  have hexpression := blindTo_expressionStatement hrules
  have hplain : ∀ start, BlindTo Statement.Alike (pure (.plain start)) :=
    fun start => matches_pure (.refl _)
  refine blind_position.bind fun start => blind_head.bind fun t => ?_
  split
  · refine .ite ?_ (.ite blindTo_importFromStatement (.ite ?_ (.ite ?_ (.ite ?_ (.ite ?_ (.ite ?_
      (.ite ?_ (.ite ?_ (.ite ?_ (.ite ?_ hexpression))))))))))
    · refine blind_advance.discard.bind fun _ => (blind_importedNames _).bind fun _ => ?_
      exact matches_pure (.refl _)
    · exact blind_take.discard.bind fun _ => hplain start
    · refine blind_advanceLook.bind fun l => ?_
      split
      · refine .ite ((blindTo_lineExpressions hrules _).discard.bind fun _ => ?_) ?_
        · exact hplain start
        · exact hplain start
      · exact hplain start
    · exact (blind_keywordExpressions hrules).bind fun _ => hplain start
    · refine blind_advance.discard.bind fun _ => ?_
      exact (blind_strictExpressions hrules).bind fun _ => hplain start
    · exact (blind_raiseStatement hrules).bind fun _ => hplain start
    · exact blind_take.discard.bind fun _ => blind_wordList.bind fun _ => hplain start
    · refine blind_advanceLook.peek.bind fun l => ?_
      split
      · exact blindTo_printStatement hrules
      · exact blindTo_expressionOr hrules (blindTo_printStatement hrules)
    · exact blindTo_expressionOr hrules (blindTo_execStatement hrules)
    · exact blindTo_expressionOr hrules (blindTo_aliasStatement hrules)
  · exact hexpression

theorem blindTo_statementLine : BlindTo Statement.AllAlike (statementLine rules) := by
  refine .loopRel (T := Statement.AllAlike) (.refl _) fun statements statements' hs => ?_
  refine (blindTo_simpleStatement hrules).bindRel fun s s' h => blind_look.bind fun l => ?_
  have hmore : Statement.AllAlike (s :: statements) (s' :: statements') := .cons h hs
  split
  · exact matches_pure (.inr hmore.reverse)
  · refine blind_advanceLook.bind fun l => ?_
    split
    · exact matches_pure (.inr hmore.reverse)
    · exact matches_pure (.inl hmore)
  · exact matches_failure

end Lines

end SourceSurvey.Syntax
