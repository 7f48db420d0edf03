import SourceSurvey.Proofs.Splices.Lines
import SourceSurvey.Syntax.Module

/-!
Whole sources are read alike where their pieces are: what is accepted, and as which statements, does
not depend on where lines are joined.
-/

namespace SourceSurvey.Syntax

open SourceSurvey.Syntax.Parser

/-- Groups of statements that differ only in the marks of joined lines. -/
def Statement.GroupsAlike (groups groups' : List (List Statement)) : Prop :=
  groups.map Statement.bareAll = groups'.map Statement.bareAll

theorem Statement.bareAll_flatten (groups : List (List Statement)) :
    Statement.bareAll groups.flatten = (groups.map Statement.bareAll).flatten := by
  rw [funext Statement.bareAll_eq_map, List.map_flatten]

theorem Statement.GroupsAlike.flatten {groups groups' : List (List Statement)}
    (h : Statement.GroupsAlike groups groups') :
    Statement.AllAlike groups.flatten groups'.flatten := by
  unfold Statement.AllAlike
  rw [Statement.bareAll_flatten, Statement.bareAll_flatten, h]

theorem Statement.GroupsAlike.cons {body body' : List Statement} {groups groups' : List (List Statement)}
    (h : Statement.AllAlike body body') (hgroups : Statement.GroupsAlike groups groups') :
    Statement.GroupsAlike (body :: groups) (body' :: groups') :=
  congrArg₂ List.cons h hgroups

theorem Statement.GroupsAlike.reverse {groups groups' : List (List Statement)}
    (h : Statement.GroupsAlike groups groups') :
    Statement.GroupsAlike groups.reverse groups'.reverse := by
  unfold Statement.GroupsAlike at h ⊢
  rw [List.map_reverse, List.map_reverse, h]

theorem blind_statementExpected : Blind statementExpected :=
  blind_dedentExpected.bind fun _ => matches_pure rfl

theorem blind_starFollows : Blind starFollows := by
  refine blind_ask fun c d hc => ?_
  have hpieces := hc.pieces
  generalize c.pieces = pieces, d.pieces = pieces' at hpieces
  cases hpieces with
  | nil => rfl
  | cons _ hrest =>
    cases hrest with
    | nil => rfl
    | @cons p q _ _ hp _ =>
      simp only [← hp.token]
      by_cases hstar : p.token = .symbol .star
      · rw [hp.star hstar]
      · simp only [hstar, decide_false, Bool.and_false]

section Statements

variable {rules : Rules} {statement : Parser (List Statement)} (hrules : rules.AllBlind)
  (hstatement : BlindTo Statement.AllAlike statement)

include hstatement

theorem blindTo_block : BlindTo Statement.AllAlike (loop (blockStep statement) []) := by
  refine .loopRel (T := Statement.GroupsAlike) rfl fun groups groups' hgroups => ?_
  refine blind_look.bind fun l => ?_
  split
  · exact matches_pure (.inr hgroups.reverse.flatten)
  · exact hstatement.bindRel fun _ _ h => matches_pure (.inl (.cons h hgroups))
  · exact matches_failure

include hrules

theorem blindTo_colonSuite : BlindTo Statement.AllAlike (colonSuite rules statement) := by
  refine (blind_expect _).bind fun _ => blind_look.bind fun l => ?_
  split
  · exact matches_pure (.refl _)
  · exact blindTo_statementLine hrules
  · exact matches_failure
  · exact .inBlock (blindTo_block hstatement)

theorem blindTo_bareClause : BlindTo Statement.Alike (bareClause rules statement) :=
  blind_position.bind fun start => blind_take.discard.bind fun _ =>
    (blindTo_colonSuite hrules hstatement).bindRel fun _ _ h => matches_pure (h.block start)

theorem blindTo_optionalClause (e : Expected) (w : Word) :
    BlindTo Statement.AllAlike (optionalClause rules statement e w) := by
  refine blind_look.bind fun l => ?_
  split
  · refine .ite ((blindTo_bareClause hrules hstatement).bindRel fun _ _ h => ?_)
      (matches_pure (.refl _))
    exact matches_pure (.single h)
  · exact matches_pure (.refl _)

theorem blindTo_conditionSuite : BlindTo Statement.AllAlike (conditionSuite rules statement) :=
  blind_advance.discard.bind fun _ => (hrules.phrases.expression _).discard.bind fun _ =>
    blindTo_colonSuite hrules hstatement

theorem blindTo_ifStatement : BlindTo Statement.Alike (ifStatement rules statement) := by
  refine blind_position.bind fun start => (blindTo_conditionSuite hrules hstatement).bindRel
    fun body body' hbody => blind_statementExpected.bind fun e => ?_
  have hclauses : BlindTo Statement.AllAlike (loop (conditionStep rules statement e) []) := by
    refine .loopRel (T := Statement.AllAlike) (.refl _) fun clauses clauses' hclauses => ?_
    refine blind_look.bind fun l => blind_position.bind fun here => ?_
    split
    · refine .ite ?_ (matches_pure (.inr hclauses.reverse))
      exact (blindTo_conditionSuite hrules hstatement).bindRel fun _ _ h =>
        matches_pure (.inl (.cons (h.block here) hclauses))
    · exact matches_pure (.inr hclauses.reverse)
  refine hclauses.bindRel fun clauses clauses' hclauses => ?_
  exact (blindTo_optionalClause hrules hstatement e _).bindRel fun _ _ hlast =>
    matches_pure (((hbody.append hclauses).append hlast).block start)

/-- A statement whose body only an `else` may follow. -/
theorem matches_bodyElse {body body' : List Statement} (hbody : Statement.AllAlike body body')
    (start : Nat) : Matches Statement.Alike (do
      let last ← optionalClause rules statement (← statementExpected) Keyword.else_
      return .block start (body ++ last)) (do
      let last ← optionalClause rules statement (← statementExpected) Keyword.else_
      return .block start (body' ++ last)) :=
  blind_statementExpected.bind fun e => (blindTo_optionalClause hrules hstatement e _).bindRel
    fun _ _ hlast => matches_pure ((hbody.append hlast).block start)

theorem blindTo_whileStatement : BlindTo Statement.Alike (whileStatement rules statement) :=
  blind_position.bind fun start => (blindTo_conditionSuite hrules hstatement).bindRel
    fun _ _ hbody => matches_bodyElse hrules hstatement hbody start

omit hstatement in
theorem blind_forHeading : Blind (forHeading rules) :=
  blind_advance.discard.bind fun _ => (blind_targets hrules.phrases).bind fun _ =>
    (blind_expect _).bind fun _ => blind_next.discard.bind fun _ =>
      (blindTo_expressionList hrules.phrases _).discard

theorem blindTo_forStatement (start : Nat) :
    BlindTo Statement.Alike (forStatement rules statement start) :=
  (blind_forHeading hrules).bind fun _ => (blindTo_colonSuite hrules hstatement).bindRel
    fun _ _ hbody => matches_bodyElse hrules hstatement hbody start

theorem blindTo_withStatement (start : Nat) :
    BlindTo Statement.Alike (withStatement rules statement start) :=
  blind_advance.discard.bind fun _ => (blindTo_expressionList hrules.phrases _).discard.bind
    fun _ => (blindTo_colonSuite hrules hstatement).bindRel fun _ _ h =>
      matches_pure (h.block start)

omit hstatement in
theorem blind_handlerHeading (group : Bool) : Blind (handlerHeading rules group) := by
  have hexpression : Blind (discard (rules.phrases.expression .inner)) :=
    (hrules.phrases.expression _).discard
  have hrest : Blind (do
      let t ← advance .operand
      if group || t ≠ .symbol .colon then
        discard <| rules.phrases.expression .inner
        if !group && (← next .token) = .symbol .comma then
          discard <| advance .operand
          discard <| rules.phrases.expression .inner) := by
    refine blind_advance.bind fun _ => .ite (hexpression.bind fun _ => ?_) (matches_pure rfl)
    refine blind_next.bind fun _ => .ite ?_ (matches_pure rfl)
    exact blind_advance.discard.bind fun _ => hexpression
  exact .ite (blind_take.discard.bind fun _ => hrest) hrest

theorem blindTo_handler (group : Bool) :
    BlindTo Statement.Alike (handler rules statement group) :=
  blind_position.bind fun start => (blind_handlerHeading hrules group).bind fun _ =>
    (blindTo_colonSuite hrules hstatement).bindRel fun _ _ h => matches_pure (h.block start)

theorem blindTo_handlers (group : Bool) (e : Expected) :
    BlindTo Statement.AllAlike (loop (handlerStep rules statement group e) []) := by
  refine .loopRel (T := Statement.AllAlike) (.refl _) fun handlers handlers' hs => ?_
  refine blind_look.bind fun l => ?_
  split
  · refine blind_starFollows.bind fun star => .ite ?_ (matches_pure (.inr hs.reverse))
    exact (blindTo_handler hrules hstatement group).bindRel fun _ _ h =>
      matches_pure (.inl (.cons h hs))
  · exact matches_pure (.inr hs.reverse)

theorem blindTo_tryStatement : BlindTo Statement.Alike (tryStatement rules statement) := by
  refine blind_position.bind fun start => blind_take.discard.bind fun _ => ?_
  refine (blindTo_colonSuite hrules hstatement).bindRel fun body body' hbody => ?_
  refine blind_next.bind fun first => .ite ?_ ?_
  · exact (blindTo_bareClause hrules hstatement).bindRel fun _ _ h =>
      matches_pure ((hbody.append (.single h)).block start)
  · refine blind_guard.bind fun _ => blind_starFollows.bind fun group => ?_
    refine blind_statementExpected.bind fun e => ?_
    refine (blindTo_handlers hrules hstatement group _).bindRel fun handlers handlers' hs => ?_
    refine blind_statementExpected.bind fun e => ?_
    refine (blindTo_optionalClause hrules hstatement e _).bindRel fun _ _ hotherwise => ?_
    refine (blindTo_optionalClause hrules hstatement e _).bindRel fun _ _ hlast => ?_
    exact matches_pure ((((hbody.append hs).append hotherwise).append hlast).block start)

omit hstatement in
theorem blind_typeParameters : Blind (typeParameters rules) :=
  blind_next.bind fun _ => .ite (blind_typeArguments hrules.types) (matches_pure rfl)

omit hstatement in
theorem blind_functionHeading : Blind (functionHeading rules) := by
  have hhint : ∀ h ∈ some (rules.types true .bracketed), Blind h := by
    intro h hh
    cases hh
    exact hrules.types _ _
  refine blind_take.discard.bind fun _ => blind_expectWord.bind fun name => ?_
  refine (blind_typeParameters hrules).bind fun _ => (blind_expect _).bind fun _ => ?_
  refine (blind_parameterList hrules.phrases hhint _).bind fun parameters => ?_
  refine (blind_expect _).bind fun _ => blind_next.bind fun t => .ite ?_ (matches_pure rfl)
  exact blind_advance.discard.bind fun _ => (hrules.types _ _).bind fun _ => matches_pure rfl

theorem blindTo_functionDefinition (decorators : List Nat) (start : Nat) :
    BlindTo Statement.Alike (functionDefinition rules statement decorators start) := by
  refine (blind_functionHeading hrules).bind fun heading => ?_
  refine (blindTo_colonSuite hrules hstatement).bindRel fun body body' hbody => ?_
  exact blind_position.bind fun stop => matches_pure (hbody.definition ..)

theorem blindTo_classDefinition (decorators : List Nat) :
    BlindTo Statement.Alike (classDefinition rules statement decorators) := by
  have hheading : Blind (classHeading rules) := by
    refine blind_take.discard.bind fun _ => blind_expectWord.bind fun name => ?_
    refine (blind_typeParameters hrules).bind fun _ => blind_next.bind fun t => ?_
    refine .ite ?_ (matches_pure rfl)
    exact (blind_arguments hrules.phrases false).bind fun _ => matches_pure rfl
  refine blind_position.bind fun start => hheading.bind fun name => ?_
  refine (blindTo_colonSuite hrules hstatement).bindRel fun body body' hbody => ?_
  exact blind_position.bind fun stop => matches_pure (hbody.definition ..)

omit hstatement in
theorem blind_decorators : Blind (loop (decoratorStep rules) []) := by
  refine .loop fun decorators => blind_position.bind fun here => ?_
  refine blind_advance.discard.bind fun _ => (hrules.phrases.expression _).discard.bind fun _ => ?_
  refine blind_look.bind fun l => ?_
  split
  · exact blind_next.bind fun t => .ite (matches_pure (.inl rfl)) (matches_pure (.inr rfl))
  · exact matches_failure

theorem blindTo_decorated : BlindTo Statement.Alike (decorated rules statement) := by
  refine (blind_decorators hrules).bind fun decorators => blind_position.bind fun start => ?_
  have hfunction := blindTo_functionDefinition hrules hstatement decorators start
  refine blind_head.bind fun t => ?_
  split
  · refine .ite hfunction (.ite (blindTo_classDefinition hrules hstatement decorators) ?_)
    refine .ite (blind_advance.bind fun u => ?_) matches_failure
    exact blind_guard.bind fun _ => hfunction
  · exact matches_failure

omit hstatement in
theorem blind_casePatterns : Blind (casePatterns rules) := by
  refine blind_advance.discard.bind fun _ => .loop fun _ => ?_
  refine (hrules.patterns.whole _).bind fun _ => blind_next.bind fun t => ?_
  split
  · refine blind_advance.bind fun u => ?_
    split
    · exact matches_pure (.inr rfl)
    · exact .ite (matches_pure (.inr rfl)) (matches_pure (.inl rfl))
    · exact matches_pure (.inl rfl)
  · exact matches_pure (.inr rfl)

theorem blindTo_caseClause : BlindTo Statement.Alike (caseClause rules statement) := by
  refine blind_position.bind fun start => (blind_casePatterns hrules).bind fun _ => ?_
  refine blind_next.bind fun t => .ite ?_ ?_
  · exact (blindTo_conditionSuite hrules hstatement).bindRel fun _ _ h =>
      matches_pure (h.block start)
  · exact (blindTo_colonSuite hrules hstatement).bindRel fun _ _ h => matches_pure (h.block start)

theorem blindTo_cases : BlindTo Statement.AllAlike (loop (caseStep rules statement) []) := by
  refine .loopRel (T := Statement.AllAlike) (.refl _) fun cases cases' hcases => ?_
  refine blind_look.bind fun l => ?_
  split
  · exact matches_pure (.inr hcases.reverse)
  · refine blind_guard.bind fun _ => ?_
    exact (blindTo_caseClause hrules hstatement).bindRel fun _ _ h =>
      matches_pure (.inl (.cons h hcases))
  · exact matches_failure

theorem blindTo_matchStatement : BlindTo Statement.Alike (matchStatement rules statement) := by
  refine blind_position.bind fun start => blind_advanceToOperand.discard.bind fun _ => ?_
  refine (blindTo_expressionList hrules.phrases _).discard.bind fun _ => ?_
  refine (blind_expect _).bind fun _ => blind_look.bind fun l => ?_
  split
  · exact matches_pure (.refl _)
  · exact (Matches.inBlock (blindTo_cases hrules hstatement)).bindRel fun _ _ h =>
      matches_pure (h.block start)
  · exact matches_failure

theorem blindTo_statementRule : BlindTo Statement.AllAlike (statementRule rules statement) := by
  have hsingle : ∀ {reader : Parser Statement}, BlindTo Statement.Alike reader →
      BlindTo Statement.AllAlike (do return [← reader]) := fun h =>
    h.bindRel fun _ _ h => matches_pure (.single h)
  have hline := blindTo_statementLine hrules
  refine blind_position.bind fun start => blind_head.bind fun t => ?_
  have hfunction := hsingle (blindTo_functionDefinition hrules hstatement [] start)
  have hfor := hsingle (blindTo_forStatement hrules hstatement start)
  have hwith := hsingle (blindTo_withStatement hrules hstatement start)
  split
  · exact hsingle (blindTo_decorated hrules hstatement)
  · refine .ite (hsingle (blindTo_ifStatement hrules hstatement)) (.ite
      (hsingle (blindTo_whileStatement hrules hstatement)) (.ite hfor (.ite hwith (.ite
      (hsingle (blindTo_tryStatement hrules hstatement)) (.ite hfunction (.ite
      (hsingle (blindTo_classDefinition hrules hstatement [])) (.ite
      (.orElse hline (hsingle (blindTo_matchStatement hrules hstatement)))
      (.ite ?_ hline))))))))
    refine (blind_advanceBefore _).bind fun function => .ite hfunction ?_
    refine (blind_advanceBefore _).bind fun loops => .ite hfor ?_
    exact (blind_advanceBefore _).bind fun enters => .ite hwith hline
  · exact hline

end Statements

theorem blindTo_statementUpTo {rules : Rules} (hrules : rules.AllBlind) (n : Nat) :
    BlindTo Statement.AllAlike (statementUpTo rules n) := by
  induction n with
  | zero => exact matches_failure
  | succ n ih => exact blindTo_statementRule hrules ih

/-! ### Whole sources -/

theorem readAll_of_alike {statement : Parser (List Statement)}
    (hstatement : BlindTo Statement.AllAlike statement) (n : Nat) {c d : Cursor} (hc : c.Alike d) :
    (Module.readAll statement n c).map (List.map Statement.bareAll) =
      (Module.readAll statement n d).map (List.map Statement.bareAll) := by
  have hcons : ∀ (body : List Statement) (rest : Except Nat (List (List Statement))),
      (rest.map (body :: ·)).map (List.map Statement.bareAll) =
        (rest.map (List.map Statement.bareAll)).map (Statement.bareAll body :: ·) := by
    intro body rest
    cases rest <;> rfl
  induction n generalizing c d with
  | zero => exact congrArg Except.error hc.index
  | succ n ih =>
    have hlook : Option.Rel _ ((look .operand).read c) ((look .operand).read d) := blind_look hc
    rw [Module.readAll, Module.readAll]
    generalize (look .operand).read c = found, (look .operand).read d = found' at hlook
    cases hlook with
    | none => exact congrArg Except.error hc.index
    | @some found found' h =>
      obtain ⟨l, c'⟩ := found
      obtain ⟨l', d'⟩ := found'
      obtain ⟨rfl, hc'⟩ : l = l' ∧ c'.Alike d' := h
      cases l with
      | token t =>
        have hread := hstatement hc'
        by_cases hfinish : t = .finish
        · subst hfinish
          rfl
        · simp only
          generalize statement.read c' = body, statement.read d' = body' at hread
          cases hread with
          | none => exact congrArg Except.error hc'.index
          | some h =>
            have hbody : Statement.AllAlike _ _ := h.1
            simp only
            rw [hcons, hcons, ih h.2, hbody]
      | _ => exact congrArg Except.error hc.index

/-- Sources with pieces that are alike are accepted alike, with the same statements but for the
    marks of joined lines. -/
theorem ofPieces_of_alike {pieces pieces' : List Piece}
    (h : List.Forall₂ Piece.Alike pieces pieces') :
    (Module.ofPieces pieces).map (fun m => Statement.bareAll m.body) =
      (Module.ofPieces pieces').map (fun m => Statement.bareAll m.body) := by
  have hstart : (Cursor.start pieces).Alike (Cursor.start pieces') :=
    ⟨h, rfl, rfl, rfl, congrArg Nat.succ h.length_eq⟩
  have hread := fun depth => readAll_of_alike
    (blindTo_statementUpTo (Rules.allBlind_upTo depth) depth) depth hstart
  have hbody : ∀ (spliced : Bool) (found : Except Nat (List (List Statement))),
      (found.map fun groups => Module.mk spliced groups.flatten).map
          (fun m => Statement.bareAll m.body) =
        (found.map (List.map Statement.bareAll)).map List.flatten := by
    intro spliced found
    cases found with
    | error => rfl
    | ok groups => exact congrArg Except.ok (Statement.bareAll_flatten groups)
  rw [Module.ofPieces, Module.ofPieces]
  simp only [hbody]
  rw [hread, hstart.budget]

end SourceSurvey.Syntax
