import SourceSurvey.Proofs.Splices.Readers
import SourceSurvey.Proofs.Syntax.RuleParts

/-!
Expressions are read alike at cursors that are alike. Of joined lines nothing is left but the mark on
a group in parentheses.
-/

namespace SourceSurvey.Syntax

open SourceSurvey.Syntax.Parser

/-! ### Shapes without marks -/

mutual

/-- A shape without the marks of joined lines. -/
def Shape.bare : Shape → Shape
  | .group _ inside => .group false inside.bare
  | .collection elements => .collection (Shape.bareAll elements)
  | .starred operand => .starred operand.bare
  | .name => .name
  | .attribute => .attribute
  | .subscript => .subscript
  | .literal parts => .literal parts
  | .other => .other

/-- Shapes without the marks of joined lines. -/
def Shape.bareAll : List Shape → List Shape
  | [] => []
  | shape :: rest => shape.bare :: Shape.bareAll rest

end

/-- Shapes that differ only in the marks of joined lines. -/
def Shape.Alike (s s' : Shape) : Prop := s.bare = s'.bare

/-- The same for each of some shapes. -/
def Shape.AllAlike (shapes shapes' : List Shape) : Prop :=
  Shape.bareAll shapes = Shape.bareAll shapes'

theorem Shape.Alike.refl (s : Shape) : s.Alike s := rfl

theorem Shape.bareAll_eq_map (shapes : List Shape) : Shape.bareAll shapes = shapes.map Shape.bare := by
  induction shapes with
  | nil => rfl
  | cons s rest ih => rw [Shape.bareAll, ih, List.map_cons]

theorem Shape.AllAlike.cons {s s' : Shape} {shapes shapes' : List Shape} (h : s.Alike s')
    (hs : Shape.AllAlike shapes shapes') : Shape.AllAlike (s :: shapes) (s' :: shapes') :=
  congrArg₂ List.cons h hs

theorem Shape.AllAlike.reverse {shapes shapes' : List Shape} (h : Shape.AllAlike shapes shapes') :
    Shape.AllAlike shapes.reverse shapes'.reverse := by
  unfold Shape.AllAlike at h ⊢
  rw [Shape.bareAll_eq_map, Shape.bareAll_eq_map] at h ⊢
  rw [List.map_reverse, List.map_reverse, h]

theorem Shape.Alike.collection {shapes shapes' : List Shape} (h : Shape.AllAlike shapes shapes') :
    (Shape.collection shapes).Alike (.collection shapes') := congrArg Shape.collection h

theorem Shape.Alike.group {s s' : Shape} (h : s.Alike s') (b b' : Bool) :
    (Shape.group b s).Alike (.group b' s') := congrArg (Shape.group false) h

theorem Shape.Alike.starred {s s' : Shape} (h : s.Alike s') :
    (Shape.starred s).Alike (.starred s') := congrArg Shape.starred h

theorem Shape.isPlace_bare (s : Shape) : s.bare.isPlace = s.isPlace := by
  cases s <;> rfl

mutual

theorem Shape.isTarget_bare : ∀ s : Shape, s.bare.isTarget = s.isTarget
  | .group _ inside => inside.isTarget_bare
  | .collection elements => Shape.areTargets_bareAll elements
  | .starred operand => operand.isPlace_bare
  | .name | .attribute | .subscript | .literal _ | .other => rfl

theorem Shape.areTargets_bareAll : ∀ shapes : List Shape,
    Shape.areTargets (Shape.bareAll shapes) = Shape.areTargets shapes
  | [] => rfl
  | s :: rest => by
    rw [Shape.bareAll, Shape.areTargets, Shape.areTargets, s.isTarget_bare,
      Shape.areTargets_bareAll rest]

end

theorem Shape.Alike.isPlace {s s' : Shape} (h : s.Alike s') : s.isPlace = s'.isPlace := by
  rw [← s.isPlace_bare, ← s'.isPlace_bare, h]

theorem Shape.Alike.isTarget {s s' : Shape} (h : s.Alike s') : s.isTarget = s'.isTarget := by
  rw [← s.isTarget_bare, ← s'.isTarget_bare, h]

theorem Shape.AllAlike.areTargets {shapes shapes' : List Shape} (h : Shape.AllAlike shapes shapes') :
    Shape.areTargets shapes = Shape.areTargets shapes' := by
  rw [← Shape.areTargets_bareAll, ← Shape.areTargets_bareAll shapes', h]

theorem Shape.Alike.eq_name {s s' : Shape} (h : s.Alike s') (hs : s = .name) : s' = .name := by
  subst hs
  cases s' with
  | name => rfl
  | _ => cases h

/-- Shapes that are alike are both a name or neither is. -/
theorem Shape.Alike.name {s s' : Shape} (h : s.Alike s') :
    s = .name ∧ s' = .name ∨ s ≠ .name ∧ s' ≠ .name := by
  by_cases hs : s = .name
  · exact .inl ⟨hs, h.eq_name hs⟩
  · exact .inr ⟨hs, fun hs' => hs (Shape.Alike.eq_name h.symm hs')⟩

/-! ### Rules -/

/-- The rules that phrases nest in see nothing of joined lines but what a shape keeps. -/
structure Phrases.AllBlind (inner : Phrases) : Prop where
  expression : ∀ f, BlindTo Shape.Alike (inner.expression f)
  operand : ∀ whole f, BlindTo Shape.Alike (inner.operand whole f)
  hole : Blind inner.hole

/-- Shapes with a further result. -/
def Listed (s s' : List Shape × Bool) : Prop := Shape.AllAlike s.1 s'.1 ∧ s.2 = s'.2

section Phrases

variable {inner : Phrases} {f : Follow} (hinner : inner.AllBlind)

include hinner

theorem blindTo_expressionList (stop : Token → Bool) :
    BlindTo Listed (expressionList inner f stop) := by
  refine (hinner.expression f).bindRel fun first first' hfirst => ?_
  refine .loopRel (T := Listed) ⟨.cons hfirst rfl, rfl⟩ ?_
  rintro ⟨shapes, comma⟩ ⟨shapes', _⟩ ⟨hshapes, rfl⟩
  have hshapes : Shape.AllAlike shapes shapes' := hshapes
  refine blind_look.bind fun l => ?_
  split
  · refine blind_advanceLook.bind fun l => ?_
    split
    · refine .ite ?_ (matches_pure (.inr ⟨hshapes.reverse, rfl⟩))
      exact (hinner.expression f).bindRel fun _ _ h => matches_pure (.inl ⟨.cons h hshapes, rfl⟩)
    · exact matches_pure (.inr ⟨hshapes.reverse, rfl⟩)
  · exact matches_pure (.inr ⟨hshapes.reverse, rfl⟩)

theorem blind_yieldPhrase : Blind (yieldPhrase inner f) := by
  have hlist : Blind (discard (expressionList inner f neverStop)) :=
    (blindTo_expressionList hinner neverStop).discard
  refine blind_advanceLook.bind fun l => ?_
  split
  · exact .ite (blind_advance.discard.bind fun _ => (hinner.expression f).discard) hlist
  · exact .ite hlist (matches_pure rfl)
  · exact matches_pure rfl

theorem blind_formatLiteral : Blind (formatLiteral inner) := by
  refine .interpolated (.loop fun _ => blind_head.bind fun t => ?_)
  split
  · exact blind_take.discard.bind fun _ => hinner.hole.bind fun _ => matches_pure (.inl rfl)
  · exact matches_pure (.inr rfl)
  · exact matches_failure

/-- The end of interpolated code, with a format or without. -/
theorem blind_holeEnd {e : Expected} (u : Token) : Blind (do
    if u = .formatColon then
      discard take
      loop (fun () => do
        match ← take with
        | .holeOpen => do
          inner.hole
          pure (.inl ())
        | .holeClose => pure (.inr ())
        | _ => failure) ()
    else expect e .holeClose) := by
  refine .ite (blind_take.discard.bind fun _ => .loop fun _ => blind_take.bind fun t => ?_)
    (blind_expect _)
  split
  · exact hinner.hole.bind fun _ => matches_pure (.inl rfl)
  · exact matches_pure (.inr rfl)
  · exact matches_failure

theorem blind_holeRule : Blind (holeRule inner) := by
  have hlist : Blind (discard (expressionList inner .bracketed neverStop)) :=
    (blindTo_expressionList hinner neverStop).discard
  refine blind_next.bind fun t => ?_
  split
  · refine .ite ((blind_yieldPhrase hinner).bind fun _ => ?_) (hlist.bind fun _ => ?_)
    all_goals
      refine blind_next.bind fun u => .advanceIf fun v => .advanceIf fun w => ?_
      exact blind_holeEnd hinner w
  · refine hlist.bind fun _ => blind_next.bind fun u => .advanceIf fun v => .advanceIf fun w => ?_
    exact blind_holeEnd hinner w

omit hinner in
theorem blindTo_literalsEnd (parts : List LiteralPart) :
    BlindTo (Sum.LiftRel Eq Shape.Alike) (literalsEnd f parts) := by
  refine blind_look.bind fun l => ?_
  split
  · exact .ite (matches_pure (.inl rfl)) (matches_pure (.inr rfl))
  · exact matches_pure (.inr rfl)

theorem blindTo_literals : BlindTo Shape.Alike (literals inner f) := by
  refine .loop fun parts => blind_position.bind fun index => blind_head.bind fun t => ?_
  split
  · exact blind_take.discard.bind fun _ => (matches_pure rfl).bind fun _ => blindTo_literalsEnd _
  · exact (blind_formatLiteral hinner).bind fun _ =>
      (matches_pure rfl).bind fun _ => blindTo_literalsEnd _
  · exact matches_failure.bind fun part => blindTo_literalsEnd (part :: parts)

theorem blind_targets : Blind (targets inner) := by
  refine .loop fun _ => (hinner.operand false .inner).bindRel fun shape shape' hshape => ?_
  rw [hshape.isTarget]
  refine blind_guard.bind fun _ => blind_next.bind fun t => ?_
  split
  · exact blind_advance.bind fun u => .ite (matches_pure (.inr rfl)) (matches_pure (.inl rfl))
  · exact matches_pure (.inr rfl)

theorem blind_forClause : Blind (forClause inner) :=
  blind_advance.discard.bind fun _ => (blind_targets hinner).bind fun _ =>
    (blind_expect _).bind fun _ => blind_next.discard.bind fun _ =>
      (blindTo_expressionList hinner _).discard

theorem blind_clauses : Blind (clauses inner) := by
  refine .loop fun _ => blind_next.bind fun t => ?_
  split
  · refine .ite ?_ (.ite ?_ (.ite ?_ (matches_pure (.inr rfl))))
    · refine blind_advance.bind fun u => .ite ?_ matches_failure
      exact (blind_forClause hinner).bind fun _ => matches_pure (.inl rfl)
    · exact (blind_forClause hinner).bind fun _ => matches_pure (.inl rfl)
    · refine blind_advance.discard.bind fun _ => ?_
      exact (hinner.expression _).discard.bind fun _ => matches_pure (.inl rfl)
  · exact matches_pure (.inr rfl)

omit hinner in
/-- Elements of a display that differ only in the marks of joined lines. -/
inductive Element.Alike : Element → Element → Prop
  | value {s s' : Shape} (h : s.Alike s') : Alike (.value s) (.value s')
  | starred {s s' : Shape} (h : s.Alike s') : Alike (.starred s) (.starred s')
  | yielded : Alike .yielded .yielded

omit hinner in
theorem Element.Alike.shape {e e' : Element} (h : e.Alike e') : e.shape.Alike e'.shape := by
  cases h with
  | value h => exact h
  | starred h => exact h.starred
  | yielded => exact .refl _

theorem blindTo_element : BlindTo Element.Alike (element inner) := by
  have hvalue : BlindTo Element.Alike (do return Element.value (← inner.expression .bracketed)) :=
    (hinner.expression _).bindRel fun _ _ h => matches_pure (.value h)
  refine blind_head.bind fun t => ?_
  split
  · have hstarred : BlindTo (Option.Rel Shape.Alike) (attempt do
        discard <| advance .operand
        let shape ← inner.expression .bracketed
        let t ← next Follow.bracketed.expected
        return if t.startsClauses || t = .symbol .colon then none else some shape) := by
      refine .attempt (blind_advance.discard.bind fun _ => ?_)
      refine (hinner.expression _).bindRel fun shape shape' h => blind_next.bind fun t => ?_
      refine matches_pure ?_
      split
      · exact .none
      · exact .some h
    refine hstarred.bindRel fun starred starred' h => ?_
    cases h with
    | none => exact hvalue
    | some h => exact matches_pure (.starred h)
  · exact .ite ((blind_yieldPhrase hinner).bind fun _ => matches_pure .yielded) hvalue
  · exact hvalue

theorem matches_moreElements {close : Symbol} {first first' : List Shape}
    (hfirst : Shape.AllAlike first first') :
    Matches Shape.Alike (moreElements inner close first) (moreElements inner close first') := by
  refine .loopRel hfirst fun shapes shapes' hshapes => blind_next.bind fun t => ?_
  have hend : Matches (Sum.LiftRel Shape.AllAlike Shape.Alike) (do
      discard take
      pure (.inr (.collection shapes.reverse)) : Parser (List Shape ⊕ Shape)) (do
      discard take
      pure (.inr (.collection shapes'.reverse))) :=
    blind_take.discard.bind fun _ => matches_pure (.inr (.collection hshapes.reverse))
  split
  · refine .ite (blind_advance.bind fun u => .ite hend ?_) (.ite hend matches_failure)
    exact (blindTo_element hinner).bindRel fun e e' h => matches_pure (.inl (.cons h.shape hshapes))
  · exact matches_failure

/-- A comprehension, from its clauses to behind the bracket that closes it. -/
theorem blind_clauses_expect (e : Expected) (t : Token) :
    Blind (do clauses inner; expect e t) :=
  (blind_clauses hinner).bind fun _ => blind_expect t

theorem blindTo_parenthesised : BlindTo Shape.Alike (parenthesised inner) := by
  refine blind_advance.bind fun t => .ite ?_ ?_
  · exact blind_take.discard.bind fun _ => matches_pure (.refl _)
  · refine blindTo_crossesSeam.bindRel fun before before' _ => ?_
    refine (blindTo_element hinner).bindRel fun first first' hfirst => blind_next.bind fun t => ?_
    split
    · refine blindTo_crossesSeam.bindRel fun after after' _ => blind_take.discard.bind fun _ => ?_
      cases hfirst with
      | value h => exact matches_pure (h.group _ _)
      | starred h => exact matches_pure (.collection (.cons h.starred rfl))
      | yielded => exact matches_pure (Shape.Alike.group (.refl _) _ _)
    · exact matches_moreElements hinner (.cons hfirst.shape rfl)
    · cases hfirst with
      | value h =>
        refine blind_guard.bind fun _ => (blind_clauses hinner).bind fun _ => ?_
        exact (blind_expect _).bind fun _ => matches_pure (.refl _)
      | starred => exact matches_failure
      | yielded => exact matches_failure

theorem blindTo_bracketed : BlindTo Shape.Alike (bracketed inner) := by
  refine blind_advance.bind fun t => .ite ?_ ?_
  · exact blind_take.discard.bind fun _ => matches_pure (.refl _)
  · refine (blindTo_element hinner).bindRel fun first first' hfirst => blind_next.bind fun t => ?_
    cases hfirst with
    | value h =>
      refine .ite ((blind_clauses hinner).bind fun _ => ?_) (matches_moreElements hinner (.cons h rfl))
      exact (blind_expect _).bind fun _ => matches_pure (.refl _)
    | starred h => exact matches_moreElements hinner (.cons h.starred rfl)
    | yielded => exact matches_moreElements hinner rfl

theorem blind_keyedValue : Blind (keyedValue inner) :=
  blind_advance.discard.bind fun _ => (hinner.expression _).discard

theorem blind_moreEntries : Blind (moreEntries inner) := by
  refine .loop fun _ => blind_next.bind fun t => ?_
  split
  · refine blind_advance.bind fun u => ?_
    split
    · exact blind_take.discard.bind fun _ => matches_pure (.inr rfl)
    · exact (blind_keyedValue hinner).bind fun _ => matches_pure (.inl rfl)
    · refine (hinner.expression _).discard.bind fun _ => blind_next.bind fun v => ?_
      refine blind_guard.bind fun _ => (blind_keyedValue hinner).bind fun _ => ?_
      exact matches_pure (.inl rfl)
  · exact blind_take.discard.bind fun _ => matches_pure (.inr rfl)
  · exact matches_failure

theorem blind_braced : Blind (braced inner) := by
  have hmore : Blind (discard (moreElements inner .rightBrace [])) :=
    (matches_moreElements hinner rfl).discard
  refine blind_advance.bind fun t => ?_
  split
  · exact blind_take.discard
  · exact blind_take.discard.bind fun _ => blind_expect _
  · exact (blind_keyedValue hinner).bind fun _ => blind_moreEntries hinner
  · refine (blindTo_element hinner).bindRel fun first first' hfirst => blind_next.bind fun u => ?_
    cases hfirst with
    | value h =>
      refine .ite ((blind_keyedValue hinner).bind fun _ => blind_next.bind fun v => ?_)
        (.ite (blind_clauses_expect hinner _ _) hmore)
      exact .ite (blind_clauses_expect hinner _ _) (blind_moreEntries hinner)
    | starred h => exact hmore
    | yielded => exact hmore

/-- What stands behind an argument. -/
theorem blind_argumentEnd (allowed : Bool) : BlindTo (Sum.LiftRel Eq Eq) (do
    let t ← next Follow.bracketed.expected
    match t with
    | .symbol .rightParen => do
      discard take
      pure (.inr ())
    | .symbol .comma =>
      if (← advance .element) = .symbol .rightParen then
        discard take
        pure (.inr ())
      else pure (.inl false)
    | _ => do
      guard (allowed && t.startsClauses)
      clauses inner
      expect Follow.bracketed.expected (.symbol .rightParen)
      pure (.inr ()) : Parser (Bool ⊕ Unit)) := by
  refine blind_next.bind fun t => ?_
  split
  · exact blind_take.discard.bind fun _ => matches_pure (.inr rfl)
  · refine blind_advance.bind fun u => .ite ?_ (matches_pure (.inl rfl))
    exact blind_take.discard.bind fun _ => matches_pure (.inr rfl)
  · refine blind_guard.bind fun _ => (blind_clauses hinner).bind fun _ => ?_
    exact (blind_expect _).bind fun _ => matches_pure (.inr rfl)

theorem blind_arguments (comprehension : Bool) : Blind (arguments inner comprehension) := by
  refine blind_advance.bind fun t => ?_
  split
  · exact blind_take.discard
  · exact blind_take.discard.bind fun _ => blind_expect _
  · refine .loop fun alone => blind_head.bind fun u => ?_
    have hend : ∀ allowed : Bool, Matches _ (pure allowed >>= _) (pure allowed >>= _) :=
      fun allowed => (matches_pure rfl).bind (blind_argumentEnd hinner)
    split
    · exact (blind_keyedValue hinner).bind fun _ => hend false
    · refine (blindTo_element hinner).bindRel fun e e' he => ?_
      cases he with
      | starred => exact hend false
      | value => exact hend alone
      | yielded => exact hend alone
    · refine (hinner.expression _).bindRel fun shape shape' hshape => blind_next.bind fun v => ?_
      refine .ite ?_ (hend alone)
      obtain ⟨rfl, rfl⟩ | ⟨hname, hname'⟩ := hshape.name
      · exact (blind_keyedValue hinner).bind fun _ => hend false
      · split
        · exact absurd rfl hname
        · exact matches_failure.bind (blind_argumentEnd hinner)

theorem blind_sliceBound : Blind (sliceBound inner) := by
  refine blind_advance.bind fun t => ?_
  split
  · exact matches_pure rfl
  · exact matches_pure rfl
  · exact matches_pure rfl
  · exact (hinner.expression _).discard

theorem blind_sliceBounds : Blind (sliceBounds inner) :=
  (blind_sliceBound hinner).bind fun _ =>
    blind_next.bind fun _ => .ite (blind_sliceBound hinner) (matches_pure rfl)

omit hinner in
theorem blindTo_indexEnd : BlindTo (Sum.LiftRel Eq Eq) indexEnd := by
  refine blind_next.bind fun t => ?_
  split
  · exact blind_take.discard.bind fun _ => matches_pure (.inr rfl)
  · refine blind_advance.bind fun u => .ite ?_ (matches_pure (.inl rfl))
    exact blind_take.discard.bind fun _ => matches_pure (.inr rfl)
  · exact matches_failure

theorem blind_subscripts : Blind (subscripts inner) := by
  have hend := blindTo_indexEnd
  refine blind_advance.discard.bind fun _ => .loop fun _ => blind_head.bind fun t => ?_
  refine .ite ((blind_sliceBounds hinner).bind fun _ => hend) ?_
  refine (hinner.expression _).discard.bind fun _ => blind_next.bind fun u => ?_
  exact .ite ((blind_sliceBounds hinner).bind fun _ => hend) hend

theorem blindTo_atom : BlindTo Shape.Alike (atom inner f) := by
  refine blind_head.bind fun t => ?_
  split
  · exact blind_take.discard.bind fun _ => matches_pure (.refl _)
  · exact blind_take.discard.bind fun _ => matches_pure (.refl _)
  · exact blindTo_literals hinner
  · exact blindTo_literals hinner
  · exact blind_take.discard.bind fun _ => matches_pure (.refl _)
  · exact blindTo_parenthesised hinner
  · exact blindTo_bracketed hinner
  · exact (blind_braced hinner).bind fun _ => matches_pure (.refl _)
  · exact matches_failure

omit hinner in
/-- A shape with a further result. -/
def Shaped (s s' : Shape × Bool) : Prop := s.1.Alike s'.1 ∧ s.2 = s'.2

theorem blindTo_primary : BlindTo Shaped (primary inner f) := by
  refine (blindTo_atom hinner).bindRel fun first first' hfirst => ?_
  refine .loopRel (T := Shaped) ⟨hfirst, rfl⟩ ?_
  rintro ⟨shape, member⟩ ⟨shape', _⟩ ⟨hshape, rfl⟩
  refine blind_look.bind fun l => ?_
  split
  · refine blind_take.discard.bind fun _ => blind_expectWord.discard.bind fun _ => ?_
    exact matches_pure (.inl ⟨.refl _, rfl⟩)
  · exact (blind_arguments hinner true).bind fun _ => matches_pure (.inl ⟨.refl _, rfl⟩)
  · exact (blind_subscripts hinner).bind fun _ => matches_pure (.inl ⟨.refl _, rfl⟩)
  · exact matches_pure (.inr ⟨hshape, rfl⟩)

theorem blindTo_namedPrimary (whole : Bool) : BlindTo Shape.Alike (namedPrimary inner whole f) := by
  refine (blindTo_primary hinner).bindRel ?_
  rintro ⟨shape, member⟩ ⟨shape', _⟩ ⟨hshape, rfl⟩
  have hshape : shape.Alike shape' := hshape
  simp only
  obtain ⟨rfl, rfl⟩ | ⟨hname, hname'⟩ := hshape.name
  · refine .ite (blind_look.bind fun l => ?_) (matches_pure (.refl _))
    split
    · refine blind_advance.discard.bind fun _ => (hinner.operand true f).discard.bind fun _ => ?_
      exact matches_pure (.refl _)
    · exact matches_pure (.refl _)
  · split
    · exact absurd rfl hname
    · exact matches_pure hshape

theorem blindTo_starredPrimary (named : Bool) :
    BlindTo Shape.Alike (starredPrimary inner f named) := by
  refine (blindTo_primary hinner).bindRel ?_
  rintro ⟨shape, member⟩ ⟨shape', _⟩ ⟨hshape, rfl⟩
  have hshape : shape.Alike shape' := hshape
  refine blind_guard.bind fun _ => matches_pure ?_
  rw [hshape.isPlace]
  split
  · exact hshape.starred
  · exact .refl _

theorem blindTo_starredOperand : BlindTo Shape.Alike (starredOperand inner f) :=
  blind_advance.bind fun _ => blindTo_starredPrimary hinner _

theorem blindTo_awaited (whole : Bool) : BlindTo Shape.Alike (awaited inner whole f) := by
  have hname : BlindTo Shape.Alike (namedPrimary inner whole f) := blindTo_namedPrimary hinner whole
  have hoperator : BlindTo Shape.Alike (do
      discard <| advance .operand
      discard <| inner.operand false f
      return .other) :=
    blind_advance.discard.bind fun _ => (hinner.operand false f).discard.bind fun _ =>
      matches_pure (.refl _)
  refine blind_advanceLook.peek.bind fun l => ?_
  split
  · split
    · exact .orElse hname hoperator
    · exact .orElse hname hoperator
    · exact hoperator
    · exact hoperator
    · exact hoperator
    · exact hoperator
    · exact hoperator
    · exact hoperator
    · exact .ite hname hoperator
    · exact hname
  · exact hname

omit hinner in
theorem blind_annotationPhrase {hint : Option (Parser Unit)} (hhint : ∀ h ∈ hint, Blind h) :
    Blind (annotationPhrase f hint) := by
  cases hint with
  | none => exact matches_pure rfl
  | some hint =>
    refine blind_next.bind fun t => .ite (blind_advance.discard.bind fun _ => ?_) (matches_pure rfl)
    exact (hhint hint rfl).bind fun _ => matches_pure rfl

theorem blind_defaultPhrase : Blind (defaultPhrase inner f) := by
  refine blind_next.bind fun t => .ite (blind_advance.discard.bind fun _ => ?_) (matches_pure rfl)
  exact (hinner.expression f).discard.bind fun _ => matches_pure rfl

theorem blind_parameter {hint : Option (Parser Unit)} (hhint : ∀ h ∈ hint, Blind h) :
    Blind (parameter inner f hint) := by
  have hannotated : Blind (annotationPhrase f hint) := blind_annotationPhrase hhint
  have hdefaulted : Blind (defaultPhrase inner f) := blind_defaultPhrase hinner
  refine blind_head.bind fun t => ?_
  split
  · refine blind_take.discard.bind fun _ => hannotated.bind fun a => hdefaulted.bind fun d => ?_
    exact matches_pure rfl
  · refine (blindTo_parenthesised hinner).bindRel fun shape shape' hshape => ?_
    rw [hshape.isTarget]
    exact blind_guard.bind fun _ => hdefaulted.bind fun d => matches_pure rfl
  · refine blind_advance.bind fun u => ?_
    split
    · exact matches_pure rfl
    · exact matches_pure rfl
    · exact matches_pure rfl
    · refine (hinner.operand false f).bindRel fun shape shape' hshape => ?_
      rw [hshape.isPlace]
      exact blind_guard.bind fun _ => hannotated.bind fun a => matches_pure rfl
  · refine blind_advance.discard.bind fun _ => ?_
    refine (hinner.operand false f).bindRel fun shape shape' hshape => ?_
    rw [hshape.isPlace]
    exact blind_guard.bind fun _ => hannotated.bind fun a => matches_pure rfl
  · exact blind_take.discard.bind fun _ => matches_pure rfl
  · exact matches_failure

theorem blind_parameterList {hint : Option (Parser Unit)} (hhint : ∀ h ∈ hint, Blind h)
    (close : Symbol) : Blind (parameterList inner f hint close) := by
  refine blind_next.bind fun t => .ite (matches_pure rfl) (.loop fun parameters => ?_)
  refine (blind_parameter hinner hhint).bind fun p => blind_next.bind fun u => ?_
  split
  · refine .ite (blind_advance.bind fun v => ?_) (.ite (matches_pure (.inr rfl)) matches_failure)
    exact .ite (matches_pure (.inr rfl)) (matches_pure (.inl rfl))
  · exact matches_failure

theorem blind_lambdaPhrase : Blind (lambdaPhrase inner f) := by
  have hparameters : Blind (discard (parameterList inner .inner none .colon)) :=
    (blind_parameterList hinner (fun _ hnone => by cases hnone) _).discard
  refine blind_take.discard.bind fun _ => hparameters.bind fun _ => ?_
  refine (blind_expect _).bind fun _ => blind_next.discard.bind fun _ => ?_
  exact (hinner.expression _).discard

theorem blindTo_operandRule (whole : Bool) : BlindTo Shape.Alike (operandRule inner whole f) := by
  have hoperand : ∀ whole, BlindTo Shape.Alike (do
      discard <| advance .operand
      discard <| inner.operand whole f
      return .other) := fun whole =>
    blind_advance.discard.bind fun _ => (hinner.operand whole f).discard.bind fun _ =>
      matches_pure (.refl _)
  refine blind_head.bind fun t => ?_
  split
  · refine .ite (hoperand true) (.ite ?_ (.ite (blindTo_awaited hinner whole) ?_))
    · exact (blind_lambdaPhrase hinner).bind fun _ => matches_pure (.refl _)
    · exact blindTo_namedPrimary hinner whole
  · exact hoperand false
  · exact hoperand false
  · exact hoperand false
  · exact blindTo_starredOperand hinner
  · exact blindTo_namedPrimary hinner whole

theorem blind_wordOperator (w : Word) : Blind (wordOperator inner f w) := by
  have hoperand : ∀ whole, Blind (do
      discard <| inner.operand whole f
      return true) := fun whole =>
    (hinner.operand whole f).discard.bind fun _ => matches_pure rfl
  refine .ite ?_ (.ite ?_ (.ite ?_ (.ite ?_ (.ite ?_ (matches_pure rfl)))))
  · exact blind_advance.discard.bind fun _ => hoperand true
  · exact blind_advance.discard.bind fun _ => hoperand false
  · refine blind_advance.bind fun t => blind_guard.bind fun _ => ?_
    exact blind_advance.discard.bind fun _ => hoperand false
  · refine blind_advance.bind fun t => .ite ?_ ?_
    · exact blind_advance.discard.bind fun _ => hoperand false
    · exact hoperand false
  · refine blind_advance.discard.bind fun _ => (hinner.expression _).discard.bind fun _ => ?_
    exact (blind_expect _).bind fun _ => blind_next.discard.bind fun _ => hoperand true

theorem blindTo_expressionRule : BlindTo Shape.Alike (expressionRule inner f) := by
  refine (blindTo_operandRule hinner true).bindRel fun first first' hfirst => ?_
  refine .loopRel hfirst fun shape shape' hshape => blind_look.bind fun l => ?_
  split
  · refine .ite (blind_advance.discard.bind fun _ => ?_) (matches_pure (.inr hshape))
    exact (hinner.operand false f).discard.bind fun _ => matches_pure (.inl (.refl _))
  · refine (blind_wordOperator hinner _).bind fun goesOn => ?_
    exact .ite (matches_pure (.inl (.refl _))) (matches_pure (.inr hshape))
  · exact matches_pure (.inr hshape)

end Phrases

theorem Phrases.allBlind_upTo (n : Nat) : (Phrases.upTo n).AllBlind := by
  induction n with
  | zero => exact ⟨fun _ => matches_failure, fun _ _ => matches_failure, matches_failure⟩
  | succ n ih =>
    exact ⟨fun _ => blindTo_expressionRule ih, fun whole _ => blindTo_operandRule ih whole,
      blind_holeRule ih⟩

end SourceSurvey.Syntax
