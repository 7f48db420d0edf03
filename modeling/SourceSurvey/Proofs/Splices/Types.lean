import SourceSurvey.Proofs.Splices.Expressions

/-!
Types and patterns are read alike at cursors that are alike.
-/

namespace SourceSurvey.Syntax

open SourceSurvey.Syntax.Parser

section Types

variable {inner : TypeRule} (hinner : ∀ constrained f, Blind (inner constrained f))

include hinner

theorem blind_typeArguments : Blind (typeArguments inner) := by
  refine blind_advance.discard.bind fun _ => .loop fun _ => (hinner _ _).bind fun _ => ?_
  refine blind_next.bind fun t => ?_
  split
  · exact blind_take.discard.bind fun _ => matches_pure (.inr rfl)
  · refine blind_advance.bind fun u => .ite ?_ (matches_pure (.inl rfl))
    exact blind_take.discard.bind fun _ => matches_pure (.inr rfl)
  · exact matches_failure

theorem blind_typeConstraint (constrained : Bool) (f : Follow) :
    Blind (typeConstraint inner constrained f) := by
  refine .ite (blind_look.bind fun l => ?_) (matches_pure rfl)
  split
  · exact blind_advance.discard.bind fun _ => hinner _ _
  · exact matches_pure rfl

theorem blind_typeSuffix (constrained : Bool) (f : Follow) :
    Blind (typeSuffix inner constrained f) := by
  refine .loop fun _ => blind_look.bind fun l => ?_
  split
  · refine blind_take.discard.bind fun _ => blind_expectWord.discard.bind fun _ => ?_
    exact matches_pure (.inl rfl)
  · refine blind_advance.discard.bind fun _ => (hinner _ _).bind fun _ => ?_
    exact matches_pure (.inr rfl)
  · exact (blind_typeConstraint hinner _ _).bind fun _ => matches_pure (.inr rfl)

theorem blind_typeRule {phrases : Phrases} (hphrases : phrases.AllBlind) (constrained : Bool)
    (f : Follow) : Blind (typeRule phrases inner constrained f) := by
  have hplain : Blind (do
      discard <| phrases.expression f
      typeConstraint inner constrained f) :=
    (hphrases.expression f).discard.bind fun _ => blind_typeConstraint hinner _ _
  refine blind_head.bind fun t => ?_
  split
  · refine blind_take.discard.bind fun _ => blind_expectWord.discard.bind fun _ => ?_
    exact blind_typeSuffix hinner _ _
  · have harguments : ∀ arguments : Bool, Blind (do
        if arguments then
          typeArguments inner
          typeSuffix inner constrained f
        else
          discard <| phrases.expression f
          typeConstraint inner constrained f) := fun arguments =>
      .ite ((blind_typeArguments hinner).bind fun _ => blind_typeSuffix hinner _ _) hplain
    exact .ite ((blind_advanceBefore _).bind harguments) ((matches_pure rfl).bind harguments)
  · exact hplain

end Types

theorem blind_typesUpTo {phrases : Phrases} (hphrases : phrases.AllBlind) (n : Nat)
    (constrained : Bool) (f : Follow) : Blind (TypeRule.upTo phrases n constrained f) := by
  induction n generalizing constrained f with
  | zero => exact matches_failure
  | succ n ih => exact blind_typeRule ih hphrases constrained f

/-! ### Patterns -/

theorem blind_patternList {entry : Parser Unit} (hentry : Blind entry) (close : Symbol) :
    Blind (patternList entry close) := by
  refine blind_advance.bind fun t => .ite blind_take.discard (.loop fun _ => hentry.bind fun _ => ?_)
  refine blind_next.bind fun u => ?_
  have hend : BlindTo (Sum.LiftRel Eq Eq) (do
      discard take
      pure (.inr ()) : Parser (Unit ⊕ Unit)) :=
    blind_take.discard.bind fun _ => matches_pure (.inr rfl)
  split
  · refine .ite (blind_advance.bind fun v => ?_) (.ite hend matches_failure)
    exact .ite hend (matches_pure (.inl rfl))
  · exact matches_failure

theorem blind_numberPattern (f : Follow) : Blind (numberPattern f) := by
  refine blind_take.bind fun t => blind_guard.bind fun _ => blind_look.bind fun l => ?_
  split
  · exact blind_take.discard.bind fun _ => blind_expect _
  · exact blind_take.discard.bind fun _ => blind_expect _
  · exact matches_pure rfl

theorem blind_dottedRest (f : Follow) : Blind (dottedRest f) := by
  refine .loop fun names => blind_look.bind fun l => ?_
  split
  · refine blind_take.discard.bind fun _ => blind_expectWord.bind fun w => ?_
    exact matches_pure (.inl rfl)
  · exact matches_pure (.inr rfl)

/-- The rules that patterns nest in are blind. -/
structure Patterns.AllBlind (inner : Patterns) : Prop where
  whole : ∀ f, Blind (inner.whole f)
  simple : ∀ f, Blind (inner.simple f)

section Patterns

variable {phrases : Phrases} {inner : Patterns} (hphrases : phrases.AllBlind)
  (hinner : inner.AllBlind)

include hphrases hinner

theorem blind_patternAtom (f : Follow) : Blind (patternAtom phrases inner f) := by
  have hstarred : Blind (do
      discard take
      discard <| expectWord .token) := blind_take.discard.bind fun _ => blind_expectWord.discard
  refine blind_head.bind fun t => ?_
  split
  · exact (blindTo_literals hphrases).discard
  · exact (blindTo_literals hphrases).discard
  · exact blind_numberPattern f
  · exact blind_advance.discard.bind fun _ => blind_numberPattern f
  · exact hstarred
  · exact hstarred
  · exact blind_patternList (hinner.whole _) _
  · exact blind_patternList (hinner.whole _) _
  · refine blind_patternList (blind_head.bind fun u => ?_) _
    split
    · exact hstarred
    · exact hstarred
    · refine (hinner.simple _).bind fun _ => blind_next.bind fun v => blind_guard.bind fun _ => ?_
      exact blind_advance.discard.bind fun _ => hinner.whole _
  · refine blind_take.discard.bind fun _ => .ite ?_ (matches_pure rfl)
    refine (blind_dottedRest f).discard.bind fun _ => blind_look.bind fun l => ?_
    split
    · exact blind_patternList (hinner.whole _) _
    · exact matches_pure rfl
  · exact matches_failure

theorem blind_simplePattern (f : Follow) : Blind (simplePattern phrases inner f) := by
  refine .loop fun _ => (blind_patternAtom hphrases hinner f).bind fun _ => ?_
  refine blind_look.bind fun l => ?_
  split
  · exact blind_advance.discard.bind fun _ => matches_pure (.inl rfl)
  · exact matches_pure (.inr rfl)

theorem blind_boundPattern (f : Follow) : Blind (boundPattern phrases inner f) := by
  refine (blind_simplePattern hphrases hinner f).bind fun _ => .loop fun _ => ?_
  refine blind_look.bind fun l => ?_
  split
  · refine .ite (blind_take.discard.bind fun _ => ?_) (matches_pure (.inr rfl))
    exact blind_expectWord.discard.bind fun _ => matches_pure (.inl rfl)
  · exact matches_pure (.inr rfl)

theorem blind_wholePattern (f : Follow) : Blind (wholePattern phrases inner f) := by
  have hbound := blind_boundPattern hphrases hinner f
  refine blind_head.bind fun t => ?_
  split
  · refine (blind_advanceBefore _).bind fun keyword => .ite (blind_guard.bind fun _ => ?_) hbound
    exact blind_advance.discard.bind fun _ => hbound
  · exact hbound

end Patterns

theorem Patterns.allBlind_upTo {phrases : Phrases} (hphrases : phrases.AllBlind) (n : Nat) :
    (Patterns.upTo phrases n).AllBlind := by
  induction n with
  | zero => exact ⟨fun _ => matches_failure, fun _ => matches_failure⟩
  | succ n ih => exact ⟨blind_wholePattern hphrases ih, blind_simplePattern hphrases ih⟩

end SourceSurvey.Syntax
