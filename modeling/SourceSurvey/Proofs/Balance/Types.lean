import SourceSurvey.Proofs.Balance.Expressions

/-!
Types and the patterns of a `case` are balanced.
-/

namespace SourceSurvey.Syntax

open SourceSurvey.Syntax.Parser

/-! ### Types -/

section Types

variable {phrases : Phrases} {types : TypeRule} {f : Follow} {t : Option Token}

section

variable (htypes : ∀ constrained f, Balanced (types constrained f))

include htypes

theorem balanced_typeArguments :
    BalancedAt (some (.symbol .leftBracket)) (typeArguments types) := by
  refine .close (nests_advance _).discard fun _ => .loop fun s => ?_
  refine .bind (htypes true _) fun _ => nests_indexEnd

theorem balanced_typeConstraint (constrained : Bool) :
    BalancedAt t (typeConstraint types constrained f) := by
  refine .ite (.look fun l => ?_) (nests_pure rfl)
  split
  · exact .bind (balanced_advance rfl).discard fun _ => htypes true f
  · exact nests_pure rfl

theorem balanced_typeSuffix (constrained : Bool) :
    BalancedAt t (typeSuffix types constrained f) := by
  refine .loop fun s => .look fun l => ?_
  split
  · refine .bind (balanced_pass rfl) fun _ => ?_
    exact .bind balanced_expectWord.discard fun _ => nests_pure rfl
  · refine .bind (balanced_advance rfl).discard fun _ => ?_
    exact .bind (htypes constrained f) fun _ => nests_pure rfl
  · exact .bind (balanced_typeConstraint htypes constrained) fun _ => nests_pure rfl

theorem balanced_typeRule (hphrases : phrases.AllBalanced) (constrained : Bool) :
    Balanced (typeRule phrases types constrained f) := by
  have hphrase : Balanced (do
      discard <| phrases.expression f
      typeConstraint types constrained f) :=
    .bind (hphrases.expression f).discard fun _ => balanced_typeConstraint htypes constrained
  refine .head fun u => ?_
  split
  · refine .bind (balanced_pass rfl) fun _ => .bind balanced_expectWord.discard fun _ => ?_
    exact balanced_typeSuffix htypes constrained
  · refine .ite (.advanceBefore rfl ?_ (hphrase.at _)) (.pureBind (hphrase.at _))
    exact .bind (balanced_typeArguments htypes) fun _ => balanced_typeSuffix htypes constrained
  · exact hphrase.at _

end

theorem balanced_typeUpTo (hphrases : phrases.AllBalanced) (depth : Nat) (constrained : Bool)
    (f : Follow) : Balanced (TypeRule.upTo phrases depth constrained f) := by
  induction depth generalizing constrained f with
  | zero => exact nests_failure
  | succ depth ih => exact balanced_typeRule ih hphrases constrained

end Types

/-! ### Patterns -/

/-- The rules for nested patterns are balanced. -/
structure Patterns.AllBalanced (inner : Patterns) : Prop where
  whole : ∀ f, Balanced (inner.whole f)
  simple : ∀ f, Balanced (inner.simple f)

section Patterns

variable {phrases : Phrases} {inner : Patterns} {f : Follow} {t : Option Token} {u : Token}

theorem balanced_patternList {entry : Parser Unit} (hentry : Balanced entry) {opening close : Symbol}
    (hopening : opening.nesting = 1) (hclose : close.nesting = -1) :
    BalancedAt (some (.symbol opening)) (patternList entry close) := by
  have hend : Nests (some (.symbol close)) (Sum.elim (fun _ => 0) (fun _ => -1)) (do
      discard take
      pure (.inr ()) : Parser (Unit ⊕ Unit)) := nests_pass_pure hclose.symm
  refine .open hopening fun u => .iteShows ?_ (.loop fun s => .bind hentry fun _ => .next fun v => ?_)
  · have hpass := nests_pass (.symbol close)
    rw [Token.nesting, hclose] at hpass
    exact hpass
  · split
    · next s =>
      split
      · next hs =>
        subst hs
        exact .advance rfl fun w => .iteShows hend (nests_pure rfl)
      · split
        · next hs =>
          subst hs
          exact hend
        · exact nests_failure
    · exact nests_failure

theorem balanced_numberPattern : BalancedAt t (numberPattern f) := by
  refine .take fun u => .guarded fun hu => ?_
  subst hu
  refine .look fun l => ?_
  split
  · exact .bind (balanced_pass rfl) fun _ => balanced_expect rfl
  · exact .bind (balanced_pass rfl) fun _ => balanced_expect rfl
  · exact nests_pure rfl

theorem balanced_dottedRest : BalancedAt t (dottedRest f) := by
  refine .loop fun names => .look fun l => ?_
  split
  · exact .bind (balanced_pass rfl) fun _ => .bind balanced_expectWord fun w => nests_pure rfl
  · exact nests_pure rfl

section

variable (hphrases : phrases.AllBalanced) (hinner : inner.AllBalanced)

include hphrases hinner

theorem balanced_patternAtom : Balanced (patternAtom phrases inner f) := by
  have hstar : ∀ {v : Token}, v.nesting = 0 → BalancedAt (some v) (do
      discard take
      discard <| expectWord .token) := fun hv =>
    .bind (balanced_pass hv) fun _ => balanced_expectWord.discard
  have hparen : BalancedAt (some (.symbol .leftParen))
      (patternList (inner.whole .bracketed) .rightParen) :=
    balanced_patternList (hinner.whole _) rfl rfl
  refine .head fun u => ?_
  split
  · exact (balanced_literals hphrases).discard
  · exact (balanced_literals hphrases).discard
  · exact balanced_numberPattern
  · exact .bind (balanced_advance rfl).discard fun _ => balanced_numberPattern
  · exact hstar rfl
  · exact hstar rfl
  · exact hparen
  · exact balanced_patternList (hinner.whole _) rfl rfl
  · refine balanced_patternList (.head fun v => ?_) rfl rfl
    split
    · exact hstar rfl
    · exact hstar rfl
    · refine .bind ((hinner.simple _).at _) fun _ => .next fun w => .guarded fun hw => ?_
      subst hw
      exact .bind (balanced_advance rfl).discard fun _ => hinner.whole _
  · refine .bind (balanced_pass rfl) fun _ => .ite ?_ (nests_pure rfl)
    refine .bind balanced_dottedRest.discard fun _ => .look fun l => ?_
    split
    · exact hparen
    · exact nests_pure rfl
  · exact nests_failure

theorem balanced_simplePattern : BalancedAt t (simplePattern phrases inner f) := by
  refine .loop fun s => .bind (balanced_patternAtom hphrases hinner) fun _ => .look fun l => ?_
  split
  · exact .bind (balanced_advance rfl).discard fun _ => nests_pure rfl
  · exact nests_pure rfl

theorem balanced_boundPattern : Balanced (boundPattern phrases inner f) := by
  refine .bind (balanced_simplePattern hphrases hinner) fun _ => .loop fun s => .look fun l => ?_
  split
  · refine .ite (.bind (balanced_pass rfl) fun _ => ?_) (nests_pure rfl)
    exact .bind balanced_expectWord.discard fun _ => nests_pure rfl
  · exact nests_pure rfl

theorem balanced_wholePattern : Balanced (wholePattern phrases inner f) := by
  have hbound : Balanced (boundPattern phrases inner f) := balanced_boundPattern hphrases hinner
  refine .head fun u => ?_
  split
  · refine .advanceBefore rfl ?_ (hbound.at _)
    exact .guarded fun _ => .bind (balanced_advance rfl).discard fun _ => hbound
  · exact hbound.at _

end

theorem allBalanced_patternsUpTo (hphrases : phrases.AllBalanced) (depth : Nat) :
    (Patterns.upTo phrases depth).AllBalanced := by
  induction depth with
  | zero => exact ⟨fun _ => nests_failure, fun _ => nests_failure⟩
  | succ depth ih =>
    exact ⟨fun _ => balanced_wholePattern hphrases ih, fun _ => balanced_simplePattern hphrases ih⟩

end Patterns

end SourceSurvey.Syntax
