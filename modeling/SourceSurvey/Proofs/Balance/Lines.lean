import SourceSurvey.Proofs.Balance.Types

/-!
Every statement that fits on one line is balanced, and so is every heading of a statement with a
body.
-/

namespace SourceSurvey.Syntax

open SourceSurvey.Syntax.Parser

/-- The rules that statements are built from are balanced. -/
structure Rules.AllBalanced (rules : Rules) : Prop where
  phrases : rules.phrases.AllBalanced
  types : ∀ constrained f, Balanced (rules.types constrained f)
  patterns : rules.patterns.AllBalanced

theorem allBalanced_rulesUpTo (depth : Nat) : (Rules.upTo depth).AllBalanced :=
  have hphrases := allBalanced_upTo depth
  ⟨hphrases, balanced_typeUpTo hphrases depth, allBalanced_patternsUpTo hphrases depth⟩

section Lines

variable {rules : Rules} {f : Follow} {t : Option Token} {u : Token}

/-! ### Names -/

theorem balanced_dottedName : BalancedAt t (dottedName f) := by
  refine .take fun u => ?_
  split
  · exact .bind balanced_dottedRest fun rest => nests_pure rfl
  · exact nests_failure

theorem balanced_importAlias : BalancedAt t (importAlias f) := by
  refine .look fun l => ?_
  split
  · refine .ite (.bind (balanced_pass rfl) fun _ => ?_) (nests_pure rfl)
    exact .bind balanced_expectWord fun w => nests_pure rfl
  · exact nests_pure rfl

theorem balanced_importedNames : BalancedAt t (importedNames f) := by
  refine .loop fun names => .bind balanced_dottedName fun path => ?_
  refine .bind balanced_importAlias fun name => .look fun l => ?_
  split
  · refine .advanceLook rfl fun l => ?_
    split
    · exact nests_pure rfl
    · exact nests_pure rfl
  · exact nests_pure rfl

theorem balanced_importedFrom : BalancedAt t importedFrom := by
  refine .next fun u => .iteShows ?_ balanced_importedNames
  refine .close (nests_advance _).discard fun _ => .bind balanced_importedNames fun names => ?_
  exact nests_expect_pure rfl

theorem balanced_dottedOrigin (hu : u.nesting = 0) : BalancedAt (some u) dottedOrigin := by
  intro c a d hc hread
  -- every round begins at a dot
  refine Gives.of_loop
    (fun _ c' => c.nesting = c'.nesting ∧ ∃ v : Token, v.nesting = 0 ∧ c'.Shows (some v))
    (fun _ d => c.nesting = 0 + d.nesting) ?_ hread ⟨rfl, u, hu, hc⟩
  rintro s c' r d' ⟨hsame, v, hv, hshows⟩ hround
  obtain ⟨w, c₁, hadvance, hround⟩ := gives_bind_iff.mp hround
  obtain ⟨hpassed, hshows⟩ := nesting_of_advance hshows hadvance
  rw [hv, Int.zero_add, ← hsame] at hpassed
  split at hround
  · obtain ⟨rfl, rfl⟩ := gives_pure_iff.mp hround
    exact ⟨hpassed, _, rfl, hshows⟩
  · obtain ⟨rfl, rfl⟩ := gives_pure_iff.mp hround
    exact ⟨hpassed, _, rfl, hshows⟩
  · split at hround
    · obtain ⟨rfl, rfl⟩ := gives_pure_iff.mp hround
      exact hpassed.trans (Int.zero_add _).symm
    · obtain ⟨path, c₂, hname, hround⟩ := gives_bind_iff.mp hround
      obtain ⟨rfl, rfl⟩ := gives_pure_iff.mp hround
      exact hpassed.trans (balanced_dottedName c₁.shows_none hname)
  · exact absurd hround not_gives_failure

theorem balanced_importOrigin (hu : u.nesting = 0) : BalancedAt (some u) importOrigin := by
  refine .advance hu fun v => ?_
  split
  · refine .ite (.bind (balanced_pass rfl) fun _ => nests_pure rfl) ?_
    exact .bind balanced_dottedName fun path => nests_pure rfl
  · exact balanced_dottedOrigin rfl
  · exact balanced_dottedOrigin rfl
  · exact nests_failure

theorem balanced_importFromStatement (hu : u.nesting = 0) :
    BalancedAt (some u) importFromStatement := by
  refine .ask fun start => .bind (balanced_importOrigin hu) fun origin => ?_
  refine .bind (balanced_expect rfl) fun _ => .next fun v => ?_
  split
  · next hstar =>
    rw [Bool.and_eq_true, decide_eq_true_iff] at hstar
    rw [hstar.1]
    exact nests_pass_pure rfl
  · exact .bind balanced_importedFrom fun names => nests_pure rfl

theorem balanced_wordList : BalancedAt t wordList := by
  refine .loop fun s => .bind balanced_expectWord.discard fun _ => .look fun l => ?_
  split
  · exact nests_pass_pure rfl
  · exact nests_pure rfl

/-! ### Statements of expressions -/

/-- Only a symbol that opens and closes nothing assigns. -/
theorem exists_symbol_of_assigns {l : Look} (h : l.assigns = true) :
    ∃ s : Symbol, l = .token (.symbol s) ∧ (Token.symbol s).nesting = 0 := by
  unfold Look.assigns at h
  split at h
  · next s =>
    refine ⟨s, rfl, ?_⟩
    cases s <;> first | rfl | cases h
  · cases h

theorem balanced_atStatementEnd : BalancedAt t atStatementEnd := by
  refine .look fun l => ?_
  split
  · exact nests_pure rfl
  · exact balanced_guard
  · exact nests_failure

theorem nesting_of_advanceToOperand {c d : Cursor} {v : Token} (hu : u.nesting = 0)
    (hc : c.Shows (some u)) (h : Gives advanceToOperand c v d) :
    c.nesting = d.nesting ∧ d.Shows (some v) := by
  obtain ⟨w, c', hadvance, h⟩ := gives_bind_iff.mp h
  have hfound := nesting_of_advance hc hadvance
  rw [hu, Int.zero_add] at hfound
  split at h
  · obtain ⟨x, c₁, hguard, h⟩ := gives_bind_iff.mp h
    obtain ⟨-, rfl⟩ := gives_guard_iff.mp hguard
    obtain ⟨rfl, rfl⟩ := gives_pure_iff.mp h
    exact hfound
  · obtain ⟨rfl, rfl⟩ := gives_pure_iff.mp h
    exact hfound

theorem Parser.Nests.advanceToOperand {α : Type} {n : α → Int} {f : Token → Parser α}
    (hu : u.nesting = 0) (hf : ∀ v, Nests (some v) n (f v)) :
    Nests (some u) n (Syntax.advanceToOperand >>= f) := by
  intro c a d hc hread
  obtain ⟨v, c', hoperand, hrest⟩ := gives_bind_iff.mp hread
  obtain ⟨hsame, hshows⟩ := nesting_of_advanceToOperand hu hc hoperand
  rw [hsame, hf v hshows hrest]

theorem balanced_advanceToOperand (hu : u.nesting = 0) :
    BalancedAt (some u) advanceToOperand := by
  intro c v d hc hread
  rw [(nesting_of_advanceToOperand hu hc hread).1, Int.zero_add]

section

variable (hrules : rules.AllBalanced)

include hrules

theorem balanced_lineExpressions (stop : Token → Bool) :
    BalancedAt t (lineExpressions rules stop) := balanced_expressionList hrules.phrases stop

theorem nests_assignedValue (hu : u.nesting = 0) :
    Nests (some u) (Sum.elim (fun _ => 0) (fun _ => 0)) (assignedValue rules) := by
  have hlist : Nests none (Sum.elim (fun _ => 0) (fun _ => 0)) (assignedList rules) :=
    .bind (balanced_lineExpressions hrules _) fun _ => nests_pure rfl
  refine .advance hu fun w => ?_
  split
  · refine .ite ?_ (hlist.at _)
    exact .bind (balanced_yieldPhrase hrules.phrases rfl) fun _ => nests_pure rfl
  · exact hlist.at _

theorem balanced_assignmentTail (target : Bool) : BalancedAt t (assignmentTail rules target) := by
  refine .loop fun s => .look fun l => .iteOf (fun hassigns => ?_) ?_
  · obtain ⟨s, rfl, hs⟩ := exists_symbol_of_assigns hassigns
    exact .guarded fun _ => nests_assignedValue hrules hs
  · split
    · refine .guarded fun _ => .bind (balanced_advance rfl).discard fun _ => ?_
      refine .bind (hrules.types _ _) fun _ => .look fun l => ?_
      split
      · exact nests_assignedValue hrules rfl
      · exact nests_pure rfl
    · exact nests_pure rfl

theorem balanced_expressionStatement : BalancedAt t (expressionStatement rules) := by
  refine .ask fun start => .head fun u => .iteShows ?_ ?_
  · exact .bind (balanced_yieldPhrase hrules.phrases rfl) fun _ => nests_pure rfl
  · refine .bind (balanced_lineExpressions hrules _) fun (shapes, comma) => ?_
    refine .bind (balanced_assignmentTail hrules _) fun assigned => ?_
    split
    · exact nests_pure rfl
    · exact nests_pure rfl

theorem balanced_expressionOr {other : Parser Statement} (hother : BalancedAt t other) :
    BalancedAt t (expressionOr rules other) := by
  refine .orElse (.bind (balanced_expressionStatement hrules) fun s => ?_) hother
  exact .bind balanced_atStatementEnd fun _ => nests_pure rfl

theorem balanced_keywordExpressions (hu : u.nesting = 0) :
    BalancedAt (some u) (keywordExpressions rules) :=
  balanced_behind hu (balanced_lineExpressions hrules _)

theorem balanced_strictExpressions : BalancedAt t (strictExpressions rules) := by
  refine .loop fun s => .bind (hrules.phrases.expression _).discard fun _ => .look fun l => ?_
  split
  · exact .bind (balanced_advance rfl).discard fun _ => nests_pure rfl
  · exact nests_pure rfl

theorem balanced_printStatement (hu : u.nesting = 0) :
    BalancedAt (some u) (printStatement rules) := by
  have hend : ∀ start : Nat, Balanced (do
      discard <| lineExpressions rules neverStop
      return Statement.legacy start .print) := fun start =>
    .bind (balanced_lineExpressions hrules _).discard fun _ => nests_pure rfl
  refine .ask fun start => .advanceToOperand hu fun v => .iteShows ?_ ((hend start).at _)
  exact .bind (balanced_advance rfl).discard fun _ => hend start

theorem balanced_execEnd (start : Nat) : Balanced (execEnd rules start) := by
  refine .look fun l => ?_
  split
  · refine .ite ?_ (nests_pure rfl)
    refine .bind (balanced_advance rfl).discard fun _ => ?_
    exact .bind (balanced_strictExpressions hrules) fun _ => nests_pure rfl
  · exact nests_pure rfl

theorem balanced_execStatement (hu : u.nesting = 0) :
    BalancedAt (some u) (execStatement rules) := by
  refine .ask fun start => .advanceToOperand hu fun v => ?_
  have hend := balanced_execEnd hrules start
  split
  · exact .guarded fun _ => .bind (balanced_pass rfl) fun _ => hend
  · exact .bind (balanced_pass rfl) fun _ => hend
  · exact .bind (balanced_formatLiteral hrules.phrases) fun _ => hend
  · exact .bind nests_failure fun _ => hend

theorem balanced_aliasStatement (hu : u.nesting = 0) :
    BalancedAt (some u) (aliasStatement rules) := by
  refine .ask fun start => .bind (balanced_advanceToOperand hu).discard fun _ => ?_
  refine .bind (hrules.types _ _) fun _ => .bind (balanced_expect rfl) fun _ => ?_
  exact .bind balanced_next.discard fun _ => .bind (hrules.types _ _) fun _ => nests_pure rfl

theorem balanced_raiseStatement (hu : u.nesting = 0) :
    BalancedAt (some u) (raiseStatement rules) := by
  have hcause : BalancedAt (some (.word Keyword.from_)) (do
      discard <| advance .operand
      discard <| rules.phrases.expression .line : Parser Unit) :=
    balanced_behind rfl (hrules.phrases.expression _)
  refine .advanceLook hu fun l => ?_
  split
  · refine .iteShows hcause (.ite ?_ (nests_pure rfl))
    refine .bind (balanced_lineExpressions hrules _).discard fun _ => .look fun l => ?_
    split
    · exact .iteShows hcause (nests_pure rfl)
    · exact nests_pure rfl
  · exact nests_pure rfl

theorem balanced_simpleStatement : BalancedAt t (simpleStatement rules) := by
  have hplain : ∀ {v : Token} {start : Nat}, v.nesting = 0 → BalancedAt (some v) (do
      discard take
      return Statement.plain start) := fun hv => .bind (balanced_pass hv) fun _ => nests_pure rfl
  have hexpression : ∀ t, BalancedAt t (expressionStatement rules) := fun t =>
    balanced_expressionStatement hrules
  refine .ask fun start => .head fun u => ?_
  split
  · refine .ite ?_ (.ite (balanced_importFromStatement rfl) (.ite (hplain rfl) (.ite ?_ (.ite ?_ ?_))))
    · refine .bind (balanced_advance rfl).discard fun _ => ?_
      exact .bind balanced_importedNames fun names => nests_pure rfl
    · refine .advanceLook rfl fun l => ?_
      split
      · refine .ite ?_ (nests_pure rfl)
        exact .bind (balanced_lineExpressions hrules _).discard fun _ => nests_pure rfl
      · exact nests_pure rfl
    · exact .bind (balanced_keywordExpressions hrules rfl) fun _ => nests_pure rfl
    · refine .ite ?_ (.ite ?_ (.ite ?_ (.ite ?_ (.ite ?_ (.ite ?_ (hexpression _))))))
      · refine .bind (balanced_advance rfl).discard fun _ => ?_
        exact .bind (balanced_strictExpressions hrules) fun _ => nests_pure rfl
      · exact .bind (balanced_raiseStatement hrules rfl) fun _ => nests_pure rfl
      · refine .bind (balanced_pass rfl) fun _ => ?_
        exact .bind balanced_wordList fun _ => nests_pure rfl
      · refine .ask fun found => ?_
        split
        · exact balanced_printStatement hrules rfl
        · exact balanced_expressionOr hrules (balanced_printStatement hrules rfl)
      · exact balanced_expressionOr hrules (balanced_execStatement hrules rfl)
      · exact balanced_expressionOr hrules (balanced_aliasStatement hrules rfl)
  · exact hexpression _

/-! ### Headings -/

theorem balanced_forHeading (hu : u.nesting = 0) : BalancedAt (some u) (forHeading rules) := by
  refine .bind (balanced_advance hu).discard fun _ => ?_
  refine .bind (balanced_targets hrules.phrases) fun _ => .bind (balanced_expect rfl) fun _ => ?_
  refine .bind balanced_next.discard fun _ => ?_
  exact (balanced_expressionList hrules.phrases _).discard

/-- A handler may name what it handles, and give it a name in the older way. -/
theorem balanced_handled (group : Bool) (hu : u.nesting = 0) : BalancedAt (some u) (do
    let t ← advance .operand
    if group || t ≠ .symbol .colon then
      discard <| rules.phrases.expression .inner
      if !group && (← next .token) = .symbol .comma then
        discard <| advance .operand
        discard <| rules.phrases.expression .inner) := by
  refine .advance hu fun v => .ite ?_ (nests_pure rfl)
  refine .bind ((hrules.phrases.expression _).discard.at _) fun _ => .next fun w => ?_
  refine .iteOf (fun hw => ?_) (nests_pure rfl)
  rw [Bool.and_eq_true, decide_eq_true_iff] at hw
  rw [hw.2]
  exact balanced_behind rfl (hrules.phrases.expression _)

theorem nesting_of_handlerHeading {group : Bool} {c d : Cursor} {a : Unit} (hu : u.nesting = 0)
    (hc : c.Shows (some u)) (hstar : group = true → Gives starFollows c true c)
    (h : Gives (handlerHeading rules group) c a d) : c.nesting = d.nesting := by
  have hzero : c.nesting = 0 + d.nesting := by
    cases group with
    | false => exact balanced_handled hrules false hu hc h
    | true =>
      obtain ⟨x, c₁, hpass, h⟩ := gives_bind_iff.mp h
      obtain ⟨v, htake⟩ := gives_discard_iff.mp hpass
      obtain ⟨p, hpieces, -⟩ := pieces_of_take htake
      have hnext : c₁.Shows (some (.symbol .star)) := by
        obtain ⟨hfollows, -⟩ := gives_ask_iff.mp (hstar rfl)
        rw [hpieces] at hfollows
        cases hrest : c₁.pieces with
        | nil =>
          rw [hrest] at hfollows
          cases hfollows
        | cons q rest =>
          rw [hrest] at hfollows
          have hq : (q.layout.tight && q.token = .symbol .star) = true := Option.some.inj hfollows
          rw [Bool.and_eq_true, decide_eq_true_iff] at hq
          rw [Cursor.shows_some, hrest, ← hq.2]
          rfl
      rw [nests_pass u hc hpass, hu, Int.zero_add]
      exact balanced_handled hrules true rfl hnext h
  rw [hzero, Int.zero_add]

theorem balanced_typeParameters : BalancedAt t (typeParameters rules) :=
  .next fun _ => .iteShows (balanced_typeArguments hrules.types) (nests_pure rfl)

theorem balanced_functionHeading (hu : u.nesting = 0) :
    BalancedAt (some u) (functionHeading rules) := by
  have hhint : ∀ r ∈ some (rules.types true .bracketed), Balanced r := by
    rintro r ⟨⟩
    exact hrules.types _ _
  refine .bind (balanced_pass hu) fun _ => .bind balanced_expectWord fun name => ?_
  refine .bind (balanced_typeParameters hrules) fun _ => .close (nests_expect _) fun _ => ?_
  refine .bind (balanced_parameterList hrules.phrases hhint _) fun parameters => ?_
  refine (nests_expect _).bindSum (fun _ => ?_) fun _ => (Int.add_zero _).symm
  refine .next fun v => .iteShows ?_ (nests_pure rfl)
  refine .bind (balanced_advance rfl).discard fun _ => ?_
  exact .bind (hrules.types _ _) fun _ => nests_pure rfl

theorem balanced_classHeading (hu : u.nesting = 0) :
    BalancedAt (some u) (classHeading rules) := by
  refine .bind (balanced_pass hu) fun _ => .bind balanced_expectWord fun name => ?_
  refine .bind (balanced_typeParameters hrules) fun _ => .next fun v => .iteShows ?_ (nests_pure rfl)
  exact .bind (balanced_arguments hrules.phrases false) fun _ => nests_pure rfl

theorem balanced_casePatterns (hu : u.nesting = 0) :
    BalancedAt (some u) (casePatterns rules) := by
  refine .bind (balanced_advance hu).discard fun _ => .loop fun s => ?_
  refine .bind (hrules.patterns.whole _) fun _ => .next fun v => ?_
  split
  · refine .advance rfl fun w => ?_
    split
    · exact nests_pure rfl
    · exact .ite (nests_pure rfl) (nests_pure rfl)
    · exact nests_pure rfl
  · exact nests_pure rfl

end

end Lines

end SourceSurvey.Syntax
