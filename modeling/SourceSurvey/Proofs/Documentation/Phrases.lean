import SourceSurvey.Proofs.Documentation.Adjacent
import SourceSurvey.Proofs.Documentation.Beginnings

/-!
Expressions made of string literals alone. The shape of an expression tells that it is one exactly
where its tokens do: literals side by side, in any number of parentheses.
-/

namespace SourceSurvey.Syntax

open SourceSurvey.Syntax.Parser

/-! ### Parentheses -/

theorem yields_moreElements {inner : Phrases} {close : Symbol} {first : List Shape} :
    Yields (fun shape : Shape => shape.literals? = none) (moreElements inner close first) := by
  intro c shape d h
  refine Gives.of_loop (fun _ _ => True) (fun shape _ => shape.literals? = none) ?_ h trivial
  rintro shapes c r d - hround
  obtain ⟨t, c₁, -, hround⟩ := gives_bind_iff.mp hround
  have hend : ∀ {c r d}, Gives (do
      discard take
      pure (.inr (.collection shapes.reverse)) : Parser (List Shape ⊕ Shape)) c r d →
      r.elim (fun _ => True) (fun shape => shape.literals? = none) := by
    intro c r d h
    obtain ⟨u, c', -, h⟩ := gives_bind_iff.mp h
    obtain ⟨rfl, rfl⟩ := gives_pure_iff.mp h
    rfl
  split at hround
  · split at hround
    · obtain ⟨u, c₂, -, hround⟩ := gives_bind_iff.mp hround
      split at hround
      · exact hend hround
      · obtain ⟨e, c₃, -, hround⟩ := gives_bind_iff.mp hround
        obtain ⟨rfl, rfl⟩ := gives_pure_iff.mp hround
        trivial
    · split at hround
      · exact hend hround
      · exact absurd hround not_gives_failure
  · exact absurd hround not_gives_failure

/-- An element of a bracket is a whole expression, unless it begins with a star or a word. -/
theorem element_cases {inner : Phrases} {c d : Cursor} {e : Element}
    (h : Gives (element inner) c e d) :
    (∃ shape, e = .value shape ∧ Gives (inner.expression .bracketed) c shape d) ∨
      e.shape.literals? = none ∧ ∃ t, c.pieces.head?.map Piece.token = some t ∧
        t.startsLiteral = false ∧ t ≠ .symbol .leftParen := by
  have hvalue : ∀ {d}, Gives (do return Element.value (← inner.expression .bracketed)) c e d →
      ∃ shape, e = .value shape ∧ Gives (inner.expression .bracketed) c shape d := by
    intro d h
    obtain ⟨shape, d', hshape, h⟩ := gives_bind_iff.mp h
    obtain ⟨rfl, rfl⟩ := gives_pure_iff.mp h
    exact ⟨shape, rfl, hshape⟩
  obtain ⟨t, c', hhead, h⟩ := gives_bind_iff.mp h
  obtain ⟨hfound, rfl⟩ := gives_head_iff.mp hhead
  split at h
  · obtain ⟨starred, c₁, hattempt, hrest⟩ := gives_bind_iff.mp h
    split at hrest
    · obtain ⟨rfl, rfl⟩ := gives_pure_iff.mp hrest
      exact .inr ⟨rfl, _, hfound, rfl, nofun⟩
    · rw [← eq_of_attempt hattempt] at hrest
      exact .inl (hvalue hrest)
  · split at h
    · obtain ⟨u, c₁, -, h⟩ := gives_bind_iff.mp h
      obtain ⟨rfl, rfl⟩ := gives_pure_iff.mp h
      exact .inr ⟨rfl, _, hfound, rfl, nofun⟩
    · exact .inl (hvalue h)
  · exact .inl (hvalue h)

/-- The shape of an element alone in parentheses. -/
def Element.grouped (spliced : Bool) : Element → Shape
  | .starred operand => .collection [.starred operand]
  | e => .group spliced e.shape

theorem Element.grouped_value (spliced : Bool) (shape : Shape) :
    (Element.value shape).grouped spliced = .group spliced shape := rfl

theorem Element.literals?_grouped {spliced : Bool} {e : Element}
    (h : e.shape.literals? = none) : (e.grouped spliced).literals? = none := by
  cases e with
  | starred operand => rfl
  | value shape | yielded =>
    rw [grouped, Shape.literals?, h, ite_self]
    nofun

/-- What is read between two parentheses: one element and no comma, or something else. -/
inductive Parenthesised (source : List Lexeme) (inner : Phrases) (c : Cursor) (shape : Shape)
    (d : Cursor) : Prop
  /-- Nothing but literals may be enclosed. -/
  | group {e : Element} {c₁ c₂ : Cursor} {opening first closing : Lexeme}
    {before more after : List Lexeme} (hrest : c.rest source = opening :: (before ++ first :: more))
    (hbefore : Comments before) (hfirst : first.token ≠ .comment)
    (hc₁ : c₁.On (Piece.ofLexemes source)) (hinner : c₁.rest source = first :: more)
    (helement : Gives (element inner) c₁ e c₂)
    (hbehind : c₂.rest source = after ++ closing :: d.rest source) (hafter : Comments after)
    (hclosing : closing.token = .symbol .rightParen) (hseam : d.seam = false)
    (hshape : shape = e.grouped ((before ++ [first]).any Lexeme.splices ||
      (c₂.seam || (after ++ [closing]).any Lexeme.splices)))
  /-- No literals alone are enclosed: nothing is, or some other token than a parenthesis comes behind
      the first element. -/
  | other {opening first : Lexeme} {before more : List Lexeme}
    (hrest : c.rest source = opening :: (before ++ first :: more)) (hbefore : Comments before)
    (hfirst : first.token ≠ .comment) (hshape : shape.literals? = none)
    (hother : first.token = .symbol .rightParen ∨ ∃ c₁ e c₂ t c₃,
      c₁.On (Piece.ofLexemes source) ∧ c₁.rest source = first :: more ∧
        Gives (element inner) c₁ e c₂ ∧
          Gives (look Follow.bracketed.expected) c₂ (.token t) c₃ ∧ t ≠ .symbol .rightParen) :
    Parenthesised source inner c shape d

theorem Legible.parenthesised_cases {source : List Lexeme} {inner : Phrases} {c d : Cursor}
    {shape : Shape} (hsource : Legible source) (hc : c.On (Piece.ofLexemes source))
    (h : Gives (parenthesised inner) c shape d) : Parenthesised source inner c shape d := by
  obtain ⟨t, c₁, hadvance, h⟩ := gives_bind_iff.mp h
  obtain ⟨u, c₀, htake, hnext⟩ := gives_bind_iff.mp hadvance
  obtain ⟨v, htake⟩ := gives_discard_iff.mp htake
  obtain ⟨opening, hopening, -, hseam₀⟩ := hsource.rest_of_take hc htake
  have hc₀ := hc.of_reaches htake.reaches
  have hlook := gives_next_iff.mp hnext
  obtain ⟨before, first, more, hbetween, hfirst, hbefore, hseam₁, rfl, hne, -⟩ :=
    hsource.rest_of_look hc₀ hlook
  have hc₁ := hlook.on_of_look hc₀
  have hrest : c.rest source = opening :: (before ++ first :: more) := by rw [hopening, hbetween]
  split at h
  · next hempty =>
    obtain ⟨u, c₂, -, h⟩ := gives_bind_iff.mp h
    obtain ⟨rfl, rfl⟩ := gives_pure_iff.mp h
    exact .other hrest hbefore hne rfl (.inl hempty)
  · obtain ⟨crosses, c₂, hcrosses, h⟩ := gives_bind_iff.mp h
    obtain ⟨rfl, rfl⟩ := eq_of_crossesSeam hc₁ hfirst hcrosses
    obtain ⟨e, c₂, helement, h⟩ := gives_bind_iff.mp h
    obtain ⟨t, c₃, hnext, h⟩ := gives_bind_iff.mp h
    have hlook := gives_next_iff.mp hnext
    have hc₂ := hc₁.of_reaches helement.reaches
    obtain ⟨after, closing, behind, hafter, hclosing, hcomments, hseam₃, rfl, -, -⟩ :=
      hsource.rest_of_look hc₂ hlook
    have hother : closing.token ≠ .symbol .rightParen → shape.literals? = none →
        Parenthesised source inner c shape d := fun hparen hshape =>
      .other hrest hbefore hne hshape
        (.inr ⟨c₁, e, c₂, _, c₃, hc₁, hfirst, helement, hlook, hparen⟩)
    split at h
    · next hparen =>
      obtain ⟨crosses', c₄, hcrosses', h⟩ := gives_bind_iff.mp h
      obtain ⟨rfl, rfl⟩ := eq_of_crossesSeam (hlook.on_of_look hc₂) hclosing hcrosses'
      obtain ⟨u, c₅, htake, hreturn⟩ := gives_bind_iff.mp h
      obtain ⟨v, htake⟩ := gives_discard_iff.mp htake
      obtain ⟨k, hk, -, hseam⟩ := hsource.rest_of_take (hlook.on_of_look hc₂) htake
      obtain ⟨rfl, rfl⟩ := List.cons.inj (hclosing.symm.trans hk)
      have hflag : (c₁.seam || first.splices || (c₃.seam || closing.splices)) =
          ((before ++ [first]).any Lexeme.splices ||
            (c₂.seam || (after ++ [closing]).any Lexeme.splices)) := by
        rw [hseam₃, hseam₁, hseam₀]
        simp [Bool.or_assoc]
      rw [hflag] at hreturn
      cases e
      all_goals
        obtain ⟨rfl, rfl⟩ := gives_pure_iff.mp hreturn
        exact .group hrest hbefore hne hc₁ hfirst helement hafter hcomments hparen hseam rfl
    · next hcomma => exact hother (by rw [hcomma]; nofun) (yields_moreElements h)
    · next hparen _ =>
      split at h
      · obtain ⟨u, c₄, -, h⟩ := gives_bind_iff.mp h
        obtain ⟨u, c₅, -, h⟩ := gives_bind_iff.mp h
        obtain ⟨u, c₆, -, h⟩ := gives_bind_iff.mp h
        obtain ⟨rfl, rfl⟩ := gives_pure_iff.mp h
        exact hother hparen rfl
      · exact absurd h not_gives_failure

/-! ### Whole expressions -/

theorem yields_bracketed {inner : Phrases} :
    Yields (fun shape : Shape => shape.literals? = none) (bracketed inner) := by
  refine yields_bind _ fun t => .ite (yields_bind _ fun _ => yields_pure rfl) ?_
  refine yields_bind _ fun e => yields_bind _ fun t => ?_
  split
  · refine .ite ?_ yields_moreElements
    exact yields_bind _ fun _ => yields_bind _ fun _ => yields_pure rfl
  · exact yields_moreElements

/-- An atom is made of literals side by side, it is in parentheses, or it is something else. -/
theorem atom_cases {inner : Phrases} {f : Follow} {c d : Cursor} {shape : Shape}
    (h : Gives (atom inner f) c shape d) :
    ∃ t, c.pieces.head?.map Piece.token = some t ∧
      (t.startsLiteral = true ∧ Gives (literals inner f) c shape d ∨
        t = .symbol .leftParen ∧ Gives (parenthesised inner) c shape d ∨
          t.startsLiteral = false ∧ t ≠ .symbol .leftParen ∧ shape.literals? = none) := by
  have hother : ∀ reader : Parser Unit, Yields (fun shape : Shape => shape.literals? = none)
      (do reader; return .other) := fun reader => yields_bind _ fun _ => yields_pure rfl
  obtain ⟨t, c', hhead, h⟩ := gives_bind_iff.mp h
  obtain ⟨hfound, rfl⟩ := gives_head_iff.mp hhead
  refine ⟨t, hfound, ?_⟩
  split at h
  · next w =>
    have hword : Yields (fun shape : Shape => shape.literals? = none) (do
        discard take
        return if Keyword.isConstant w then .other else .name) := by
      refine yields_bind _ fun _ => yields_pure ?_
      split <;> rfl
    exact .inr (.inr ⟨rfl, nofun, hword h⟩)
  · exact .inr (.inr ⟨rfl, nofun, hother _ h⟩)
  · exact .inl ⟨rfl, h⟩
  · exact .inl ⟨rfl, h⟩
  · exact .inr (.inr ⟨rfl, nofun, hother _ h⟩)
  · exact .inr (.inl ⟨rfl, h⟩)
  · exact .inr (.inr ⟨rfl, nofun, yields_bracketed h⟩)
  · exact .inr (.inr ⟨rfl, nofun, hother _ h⟩)
  · exact absurd h not_gives_failure

/-- What some rules read as literals alone is written as literals alone, and not hidden. -/
def ReadsEnclosed (source : List Lexeme) (inner : Phrases) : Prop :=
  ∀ ⦃f c shape d parts⦄, c.On (Piece.ofLexemes source) → Gives (inner.expression f) c shape d →
    shape.literals? = some parts → ∃ literals n run,
      Enclosed (!f.lineEnd) literals n false run ∧ Parts source parts literals ∧
        c.Trails source run d

/-- What is written as literals alone is read as literals alone, unless it is hidden. -/
def EnclosesRead (source : List Lexeme) (inner : Phrases) : Prop :=
  ∀ ⦃f c shape d literals n hidden run rest⦄, c.On (Piece.ofLexemes source) →
    Gives (inner.expression f) c shape d → c.rest source = run ++ rest →
    Enclosed (!f.lineEnd) literals n hidden run → Ends (!f.lineEnd) rest →
    (∀ l ∈ literals, l.Plain) → c.Trails source run d ∧
      ∃ parts, Parts source parts literals ∧ shape.literals? = if hidden then none else some parts

section Whole

variable {source : List Lexeme} {inner : Phrases} {c d : Cursor} {shape : Shape}
  (hsource : Legible source)

include hsource

theorem Legible.enclosed_of_parenthesised {inside : Bool} {parts : List LiteralPart}
    (hinner : ReadsEnclosed source inner) (hc : c.On (Piece.ofLexemes source))
    (h : Gives (parenthesised inner) c shape d) (hshape : shape.literals? = some parts)
    (hopening : ∀ l ∈ (c.rest source).head?, l.token = .symbol .leftParen) :
    ∃ literals n run, Enclosed inside literals n false run ∧ Parts source parts literals ∧
      c.Trails source run d := by
  cases hsource.parenthesised_cases hc h with
  | other _ _ _ hnone =>
    rw [hnone] at hshape
    cases hshape
  | @group e c₁ c₂ opening first closing before more after hrest hbefore hfirst hc₁ hmore helement
      hbehind hafter hclosing hseam hgroup =>
    subst hgroup
    obtain ⟨s, rfl, hexpression⟩ | ⟨hnone, -⟩ := element_cases helement
    · rw [Element.grouped_value, Shape.literals?] at hshape
      split at hshape
      · cases hshape
      · next hflag =>
        obtain ⟨literals, n, run, hrun, hparts, comments, htrails, hcomments, hseam'⟩ :=
          hinner hc₁ hexpression hshape
        obtain ⟨first', tail, rfl, -⟩ := hrun.head
        rw [hmore, hbehind] at htrails
        obtain ⟨rfl, rfl⟩ := List.cons.inj htrails
        rw [Bool.not_eq_true, hseam'] at hflag
        have hopening : opening.token = .symbol .leftParen :=
          hopening opening (by rw [hrest]; rfl)
        have henclosed : Enclosed inside literals _ _ _ :=
          .parens hopening hbefore hrun (hcomments.append hafter) hclosing
        have hhidden : (false || (before ++ [first]).any Lexeme.splices ||
            ((comments ++ after) ++ [closing]).any Lexeme.splices) = false := by
          simpa using hflag
        rw [hhidden] at henclosed
        refine ⟨literals, n + 1, _, henclosed, hparts, [], ?_, comments_nil, hseam⟩
        rw [hrest]
        simp
    · rw [Element.literals?_grouped hnone] at hshape
      cases hshape

/-- What is read as literals alone is written as literals alone, and not hidden. -/
theorem Legible.readsEnclosed (depth : Nat) : ReadsEnclosed source (Phrases.upTo depth) := by
  induction depth with
  | zero => exact fun _ _ _ _ _ _ h => absurd h not_gives_failure
  | succ depth ih =>
    intro f c shape d parts hc h hshape
    obtain ⟨first, c₁, hatom, hextends⟩ | ⟨hnone, -⟩ := hsource.beginsWithAtom_expressionRule hc h
    · cases hextends with
      | goes _ hnone =>
        rw [hnone] at hshape
        cases hshape
      | stays hsettles =>
        obtain ⟨t, hhead, ⟨-, hatom⟩ | ⟨rfl, hatom⟩ | ⟨-, -, hnone⟩⟩ := atom_cases hatom
        · obtain ⟨parts', literals, run, behind, rfl, hparts, hadjacent, -, -, htrails⟩ :=
            hsource.rest_of_literals hc hatom
          cases hshape
          exact ⟨literals, 0, run, .bare hadjacent, hparts, htrails.settles hsettles⟩
        · obtain ⟨k, more, hrest, hk⟩ := hsource.rest_of_head hc hhead
          obtain ⟨literals, n, run, henclosed, hparts, htrails⟩ :=
            hsource.enclosed_of_parenthesised ih hc hatom hshape (by simpa [hrest] using hk)
          exact ⟨literals, n, run, henclosed, hparts, htrails.settles hsettles⟩
        · rw [hnone] at hshape
          cases hshape
    · rw [hnone] at hshape
      cases hshape

/-- Between parentheses, what is written as literals alone is the first element, and nothing else
    comes behind it. -/
theorem Legible.element_of_enclosed {c₁ c₂ : Cursor} {e : Element} {literals tail rest : List Lexeme}
    {n : Nat} {hidden : Bool} {first : Lexeme} (hinner : EnclosesRead source inner)
    (hc₁ : c₁.On (Piece.ofLexemes source)) (helement : Gives (element inner) c₁ e c₂)
    (hrest : c₁.rest source = (first :: tail) ++ rest)
    (henclosed : Enclosed true literals n hidden (first :: tail)) (hends : Ends true rest)
    (hplain : ∀ l ∈ literals, l.Plain) :
    c₁.Trails source (first :: tail) c₂ ∧ (∃ shape parts, e = .value shape ∧
        Parts source parts literals ∧
        shape.literals? = if hidden then none else some parts) ∧
      ∀ t c₃, Gives (look Follow.bracketed.expected) c₂ (.token t) c₃ → t = .symbol .rightParen := by
  obtain ⟨s, rfl, hexpression⟩ | ⟨-, t, hhead, hstarts, hparen⟩ := element_cases helement
  · obtain ⟨htrails, parts, hparts, hshape⟩ :=
      hinner hc₁ hexpression hrest henclosed hends hplain
    refine ⟨htrails, ⟨s, parts, rfl, hparts, hshape⟩, fun t c₃ hlook => ?_⟩
    obtain rfl | ⟨hfalse, -⟩ := hsource.look_of_ends (hc₁.of_reaches helement.reaches) hlook rfl
      htrails hrest hends
    · rfl
    · cases hfalse
  · obtain ⟨k, more, hk, rfl⟩ := hsource.rest_of_head hc₁ hhead
    obtain ⟨rfl, -⟩ := List.cons.inj (hk.symm.trans hrest)
    obtain ⟨first', tail', heq, hfirst | hfirst⟩ := henclosed.head
    · cases heq
      rw [hfirst] at hstarts
      cases hstarts
    · cases heq
      exact absurd hfirst hparen

theorem Legible.parenthesised_of_enclosed {inside hidden : Bool} {literals run rest : List Lexeme}
    {n : Nat} (hinner : EnclosesRead source inner) (hc : c.On (Piece.ofLexemes source))
    (h : Gives (parenthesised inner) c shape d) (hrest : c.rest source = run ++ rest)
    (henclosed : Enclosed inside literals (n + 1) hidden run)
    (hplain : ∀ l ∈ literals, l.Plain) : c.Trails source run d ∧
      ∃ parts, Parts source parts literals ∧
        shape.literals? = if hidden then none else some parts := by
  cases henclosed with
  | @parens _ hidden _ opening first closing _ before tail after hopening hbefore henclosed hafter
      hclosing =>
    have hends : Ends true (after ++ closing :: rest) := .closing hafter hclosing
    have hwhole : c.rest source =
        opening :: (before ++ first :: (tail ++ (after ++ closing :: rest))) := by
      rw [hrest]
      simp
    cases hsource.parenthesised_cases hc h with
    | other hrest' hbefore' hfirst' hshape hother =>
      obtain ⟨-, heq⟩ := List.cons.inj (hwhole.symm.trans hrest')
      obtain ⟨rfl, rfl, rfl⟩ := hbefore.unique hbefore' henclosed.ne_comment hfirst' heq
      obtain hparen | ⟨c₁, e, c₂, t, c₃, hc₁, hmore, helement, hlook, hparen⟩ := hother
      · obtain ⟨first', tail', heq, hfirst | hfirst⟩ := henclosed.head
        · cases heq
          rw [hparen] at hfirst
          cases hfirst
        · cases heq
          rw [hparen] at hfirst
          cases hfirst
      · obtain ⟨-, -, honly⟩ :=
          hsource.element_of_enclosed hinner hc₁ helement hmore henclosed hends hplain
        exact absurd (honly t c₃ hlook) hparen
    | @group e c₁ c₂ _ _ closing' _ _ after' hrest' hbefore' hfirst' hc₁ hmore helement hbehind
        hafter' hclosing' hseam hgroup =>
      obtain ⟨-, heq⟩ := List.cons.inj (hwhole.symm.trans hrest')
      obtain ⟨rfl, rfl, rfl⟩ := hbefore.unique hbefore' henclosed.ne_comment hfirst' heq
      obtain ⟨⟨comments, htrails, hcomments, hseam'⟩, ⟨s, parts, rfl, hparts, hshape⟩, -⟩ :=
        hsource.element_of_enclosed hinner hc₁ helement hmore henclosed hends hplain
      have hsame : after ++ closing :: rest =
          (comments ++ after') ++ closing' :: d.rest source := by
        have hsplit := hmore.symm.trans htrails
        rw [hbehind] at hsplit
        simpa using hsplit
      obtain ⟨rfl, rfl, rfl⟩ := hafter.unique (hcomments.append hafter') (by rw [hclosing]; nofun)
        (by rw [hclosing']; nofun) hsame
      refine ⟨⟨[], by rw [hrest]; rfl, comments_nil, hseam⟩, parts, hparts, ?_⟩
      rw [hgroup, Element.grouped_value, Shape.literals?, hshape, hseam']
      cases hidden <;> simp

/-- What is written as literals alone begins with a literal or a parenthesis. -/
theorem Legible.head_of_enclosed {inside hidden : Bool} {literals run rest : List Lexeme} {n : Nat}
    {t : Token} (hc : c.On (Piece.ofLexemes source))
    (hhead : c.pieces.head?.map Piece.token = some t) (hrest : c.rest source = run ++ rest)
    (henclosed : Enclosed inside literals n hidden run) :
    t.startsLiteral = true ∨ t = .symbol .leftParen := by
  obtain ⟨k, more, hk, rfl⟩ := hsource.rest_of_head hc hhead
  obtain ⟨first, tail, rfl, hfirst⟩ := henclosed.head
  obtain ⟨rfl, -⟩ := List.cons.inj (hk.symm.trans hrest)
  exact hfirst

theorem Legible.atom_of_enclosed {f : Follow} {hidden : Bool} {literals run rest : List Lexeme}
    {n : Nat} (hinner : EnclosesRead source inner) (hc : c.On (Piece.ofLexemes source))
    (h : Gives (atom inner f) c shape d) (hrest : c.rest source = run ++ rest)
    (henclosed : Enclosed (!f.lineEnd) literals n hidden run) (hends : Ends (!f.lineEnd) rest)
    (hplain : ∀ l ∈ literals, l.Plain) : c.Trails source run d ∧
      ∃ parts, Parts source parts literals ∧
        shape.literals? = if hidden then none else some parts := by
  obtain ⟨t, hhead, hcases⟩ := atom_cases h
  have hbegins := hsource.head_of_enclosed hc hhead hrest henclosed
  obtain ⟨hstarts, hliterals⟩ | ⟨rfl, hparens⟩ | ⟨hstarts, hparen, -⟩ := hcases
  · cases henclosed with
    | bare hadjacent =>
      obtain ⟨parts, literals', run', behind, rfl, hparts, hadjacent', hrest', hstops, htrails⟩ :=
        hsource.rest_of_literals hc hliterals
      obtain ⟨rfl, rfl, rfl⟩ := hadjacent.unique hadjacent' hplain (hrest.symm.trans hrest')
        hends.stops hstops
      exact ⟨htrails, parts, hparts, rfl⟩
    | parens hopening =>
      obtain ⟨k, more, hk, rfl⟩ := hsource.rest_of_head hc hhead
      obtain ⟨rfl, -⟩ := List.cons.inj (hk.symm.trans hrest)
      rw [hopening] at hstarts
      cases hstarts
  · cases n with
    | zero =>
      cases henclosed with
      | bare hadjacent =>
        obtain ⟨k, more, hk, htoken⟩ := hsource.rest_of_head hc hhead
        obtain ⟨first, tail, rfl, hfirst⟩ := hadjacent.head
        obtain ⟨rfl, -⟩ := List.cons.inj (hk.symm.trans hrest)
        rw [htoken] at hfirst
        cases hfirst
    | succ n => exact hsource.parenthesised_of_enclosed hinner hc hparens hrest henclosed hplain
  · obtain hbegins | hbegins := hbegins
    · rw [hstarts] at hbegins
      cases hbegins
    · exact absurd hbegins hparen

/-- What is written as literals alone is read as literals alone, unless it is hidden. -/
theorem Legible.enclosesRead (depth : Nat) : EnclosesRead source (Phrases.upTo depth) := by
  induction depth with
  | zero => exact fun _ _ _ _ _ _ _ _ _ _ h => absurd h not_gives_failure
  | succ depth ih =>
    intro f c shape d literals n hidden run rest hc h hrest henclosed hends hplain
    obtain ⟨first, c₁, hatom, hextends⟩ | ⟨-, t, hhead, hstarts, hparen⟩ :=
      hsource.beginsWithAtom_expressionRule hc h
    · obtain ⟨htrails, hshape⟩ :=
        hsource.atom_of_enclosed ih hc hatom hrest henclosed hends hplain
      cases hextends with
      | stays hsettles => exact ⟨htrails.settles hsettles, hshape⟩
      | goes hgoes _ =>
        obtain ⟨e, t, e', hsettles, he, hlook, hparen, hsemicolon⟩ := hgoes
        obtain rfl | ⟨-, rfl⟩ :=
          hsource.look_of_ends he hlook rfl (htrails.settles hsettles) hrest hends
        · exact absurd rfl hparen
        · exact absurd rfl hsemicolon
    · obtain hbegins | hbegins := hsource.head_of_enclosed hc hhead hrest henclosed
      · rw [hstarts] at hbegins
        cases hbegins
      · exact absurd hbegins hparen

end Whole

end SourceSurvey.Syntax
