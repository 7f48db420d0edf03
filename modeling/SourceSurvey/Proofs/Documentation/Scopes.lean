import SourceSurvey.Proofs.Blocks.Built
import SourceSurvey.Proofs.Documentation.Phrases

/-!
What the first statement of a scope is, by the tokens that it begins with.
-/

namespace SourceSurvey.Syntax

open SourceSurvey.Syntax.Parser

/-! ### Statements that are expressions -/

/-- Behind an expression nothing comes but comments, or a token goes on with it. -/
inductive Continues (source : List Lexeme) (f : Follow) (c : Cursor) : Bool → Cursor → Prop
  | stays {d : Cursor} (h : c.Settles source d) : Continues source f c false d
  | goes {d : Cursor} (h : GoesOn source f c) : Continues source f c true d

theorem yields_assignedValue (rules : Rules) :
    Yields (fun r : (Bool × Bool) ⊕ Bool => r.elim Prod.snd id = true) (assignedValue rules) := by
  have hlist : Yields (fun r : (Bool × Bool) ⊕ Bool => r.elim Prod.snd id = true)
      (assignedList rules) := yields_bind _ fun _ => yields_pure rfl
  refine yields_bind _ fun t => ?_
  split
  · exact .ite (yields_bind _ fun _ => yields_pure rfl) hlist
  · exact hlist

section Statement

variable {source : List Lexeme} {c d e : Cursor} {f : Follow} {inner : Phrases} {depth : Nat}
  {s : Statement}

theorem GoesOn.of_settles (h : c.Settles source d) (h' : GoesOn source f d) :
    GoesOn source f c := by
  obtain ⟨e, t, e', hsettles, hread⟩ := h'
  exact ⟨e, t, e', h.trans hsettles, hread⟩

theorem Continues.trans {first second : Bool} (h : Continues source f c first d)
    (h' : Continues source f d second e) : Continues source f c (first || second) e := by
  cases h with
  | goes h => exact .goes h
  | stays h =>
    cases h' with
    | stays h' => exact .stays (h.trans h')
    | goes h' => exact .goes (h'.of_settles h)

variable (hsource : Legible source)

include hsource

theorem Legible.continues_expressionList {shapes : List Shape} {comma : Bool}
    (hc : c.On (Piece.ofLexemes source))
    (h : Gives (expressionList inner f neverStop) c (shapes, comma) d) :
    ∃ first c₁, Gives (inner.expression f) c first c₁ ∧ Continues source f c₁ comma d ∧
      (comma = false → shapes = [first]) := by
  obtain ⟨first, c₁, hfirst, h⟩ := gives_bind_iff.mp h
  refine ⟨first, c₁, hfirst, ?_⟩
  have hc₁ := hc.of_reaches hfirst.reaches
  -- the first round is at the end of the first expression, and later ones behind a comma
  refine Gives.of_loop
    (fun (s : List Shape × Bool) d => s = ([first], false) ∧ d = c₁ ∨
      s.2 = true ∧ GoesOn source f c₁)
    (fun (s : List Shape × Bool) d => Continues source f c₁ s.2 d ∧ (s.2 = false → s.1 = [first]))
    ?_ h (.inl ⟨rfl, rfl⟩)
  rintro ⟨shapes, comma⟩ d r d' hstate hround
  obtain ⟨l, d₁, hlook, hround⟩ := gives_bind_iff.mp hround
  split at hround
  · have hgoes : GoesOn source f c₁ := by
      obtain ⟨-, rfl⟩ | ⟨-, hgoes⟩ := hstate
      · exact ⟨d, _, d₁, .refl d, hc₁, hlook, nofun, nofun⟩
      · exact hgoes
    obtain ⟨l, d₂, -, hround⟩ := gives_bind_iff.mp hround
    split at hround
    · split at hround
      · obtain ⟨shape, d₃, -, hround⟩ := gives_bind_iff.mp hround
        obtain ⟨rfl, rfl⟩ := gives_pure_iff.mp hround
        exact .inr ⟨rfl, hgoes⟩
      · obtain ⟨rfl, rfl⟩ := gives_pure_iff.mp hround
        exact ⟨.goes hgoes, nofun⟩
    · obtain ⟨rfl, rfl⟩ := gives_pure_iff.mp hround
      exact ⟨.goes hgoes, nofun⟩
  · obtain ⟨rfl, rfl⟩ := gives_pure_iff.mp hround
    obtain ⟨hstate, rfl⟩ | ⟨hcomma, hgoes⟩ := hstate
    · cases hstate
      exact ⟨.stays (hsource.settles_of_look hc₁ hlook), fun _ => rfl⟩
    · obtain rfl : comma = true := hcomma
      exact ⟨.goes hgoes, nofun⟩

theorem Legible.continues_assignmentTail {rules : Rules} {target assigned : Bool}
    (hc : c.On (Piece.ofLexemes source)) (h : Gives (assignmentTail rules target) c assigned d) :
    Continues source .line c assigned d := by
  refine Gives.of_loop
    (fun (s : Bool × Bool) d => d.On (Piece.ofLexemes source) ∧ Continues source .line c s.2 d)
    (fun assigned d => Continues source .line c assigned d) ?_ h ⟨hc, .stays (.refl c)⟩
  rintro ⟨target, assigned⟩ d r d' ⟨hd, hstate⟩ hround
  have hd' := hd.of_reaches hround.reaches
  obtain ⟨l, d₁, hlook, hround⟩ := gives_bind_iff.mp hround
  have hgoes : ∀ {t}, l = .token t → t ≠ .symbol .rightParen → t ≠ .symbol .semicolon →
      GoesOn source .line c := by
    rintro t rfl hparen hsemicolon
    cases hstate with
    | stays hsettles => exact ⟨d, t, d₁, hsettles, hd, hlook, hparen, hsemicolon⟩
    | goes hgoes => exact hgoes
  have hassigned : GoesOn source .line c → ∀ {d₂}, Gives (assignedValue rules) d₂ r d' →
      r.elim (fun s => d'.On (Piece.ofLexemes source) ∧ Continues source .line c s.2 d')
        (Continues source .line c · d') := by
    intro hgoes d₂ hvalue
    have hyields := yields_assignedValue rules hvalue
    cases r with
    | inl s =>
      obtain ⟨target, assigned⟩ := s
      obtain rfl : assigned = true := hyields
      exact ⟨hd', .goes hgoes⟩
    | inr assigned =>
      obtain rfl : assigned = true := hyields
      exact .goes hgoes
  split at hround
  · next hassigns =>
    obtain ⟨t, rfl, -⟩ := exists_symbol_of_assigns hassigns
    obtain ⟨u, d₂, -, hround⟩ := gives_bind_iff.mp hround
    refine hassigned (hgoes rfl ?_ ?_) hround
    · rintro heq
      cases heq
      cases hassigns
    · rintro heq
      cases heq
      cases hassigns
  · split at hround
    · have hcolon := hgoes rfl nofun nofun
      obtain ⟨u, d₂, -, hround⟩ := gives_bind_iff.mp hround
      obtain ⟨u, d₃, -, hround⟩ := gives_bind_iff.mp hround
      obtain ⟨u, d₄, -, hround⟩ := gives_bind_iff.mp hround
      obtain ⟨l, d₅, -, hround⟩ := gives_bind_iff.mp hround
      split at hround
      · exact hassigned hcolon hround
      · obtain ⟨rfl, rfl⟩ := gives_pure_iff.mp hround
        exact .goes hcolon
    · obtain ⟨rfl, rfl⟩ := gives_pure_iff.mp hround
      have hstays : Continues source .line d false d₁ := .stays (hsource.settles_of_look hd hlook)
      have hwhole := hstate.trans hstays
      rwa [Bool.or_false] at hwhole

/-- A statement that was read as an expression is the expression that it begins with, unless a token
    goes on with that. Only a `yield` is no expression at its beginning. -/
theorem Legible.expressionStatement_cases (hc : c.On (Piece.ofLexemes source))
    (h : Gives (expressionStatement (Rules.upTo depth)) c s d) :
    (∃ w, c.pieces.head?.map Piece.token = some (.word w)) ∧ s = .plain c.index ∨
      ∃ first c₁ more, Gives ((Phrases.upTo depth).expression .line) c first c₁ ∧
        Continues source .line c₁ more d ∧
        s = if more then .plain c.index else .expression c.index first := by
  replace h := gives_position_bind_iff.mp h
  obtain ⟨t, c', hhead, h⟩ := gives_bind_iff.mp h
  obtain ⟨hfound, rfl⟩ := gives_head_iff.mp hhead
  split at h
  · next hyield =>
    rw [hyield] at hfound
    obtain ⟨u, c', -, h⟩ := gives_bind_iff.mp h
    obtain ⟨rfl, rfl⟩ := gives_pure_iff.mp h
    exact .inl ⟨⟨_, hfound⟩, rfl⟩
  · obtain ⟨⟨shapes, comma⟩, c₂, hshapes, h⟩ := gives_bind_iff.mp h
    obtain ⟨assigned, c₃, hassigned, h⟩ := gives_bind_iff.mp h
    obtain ⟨first, c₁, hfirst, hcomma, honly⟩ := hsource.continues_expressionList hc hshapes
    have hwhole := hcomma.trans
      (hsource.continues_assignmentTail (hc.of_reaches hshapes.reaches) hassigned)
    refine .inr ⟨first, c₁, comma || assigned, hfirst, ?_⟩
    cases comma with
    | false =>
      obtain rfl := honly rfl
      obtain ⟨rfl, rfl⟩ := gives_pure_iff.mp h
      exact ⟨hwhole, rfl⟩
    | true =>
      simp only [Bool.true_or, if_true] at h ⊢
      split at h
      · obtain ⟨rfl, rfl⟩ := gives_pure_iff.mp h
        exact ⟨hwhole, rfl⟩
      · obtain ⟨rfl, rfl⟩ := gives_pure_iff.mp h
        exact ⟨hwhole, rfl⟩

/-- What ends a statement of one line. -/
def EndsStatement (l : Look) : Prop := l = .lineEnd ∨ l = .token (.symbol .semicolon)

theorem Legible.ends_of_look {l : Look} (hc : c.On (Piece.ofLexemes source))
    (h : Gives (look .lineEnding) c l d) (hl : EndsStatement l) : Ends false (c.rest source) := by
  obtain rfl | rfl := hl
  · obtain ⟨-, -, comments, k, more, hrest, hcomments, hk⟩ :=
      hsource.breaks_of_look hc h rfl rfl nofun
    exact hrest ▸ .line hcomments (.inl hk)
  · obtain ⟨between, k, more, hrest, -, hbetween, -, hk, -⟩ := hsource.rest_of_look hc h
    exact hrest ▸ .line hbetween (.inr hk)

end Statement

/-! ### First statements -/

/-- How the first statement of a scope is read: it has a body and begins with a word or a sign of its
    own, or it is one of a line. -/
inductive First (all : List Piece) (t : Nat) (s : Statement) : Prop
  | body (hhead : HeadsBody all t) (hs : ∀ i shape, s ≠ .expression i shape)
  | line {depth : Nat} {c d d' : Cursor} {l : Look} (hc : c.On all) (ht : c.index = t)
    (hread : Gives (simpleStatement (Rules.upTo depth)) c s d)
    (hlook : Gives (look .lineEnding) d l d') (hends : EndsStatement l)

section First

variable {source run rest literals : List Lexeme} {t n : Nat} {s : Statement} {hidden : Bool}
  (hsource : Legible source)

include hsource

theorem Legible.head_of_headsBody {k : Lexeme} {more : List Lexeme}
    (h : HeadsBody (Piece.ofLexemes source) t)
    (hrest : (Lexeme.unmarked source).drop t = k :: more) :
    k.token.startsLiteral = false ∧ k.token ≠ .symbol .leftParen := by
  obtain ⟨p, hp, htoken⟩ := h
  have hk : (Lexeme.unmarked source)[t]? = some k := by
    have hfirst : ((Lexeme.unmarked source).drop t)[0]? = some k := by rw [hrest]; rfl
    rwa [List.getElem?_drop] at hfirst
  rw [ofLexemes_eq, List.getElem?_map, hk] at hp
  cases hp
  rw [hsource.token_eq (List.mem_of_getElem? hk)] at htoken
  obtain ⟨w, hword⟩ | hat := htoken
  · rw [hword]
    exact ⟨rfl, nofun⟩
  · rw [hat]
    exact ⟨rfl, nofun⟩

/-- A first statement that is written as literals alone is read as literals alone, unless it is
    hidden. -/
theorem Legible.expression_of_enclosed (h : First (Piece.ofLexemes source) t s)
    (hrest : (Lexeme.unmarked source).drop t = run ++ rest)
    (henclosed : Enclosed false literals n hidden run) (hends : Ends false rest)
    (hplain : ∀ l ∈ literals, l.Plain) :
    ∃ shape parts, s = .expression t shape ∧ Parts source parts literals ∧
      shape.literals? = if hidden then none else some parts := by
  obtain ⟨first, tail, hrun, hfirst⟩ := henclosed.head
  cases h with
  | body hhead =>
    obtain ⟨hstarts, hparen⟩ := hsource.head_of_headsBody hhead (hrest.trans (by rw [hrun]; rfl))
    obtain hfirst | hfirst := hfirst
    · rw [hstarts] at hfirst
      cases hfirst
    · exact absurd hfirst hparen
  | @line depth c d d' l hc ht hread =>
    subst ht
    have hword : ¬ ∃ w, c.pieces.head?.map Piece.token = some (.word w) := by
      rintro ⟨w, hhead⟩
      obtain hstarts | hparen := hsource.head_of_enclosed hc hhead hrest henclosed
      · cases hstarts
      · cases hparen
    obtain ⟨d₁, hexpression, -⟩ | ⟨-, hhead⟩ := simpleStatement_cases hread
    · obtain ⟨hhead, -⟩ | ⟨shape, c₁, more, hshape, hcontinues, hs⟩ :=
        hsource.expressionStatement_cases hc hexpression
      · exact absurd hhead hword
      · obtain ⟨htrails, parts, hparts, hliterals⟩ :=
          hsource.enclosesRead depth hc hshape hrest henclosed hends hplain
        cases hcontinues with
        | stays => exact ⟨shape, parts, hs, hparts, hliterals⟩
        | goes hgoes =>
          obtain ⟨e, t, e', hsettles, he, hlook, hparen, hsemicolon⟩ := hgoes
          obtain rfl | ⟨-, rfl⟩ :=
            hsource.look_of_ends he hlook rfl (htrails.settles hsettles) hrest hends
          · exact absurd rfl hparen
          · exact absurd rfl hsemicolon
    · exact absurd hhead hword

/-- A first statement that is read as literals alone is written as literals alone. -/
theorem Legible.enclosed_of_expression {i : Nat} {shape : Shape} {parts : List LiteralPart}
    (h : First (Piece.ofLexemes source) t (.expression i shape))
    (hshape : shape.literals? = some parts) :
    ∃ literals n run rest, (Lexeme.unmarked source).drop t = run ++ rest ∧
      Enclosed false literals n false run ∧ Ends false rest ∧ Parts source parts literals := by
  cases h with
  | body _ hs => exact absurd rfl (hs i shape)
  | @line depth c d d' l hc ht hread hlook hends =>
    subst ht
    obtain ⟨d₁, hexpression, hlast⟩ | ⟨hkeyword, -⟩ := simpleStatement_cases hread
    · obtain ⟨-, hs⟩ | ⟨first, c₁, more, hfirst, hcontinues, hs⟩ :=
        hsource.expressionStatement_cases hc hexpression
      · cases hs
      · cases hcontinues with
        | goes => cases hs
        | stays hsettles =>
          cases hs
          obtain ⟨literals, n, run, henclosed, hparts, htrails⟩ :=
            hsource.readsEnclosed depth hc hfirst hshape
          have hd₁ : d₁.Settles source d := by
            obtain rfl | ⟨l, hend⟩ := hlast
            · exact .refl _
            · exact hsource.settles_of_look (hc.of_reaches hexpression.reaches) hend
          obtain ⟨comments, hrest, hcomments, -⟩ := (htrails.settles hsettles).settles hd₁
          have hbehind := hsource.ends_of_look (hc.of_reaches hread.reaches) hlook hends
          exact ⟨literals, n, run, _, hrest, henclosed, hbehind.before hcomments, hparts⟩
    · cases hkeyword

end First

/-! ### Scopes -/

section Scopes

variable {all : List Piece} {c d : Cursor} {statements body rest : List Statement} {lo hi : Nat}
  {s : Statement}

/-- Statements begin with one that is read where they begin. -/
def BeginAt (all : List Piece) (t : Nat) (statements : List Statement) : Prop :=
  ∃ s rest, statements = s :: rest ∧ startsOf [s] = [t] ∧ First all t s

/-- The statements of a line begin with one that is read where the line begins, and they contain no
    definition. -/
theorem beginAt_statementLine {depth : Nat} (hc : c.On all)
    (h : Gives (statementLine (Rules.upTo depth)) c statements d) :
    BeginAt all c.index statements ∧ Statement.extentsOf statements = [] := by
  refine Gives.of_loop
    (fun (before : List Statement) d => d.On all ∧
      (before = [] ∧ d = c ∨ BeginAt all c.index before.reverse) ∧
        Statement.extentsOf before.reverse = [])
    (fun (statements : List Statement) _ =>
      BeginAt all c.index statements ∧ Statement.extentsOf statements = [])
    ?_ h ⟨hc, .inl ⟨rfl, rfl⟩, rfl⟩
  rintro before d r d' ⟨hd, hfirst, hbefore⟩ hround
  have hd' := hd.of_reaches hround.reaches
  obtain ⟨s, d₁, hs, hround⟩ := gives_bind_iff.mp hround
  obtain ⟨l, d₂, hlook, hround⟩ := gives_bind_iff.mp hround
  obtain ⟨hstarts, hextents⟩ := (single_of_simpleStatement hs).bare
  have hall : Statement.extentsOf (s :: before).reverse = [] := by
    rw [List.reverse_cons, extentsOf_append, hbefore, extentsOf_singleton, hextents,
      List.append_nil]
  have hmore : EndsStatement l → BeginAt all c.index (s :: before).reverse := by
    intro hends
    obtain ⟨rfl, rfl⟩ | ⟨s', rest, hsplit, hs'⟩ := hfirst
    · exact ⟨s, [], rfl, hstarts, .line hc rfl hs hlook hends⟩
    · exact ⟨s', rest ++ [s], by rw [List.reverse_cons, hsplit]; rfl, hs'⟩
  split at hround
  · obtain ⟨rfl, rfl⟩ := gives_pure_iff.mp hround
    exact ⟨hmore (.inl rfl), hall⟩
  · obtain ⟨l, d₃, -, hround⟩ := gives_bind_iff.mp hround
    split at hround
    · obtain ⟨rfl, rfl⟩ := gives_pure_iff.mp hround
      exact ⟨hmore (.inr rfl), hall⟩
    · obtain ⟨rfl, rfl⟩ := gives_pure_iff.mp hround
      exact ⟨hd', .inr (hmore (.inr rfl)), hall⟩
  · exact absurd hround not_gives_failure

/-- The first statement of a body begins the body. -/
theorem Built.first (h : Built all lo body hi) (hbody : body = s :: rest) :
    ∃ t, (startsOf body).head? = some t ∧ First all t s := by
  induction h generalizing s rest with
  | nil => cases hbody
  | @line _ _ _ c _ _ _ hc hread =>
    obtain ⟨⟨s', rest', rfl, hstarts, hfirst⟩, -⟩ := beginAt_statementLine hc hread
    cases hbody
    exact ⟨c.index, by rw [startsOf_cons, hstarts]; rfl, hfirst⟩
  | @block _ start _ body _ hhead =>
    cases hbody
    exact ⟨start, by rw [startsOf_block]; rfl, .body hhead nofun⟩
  | @definition _ start _ _ decorators _ _ body _ _ hhead _ =>
    cases hbody
    obtain ⟨t, ht⟩ : ∃ t, (decorators ++ [start]).head? = some t :=
      Option.isSome_iff_exists.mp (by simp)
    refine ⟨t, ?_, .body (hhead t ht) nofun⟩
    rw [startsOf_definition, List.append_cons, List.head?_append, ht]
    rfl
  | @append _ _ _ first second hfirst hsecond ih ih' =>
    cases first with
    | nil => exact ih' hbody
    | cons s' first =>
      cases hbody
      obtain ⟨t, ht, hs⟩ := ih rfl
      refine ⟨t, ?_, hs⟩
      rw [startsOf_append, List.head?_append, ht]
      rfl

theorem Built.extents (h : Built all lo body hi) :
    ∀ e ∈ Statement.extentsOf body, ∃ lo hi, Built all lo e.body hi := by
  induction h with
  | nil => exact nofun
  | line _ hc hread =>
    rw [(beginAt_statementLine hc hread).2]
    exact nofun
  | block _ _ _ ih => rwa [extentsOf_singleton]
  | definition _ _ _ _ hbody _ ih =>
    rw [extentsOf_singleton]
    exact List.forall_mem_cons.mpr ⟨⟨_, _, hbody⟩, ih⟩
  | append _ _ ih ih' =>
    rw [extentsOf_append]
    exact List.forall_mem_append.mpr ⟨ih, ih'⟩

end Scopes

end SourceSurvey.Syntax
