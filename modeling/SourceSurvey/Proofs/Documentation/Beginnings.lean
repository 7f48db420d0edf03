import SourceSurvey.Proofs.Blocks.Simple
import SourceSurvey.Proofs.Documentation.Reading
import SourceSurvey.Proofs.Syntax.RuleParts

/-!
What an expression begins with: an atom or an operator. An expression is the atom that it begins with,
or goes on with a token behind it and is then none of literals alone.
-/

namespace SourceSurvey.Syntax

open SourceSurvey.Syntax.Parser

/-- A token goes on with the expression that is read up to a cursor. -/
def GoesOn (source : List Lexeme) (f : Follow) (c : Cursor) : Prop :=
  ∃ d t d', c.Settles source d ∧ d.On (Piece.ofLexemes source) ∧
    Gives (look f.expected) d (.token t) d' ∧ t ≠ .symbol .rightParen ∧ t ≠ .symbol .semicolon

/-- An expression is what it begins with, or a token goes on with that and it is none of literals
    alone. -/
inductive Extends (source : List Lexeme) (f : Follow) (first : Shape) (c : Cursor) :
    Shape → Cursor → Prop
  | stays {d : Cursor} (h : c.Settles source d) : Extends source f first c first d
  | goes {shape : Shape} {d : Cursor} (h : GoesOn source f c) (hshape : shape.literals? = none) :
    Extends source f first c shape d

/-- An expression begins with an atom, or else with an operator. -/
def BeginsWithAtom (source : List Lexeme) (inner : Phrases) (f : Follow) (c : Cursor)
    (shape : Shape) (d : Cursor) : Prop :=
  (∃ first c₁, Gives (atom inner f) c first c₁ ∧ Extends source f first c₁ shape d) ∨
    shape.literals? = none ∧ ∃ t, c.pieces.head?.map Piece.token = some t ∧
      t.startsLiteral = false ∧ t ≠ .symbol .leftParen

section Extends

variable {source : List Lexeme} {c c₁ d e : Cursor} {f : Follow} {inner : Phrases}
  {first shape shape' : Shape} {t : Token}

theorem Extends.settles (h : Extends source f first c shape d) (h' : d.Settles source e) :
    Extends source f first c shape e := by
  cases h with
  | stays h => exact .stays (h.trans h')
  | goes h hshape => exact .goes h hshape

theorem Extends.goOn {d' : Cursor} (h : Extends source f first c shape d)
    (hd : d.On (Piece.ofLexemes source)) (hlook : Gives (look f.expected) d (.token t) d')
    (hparen : t ≠ .symbol .rightParen) (hsemicolon : t ≠ .symbol .semicolon)
    (hshape : shape'.literals? = none) : Extends source f first c shape' e := by
  cases h with
  | stays h => exact .goes ⟨d, t, d', h, hd, hlook, hparen, hsemicolon⟩ hshape
  | goes h _ => exact .goes h hshape

variable (hsource : Legible source)

include hsource

theorem Legible.extends_primary {member : Bool} (hc : c.On (Piece.ofLexemes source))
    (h : Gives (primary inner f) c (shape, member) d) :
    ∃ first c₁, Gives (atom inner f) c first c₁ ∧ Extends source f first c₁ shape d := by
  obtain ⟨first, c₁, hatom, h⟩ := gives_bind_iff.mp h
  refine ⟨first, c₁, hatom, ?_⟩
  refine Gives.of_loop
    (fun (s : Shape × Bool) d => d.On (Piece.ofLexemes source) ∧ Extends source f first c₁ s.1 d)
    (fun (s : Shape × Bool) d => Extends source f first c₁ s.1 d) ?_ h
    ⟨hc.of_reaches hatom.reaches, .stays (.refl c₁)⟩
  rintro ⟨shape, member⟩ d r d' ⟨hd, hshape⟩ hround
  obtain ⟨l, d₁, hlook, hround⟩ := gives_bind_iff.mp hround
  have hd' : d'.On (Piece.ofLexemes source) :=
    hd.of_reaches (hlook.reaches.trans hround.reaches)
  split at hround
  · obtain ⟨u, d₂, -, hround⟩ := gives_bind_iff.mp hround
    obtain ⟨u, d₃, -, hround⟩ := gives_bind_iff.mp hround
    obtain ⟨rfl, rfl⟩ := gives_pure_iff.mp hround
    exact ⟨hd', hshape.goOn hd hlook nofun nofun rfl⟩
  · obtain ⟨u, d₂, -, hround⟩ := gives_bind_iff.mp hround
    obtain ⟨rfl, rfl⟩ := gives_pure_iff.mp hround
    exact ⟨hd', hshape.goOn hd hlook nofun nofun rfl⟩
  · obtain ⟨u, d₂, -, hround⟩ := gives_bind_iff.mp hround
    obtain ⟨rfl, rfl⟩ := gives_pure_iff.mp hround
    exact ⟨hd', hshape.goOn hd hlook nofun nofun rfl⟩
  · obtain ⟨rfl, rfl⟩ := gives_pure_iff.mp hround
    exact hshape.settles (hsource.settles_of_look hd hlook)

theorem Legible.extends_namedPrimary {whole : Bool} (hc : c.On (Piece.ofLexemes source))
    (h : Gives (namedPrimary inner whole f) c shape d) :
    ∃ first c₁, Gives (atom inner f) c first c₁ ∧ Extends source f first c₁ shape d := by
  obtain ⟨⟨shape₁, member⟩, d₁, hprimary, h⟩ := gives_bind_iff.mp h
  obtain ⟨first, c₁, hatom, hextends⟩ := hsource.extends_primary hc hprimary
  have hd₁ := hc.of_reaches hprimary.reaches
  refine ⟨first, c₁, hatom, ?_⟩
  simp only at h
  split at h
  · split at h
    · obtain ⟨l, d₂, hlook, h⟩ := gives_bind_iff.mp h
      split at h
      · obtain ⟨u, d₃, -, h⟩ := gives_bind_iff.mp h
        obtain ⟨u, d₄, -, h⟩ := gives_bind_iff.mp h
        obtain ⟨rfl, rfl⟩ := gives_pure_iff.mp h
        exact hextends.goOn hd₁ hlook nofun nofun rfl
      · obtain ⟨rfl, rfl⟩ := gives_pure_iff.mp h
        exact hextends.settles (hsource.settles_of_look hd₁ hlook)
    · obtain ⟨rfl, rfl⟩ := gives_pure_iff.mp h
      exact hextends
  · obtain ⟨rfl, rfl⟩ := gives_pure_iff.mp h
    exact hextends

omit hsource in
theorem awaited_cases {whole : Bool} (h : Gives (awaited inner whole f) c shape d) :
    Gives (namedPrimary inner whole f) c shape d ∨ shape.literals? = none := by
  have hoperator : Yields (fun shape : Shape => shape.literals? = none) (do
      discard <| advance .operand
      discard <| inner.operand false f
      return .other) := yields_bind _ fun _ => yields_bind _ fun _ => yields_pure rfl
  obtain ⟨l, c', hpeek, h⟩ := gives_bind_iff.mp h
  obtain ⟨-, rfl⟩ := gives_ask_iff.mp hpeek
  split at h
  · split at h
    · exact h.of_orElse.imp_right fun h => hoperator h
    · exact h.of_orElse.imp_right fun h => hoperator h
    · exact .inr (hoperator h)
    · exact .inr (hoperator h)
    · exact .inr (hoperator h)
    · exact .inr (hoperator h)
    · exact .inr (hoperator h)
    · exact .inr (hoperator h)
    · split at h
      · exact .inl h
      · exact .inr (hoperator h)
    · exact .inl h
  · exact .inl h

theorem Legible.beginsWithAtom_operandRule {whole : Bool} (hc : c.On (Piece.ofLexemes source))
    (h : Gives (operandRule inner whole f) c shape d) :
    BeginsWithAtom source inner f c shape d := by
  obtain ⟨t, c', hhead, h⟩ := gives_bind_iff.mp h
  obtain ⟨hfound, rfl⟩ := gives_head_iff.mp hhead
  have hother : ∀ reader : Parser Unit, Yields (fun shape : Shape => shape.literals? = none)
      (do reader; return .other) := fun reader => yields_bind _ fun _ => yields_pure rfl
  have hoperand : ∀ whole, Yields (fun shape : Shape => shape.literals? = none) (do
      discard <| advance .operand
      discard <| inner.operand whole f
      return .other) := fun whole => yields_bind _ fun _ => yields_bind _ fun _ => yields_pure rfl
  split at h
  · have hword : shape.literals? = none → BeginsWithAtom source inner f c shape d := fun hshape =>
      .inr ⟨hshape, _, hfound, rfl, nofun⟩
    split at h
    · exact hword (hoperand true h)
    · split at h
      · exact hword (hother _ h)
      · split at h
        · obtain h | h := awaited_cases h
          · exact .inl (hsource.extends_namedPrimary hc h)
          · exact hword h
        · exact .inl (hsource.extends_namedPrimary hc h)
  · exact .inr ⟨hoperand false h, _, hfound, rfl, nofun⟩
  · exact .inr ⟨hoperand false h, _, hfound, rfl, nofun⟩
  · exact .inr ⟨hoperand false h, _, hfound, rfl, nofun⟩
  · have hstarred : Yields (fun shape : Shape => shape.literals? = none)
        (starredOperand inner f) := by
      refine yields_bind _ fun t => yields_bind _ fun found => yields_bind _ fun _ => ?_
      refine yields_pure ?_
      split <;> rfl
    exact .inr ⟨hstarred h, _, hfound, rfl, nofun⟩
  · exact .inl (hsource.extends_namedPrimary hc h)

omit hsource in
/-- What is no operator word is left where it is. -/
theorem eq_of_wordOperator {w : Word} (h : Gives (wordOperator inner f w) c false d) : d = c := by
  have htrue : ∀ {reader : Parser Bool}, Yields (· = true) reader → Gives reader c false d →
      d = c := fun hreader h => absurd (hreader h) Bool.false_ne_true
  have hoperand : ∀ whole, Yields (· = true) (do
      discard <| advance .operand
      discard <| inner.operand whole f
      return true) := fun whole => yields_bind _ fun _ => yields_bind _ fun _ => yields_pure rfl
  unfold wordOperator at h
  split at h
  · exact htrue (hoperand true) h
  · split at h
    · exact htrue (hoperand false) h
    · split at h
      · exact htrue (yields_bind _ fun _ => yields_bind _ fun _ => hoperand false) h
      · split at h
        · have hlast : Yields (· = true) (do
              discard <| inner.operand false f
              return true) := yields_bind _ fun _ => yields_pure rfl
          exact htrue (yields_bind _ fun _ => .ite (yields_bind _ fun _ => hlast) hlast) h
        · split at h
          · refine htrue (yields_bind _ fun _ => yields_bind _ fun _ => yields_bind _ fun _ => ?_) h
            exact yields_bind _ fun _ => yields_bind _ fun _ => yields_pure rfl
          · obtain ⟨-, rfl⟩ := gives_pure_iff.mp h
            rfl

omit hsource in
/-- Behind an operand a token goes on with the expression, or the expression ends there. -/
theorem operatorEnd_cases {r : Shape ⊕ Shape} (h : Gives (operatorEnd inner f shape) c r d) :
    (r = .inl .other ∧ ∃ t c', Gives (look f.expected) c (.token t) c' ∧
      t ≠ .symbol .rightParen ∧ t ≠ .symbol .semicolon) ∨
    (r = .inr shape ∧ ∃ l, Gives (look f.expected) c l d) := by
  obtain ⟨l, c₁, hlook, h⟩ := gives_bind_iff.mp h
  split at h
  · split at h
    · next s hbinary =>
      obtain ⟨u, c₂, -, h⟩ := gives_bind_iff.mp h
      obtain ⟨u, c₃, -, h⟩ := gives_bind_iff.mp h
      obtain ⟨rfl, rfl⟩ := gives_pure_iff.mp h
      refine .inl ⟨rfl, _, c₁, hlook, ?_, ?_⟩
      · rintro heq
        cases heq
        cases hbinary
      · rintro heq
        cases heq
        cases hbinary
    · obtain ⟨rfl, rfl⟩ := gives_pure_iff.mp h
      exact .inr ⟨rfl, _, hlook⟩
  · obtain ⟨found, c₂, hword, h⟩ := gives_bind_iff.mp h
    cases found with
    | true =>
      obtain ⟨rfl, rfl⟩ := gives_pure_iff.mp h
      exact .inl ⟨rfl, _, c₁, hlook, nofun, nofun⟩
    | false =>
      obtain ⟨rfl, rfl⟩ := gives_pure_iff.mp h
      rw [eq_of_wordOperator hword]
      exact .inr ⟨rfl, _, hlook⟩
  · obtain ⟨rfl, rfl⟩ := gives_pure_iff.mp h
    exact .inr ⟨rfl, _, hlook⟩

theorem Legible.beginsWithAtom_expressionRule (hc : c.On (Piece.ofLexemes source))
    (h : Gives (expressionRule inner f) c shape d) : BeginsWithAtom source inner f c shape d := by
  obtain ⟨shape₁, c₁, hoperand, hloop⟩ := gives_bind_iff.mp h
  change Gives (loop (operatorEnd inner f) shape₁) c₁ shape d at hloop
  have hc₁ := hc.of_reaches hoperand.reaches
  obtain ⟨first, c₂, hatom, hextends⟩ | ⟨hshape, hhead⟩ :=
    hsource.beginsWithAtom_operandRule hc hoperand
  · refine .inl ⟨first, c₂, hatom, ?_⟩
    refine Gives.of_loop
      (fun shape d => d.On (Piece.ofLexemes source) ∧ Extends source f first c₂ shape d)
      (fun shape d => Extends source f first c₂ shape d) ?_ hloop ⟨hc₁, hextends⟩
    rintro shape d r d' ⟨hd, hshape⟩ hround
    obtain ⟨rfl, t, d₁, hlook, hparen, hsemicolon⟩ | ⟨rfl, l, hlook⟩ := operatorEnd_cases hround
    · exact ⟨hd.of_reaches hround.reaches, hshape.goOn hd hlook hparen hsemicolon rfl⟩
    · exact hshape.settles (hsource.settles_of_look hd hlook)
  · refine .inr ⟨?_, hhead⟩
    refine Gives.of_loop (fun shape _ => shape.literals? = none)
      (fun shape _ => shape.literals? = none) ?_ hloop hshape
    rintro shape d r d' hshape hround
    obtain ⟨rfl, -⟩ | ⟨rfl, -⟩ := operatorEnd_cases hround
    · rfl
    · exact hshape

end Extends

end SourceSurvey.Syntax
