import Mathlib.Data.List.Forall2
import Mathlib.Data.Option.Basic
import SourceSurvey.Proofs.Syntax.Inversion

/-!
What readers do not see. Two cursors are alike if the tokens behind them are the same and the lines
begin in the same way; where lines are joined, and what blanks stand within a line, may differ. The
lemmas here show from the steps of a rule that it finds the same at cursors that are alike.
-/

namespace SourceSurvey.Syntax

/-- The same token with the same layout, as far as readers look at it: within a line they see of it
    only whether anything stands before a star. -/
structure Piece.Alike (p q : Piece) : Prop where
  token : p.token = q.token
  breaks : p.layout.breaks = q.layout.breaks
  margin : p.layout.breaks = true →
    p.layout.column = q.layout.column ∧ p.layout.blocked = q.layout.blocked
  star : p.token = .symbol .star → p.layout.tight = q.layout.tight

/-- Cursors that readers find the same at. -/
structure Cursor.Alike (c d : Cursor) : Prop where
  pieces : List.Forall₂ Piece.Alike c.pieces d.pieces
  index : c.index = d.index
  indents : c.indents = d.indents
  formatting : c.formatting = d.formatting
  budget : c.budget = d.budget

theorem Piece.Alike.refl (p : Piece) : p.Alike p := ⟨rfl, rfl, fun _ => ⟨rfl, rfl⟩, fun _ => rfl⟩

/-! ### Settling -/

/-- Layout counts only where a line has ended. -/
theorem Cursor.signal_eq_filter (e : Expected) (c : Cursor) :
    c.signal e = match (Margin.ahead e.layout none c.pieces).filter Margin.breaks with
      | none => .token
      | some m =>
        if e.indent && c.column < m.column then .indent m.column
        else if m.column < c.column && !c.formatting && m.comment.all (· < c.column) &&
            (e.dedent || !(e.lineEnd || e.closer || e.literal && m.quote)) then
          if e.dedent then .dedent else .stray
        else if e.lineEnd then .lineEnd
        else .token := by
  rw [Cursor.signal]
  cases Margin.ahead e.layout none c.pieces with
  | none => rfl
  | some m =>
    cases hbreaks : m.breaks with
    | true => simp only [Option.filter_some, hbreaks, if_true, Bool.not_true, Bool.false_eq_true,
        if_false]
    | false => simp only [Option.filter_some, hbreaks, if_true, Bool.not_false, Bool.false_eq_true,
        if_false]

theorem filter_ahead_of_alike {pieces pieces' : List Piece}
    (h : List.Forall₂ Piece.Alike pieces pieces') (comments : Bool) (first : Option Nat) :
    (Margin.ahead comments first pieces).filter Margin.breaks =
      (Margin.ahead comments first pieces').filter Margin.breaks := by
  induction h generalizing first with
  | nil => rfl
  | @cons p q rest rest' hp _ ih =>
    rw [Margin.ahead, Margin.ahead, ← hp.token, ← hp.breaks]
    cases hbreaks : p.layout.breaks with
    | true =>
      obtain ⟨hcolumn, hblocked⟩ := hp.margin hbreaks
      rw [← hcolumn, ← hblocked]
      split
      · rfl
      · split
        · exact ih _
        · rfl
    | false =>
      have hnone : ∀ (q : Piece) (rest : List Piece),
          (if q.layout.blocked then some (Margin.mk false q.layout.column first false)
            else if comments && p.token = .comment then
              if false then Margin.ahead comments (first <|> some q.layout.column) rest else none
            else some ⟨false, q.layout.column, first, p.token = .string true⟩).filter
              Margin.breaks = none := by
        intro q rest
        split
        · rfl
        · split
          · rfl
          · rfl
      exact (hnone p rest).trans (hnone q rest').symm

theorem Cursor.Alike.signal {c d : Cursor} (h : c.Alike d) (e : Expected) :
    c.signal e = d.signal e := by
  have hcolumn : c.column = d.column := congrArg (List.headD · 0) h.indents
  rw [Cursor.signal_eq_filter, Cursor.signal_eq_filter, filter_ahead_of_alike h.pieces, hcolumn,
    h.formatting]

theorem Cursor.Alike.settleOver (e : Expected) {pieces pieces' : List Piece}
    (hpieces : List.Forall₂ Piece.Alike pieces pieces') {c d : Cursor}
    (h : { c with pieces := [] }.Alike { d with pieces := [] }) :
    (c.settleOver e pieces).1 = (d.settleOver e pieces').1 ∧
      (c.settleOver e pieces).2.Alike (d.settleOver e pieces').2 := by
  induction hpieces generalizing c d with
  | nil => exact ⟨rfl, h⟩
  | @cons p q rest rest' hp hrest ih =>
    have hhere : { c with pieces := p :: rest }.Alike { d with pieces := q :: rest' } :=
      ⟨.cons hp hrest, h.index, h.indents, h.formatting, h.budget⟩
    rw [Cursor.settleOver, Cursor.settleOver, hhere.signal e, hp.token]
    split
    · split
      · exact ih ⟨.nil, congrArg Nat.succ h.index, h.indents, h.formatting, h.budget⟩
      · exact ⟨rfl, hhere⟩
    · exact ⟨rfl, hhere⟩

theorem Cursor.Alike.settle {c d : Cursor} (h : c.Alike d) (e : Expected) :
    (c.settle e).1 = (d.settle e).1 ∧ (c.settle e).2.Alike (d.settle e).2 :=
  Cursor.Alike.settleOver e h.pieces ⟨.nil, h.index, h.indents, h.formatting, h.budget⟩

theorem Cursor.Alike.pass {c d : Cursor} (h : c.Alike d) {rest rest' : List Piece}
    (hrest : List.Forall₂ Piece.Alike rest rest') (formatting : Bool) :
    (c.pass rest formatting).Alike (d.pass rest' formatting) :=
  ⟨hrest, congrArg Nat.succ h.index, h.indents, rfl, h.budget⟩

theorem Cursor.Alike.head {c d : Cursor} (h : c.Alike d) :
    c.pieces.head?.map Piece.token = d.pieces.head?.map Piece.token := by
  have hpieces := h.pieces
  generalize c.pieces = pieces, d.pieces = pieces' at hpieces
  cases hpieces with
  | nil => rfl
  | cons hp _ => exact congrArg some hp.token

namespace Parser

variable {α α' β β' σ σ' : Type} {R : α → α' → Prop} {S : β → β' → Prop}

/-- From cursors that are alike two readers go on alike, and what they find is related. -/
def Matches (R : α → α' → Prop) (reader : Parser α) (reader' : Parser α') : Prop :=
  ∀ ⦃c d⦄, c.Alike d →
    Option.Rel (fun a b => R a.1 b.1 ∧ a.2.Alike b.2) (reader.read c) (reader'.read d)

/-- What a reader finds is related at cursors that are alike. -/
abbrev BlindTo {α : Type} (R : α → α → Prop) (reader : Parser α) : Prop := Matches R reader reader

/-- A reader finds the same at cursors that are alike. -/
abbrev Blind {α : Type} (reader : Parser α) : Prop := BlindTo Eq reader

section Steps

variable {e : Expected} {f : α → Parser β} {f' : α' → Parser β'} {first second : Parser α}
  {first' second' : Parser α'}

theorem matches_pure {a : α} {a' : α'} (h : R a a') : Matches R (pure a) (pure a') :=
  fun _ _ hc => .some ⟨h, hc⟩

theorem matches_failure : Matches R (failure : Parser α) (failure : Parser α') := fun _ _ _ => .none

/-- What is read behind two phrases that match may depend on what they are. -/
theorem Matches.bindRel (h : Matches R first first') (hf : ∀ a a', R a a' → Matches S (f a) (f' a')) :
    Matches S (first >>= f) (first' >>= f') := by
  intro c d hc
  have hfound := h hc
  change Option.Rel _ ((first.read c).bind _) ((first'.read d).bind _)
  generalize first.read c = found, first'.read d = found' at hfound
  cases hfound with
  | none => exact .none
  | some h => exact hf _ _ h.1 h.2

/-- The two phrases are the same. -/
theorem Matches.bind {second : Parser α} {f' : α → Parser β'} (h : Matches Eq first second)
    (hf : ∀ a, Matches S (f a) (f' a)) : Matches S (first >>= f) (second >>= f') := by
  refine h.bindRel fun a b hab => ?_
  subst hab
  exact hf a

theorem Matches.discard (h : Matches R first first') :
    Matches Eq (Functor.discard first) (Functor.discard first') :=
  h.bindRel fun _ _ _ => matches_pure rfl

theorem Matches.ite {q : Prop} [Decidable q] (hfirst : Matches R first first')
    (hsecond : Matches R second second') :
    Matches R (if q then first else second) (if q then first' else second') := by
  split
  · exact hfirst
  · exact hsecond

theorem Matches.orElse (hfirst : Matches R first first') (hsecond : Matches R second second') :
    Matches R (first <|> second) (first' <|> second') := by
  intro c d hc
  have hfound := hfirst hc
  rw [read_orElse, read_orElse]
  generalize first.read c = found, first'.read d = found' at hfound
  cases hfound with
  | none => exact hsecond hc
  | some h => exact .some h

theorem matches_ask {g : Cursor → Option α} {g' : Cursor → Option α'}
    (h : ∀ ⦃c d⦄, c.Alike d → Option.Rel R (g c) (g' d)) : Matches R (ask g) (ask g') := by
  intro c d hc
  have hfound := h hc
  change Option.Rel _ ((g c).map _) ((g' d).map _)
  generalize g c = found, g' d = found' at hfound
  cases hfound with
  | none => exact .none
  | some h => exact .some ⟨h, hc⟩

theorem blind_ask {g : Cursor → Option α} (h : ∀ ⦃c d⦄, c.Alike d → g c = g d) : Blind (ask g) := by
  refine matches_ask fun c d hc => ?_
  rw [h hc]
  cases g d with
  | none => exact .none
  | some a => exact .some rfl

theorem blind_guard {q : Prop} [Decidable q] : Blind (guard q) := by
  unfold guard
  exact .ite (matches_pure rfl) matches_failure

theorem blind_position : Blind position := blind_ask fun _ _ hc => congrArg some hc.index

theorem blind_head : Blind head := blind_ask fun _ _ hc => hc.head

theorem blind_dedentExpected : Blind dedentExpected := by
  refine blind_ask fun c d hc => ?_
  rw [hc.indents]

/-- Readers do see where lines are joined, and so need not find the same there. -/
theorem blindTo_crossesSeam : BlindTo (fun _ _ => True) crossesSeam := by
  refine matches_ask fun c d hc => ?_
  have hpieces := hc.pieces
  generalize c.pieces = pieces, d.pieces = pieces' at hpieces
  cases hpieces with
  | nil => exact .none
  | cons => exact .some trivial

theorem Matches.peek (h : Matches R first first') :
    Matches R (Parser.peek first) (Parser.peek first') := by
  refine matches_ask fun c d hc => ?_
  have hfound := h hc
  generalize first.read c = found, first'.read d = found' at hfound
  cases hfound with
  | none => exact .none
  | some h => exact .some h.1

theorem blind_look : Blind (look e) := by
  intro c d hc
  obtain ⟨hsignal, hsettled⟩ := hc.settle e
  change Option.Rel _ (Look.ofSettled (c.settle e)) (Look.ofSettled (d.settle e))
  generalize c.settle e = settled, d.settle e = settled' at hsignal hsettled
  obtain ⟨signal, c'⟩ := settled
  obtain ⟨signal', d'⟩ := settled'
  obtain rfl : signal = signal' := hsignal
  have hsettled : c'.Alike d' := hsettled
  cases signal with
  | stray => exact .none
  | token =>
    have hpieces := hsettled.pieces
    simp only [Look.ofSettled]
    revert hsettled
    generalize c'.pieces = pieces, d'.pieces = pieces' at hpieces
    intro hsettled
    cases hpieces with
    | nil => exact .none
    | cons hp _ => exact .some ⟨congrArg Look.token hp.token, hsettled⟩
  | _ => exact .some ⟨rfl, hsettled⟩

theorem blind_take : Blind take := by
  intro c d hc
  have hpieces := hc.pieces
  simp only [take]
  generalize c.pieces = pieces, d.pieces = pieces' at hpieces
  cases hpieces with
  | nil => exact .none
  | cons hp hrest =>
    simp only [hp.token, hc.formatting]
    split
    · exact .some ⟨rfl, hc.pass hrest _⟩
    · exact .none

theorem blind_next : Blind (next e) := by
  refine blind_look.bind fun l => ?_
  split
  · exact matches_pure rfl
  · exact matches_failure

theorem blind_advance : Blind (advance e) := blind_take.discard.bind fun _ => blind_next

/-- A certain token is passed if it comes next. -/
theorem Matches.advanceIf {t u : Token} {f : Token → Parser β} {f' : Token → Parser β'}
    (hf : ∀ v, Matches S (f v) (f' v)) :
    Matches S (if u = t then Parser.advance e >>= f else pure u >>= f)
      (if u = t then Parser.advance e >>= f' else pure u >>= f') :=
  .ite (blind_advance.bind hf) ((matches_pure rfl).bind hf)

theorem blind_advanceLook : Blind (advanceLook e) := blind_take.discard.bind fun _ => blind_look

theorem blind_expect (t : Token) : Blind (expect e t) :=
  blind_next.bind fun _ => .ite blind_take.discard matches_failure

theorem blind_expectWord : Blind (expectWord e) := by
  refine blind_next.bind fun t => ?_
  split
  · exact blind_take.discard.bind fun _ => matches_pure rfl
  · exact matches_failure

end Steps

/-! ### Readers of readers -/

theorem Matches.attempt {reader : Parser (Option α)} {reader' : Parser (Option α')}
    (h : Matches (Option.Rel R) reader reader') :
    Matches (Option.Rel R) (Parser.attempt reader) (Parser.attempt reader') := by
  intro c d hc
  have hfound := h hc
  simp only [Parser.attempt]
  generalize reader.read c = found, reader'.read d = found' at hfound
  cases hfound with
  | none => exact .none
  | @some found found' h =>
    obtain ⟨a, c'⟩ := found
    obtain ⟨a', d'⟩ := found'
    obtain ⟨ha, hc'⟩ := h
    cases ha with
    | none => exact .some ⟨.none, hc⟩
    | some ha => exact .some ⟨.some ha, hc'⟩

theorem rel_eq_self (a : Option α) : Option.Rel Eq a a := by
  cases a with
  | none => exact .none
  | some a => exact .some rfl

theorem eq_of_rel_eq {a b : Option α} (h : Option.Rel Eq a b) : a = b := by
  cases h with
  | none => rfl
  | some h => rw [h]

theorem blind_advanceBefore {e : Expected} (t : Token) : Blind (advanceBefore e t) := by
  refine Matches.bindRel (Matches.attempt (R := Eq) (blind_advanceLook.bind fun l => ?_))
    fun a b hab => matches_pure (by rw [eq_of_rel_eq hab])
  split
  · exact matches_pure (rel_eq_self _)
  · exact matches_pure .none

theorem Matches.interpolated {body body' : Parser Unit} (h : Matches Eq body body') :
    Matches Eq (Parser.interpolated body) (Parser.interpolated body') := by
  intro c d hc
  have hpieces := hc.pieces
  simp only [Parser.interpolated]
  generalize c.pieces = pieces, d.pieces = pieces' at hpieces
  cases hpieces with
  | nil => exact .none
  | @cons p q rest rest' hp hrest =>
    obtain ⟨layout, t⟩ := p
    obtain ⟨layout', t'⟩ := q
    obtain rfl : t = t' := hp.token
    cases t with
    | formatStart =>
      have hbody := h (hc.pass hrest true)
      simp only
      generalize body.read _ = found, body'.read _ = found' at hbody
      cases hbody with
      | none => exact .none
      | @some found found' hinside =>
        obtain ⟨⟨⟩, c'⟩ := found
        obtain ⟨⟨⟩, d'⟩ := found'
        have hbehind : c'.Alike d' := hinside.2
        have hpieces := hbehind.pieces
        simp only
        generalize c'.pieces = pieces, d'.pieces = pieces' at hpieces
        cases hpieces with
        | nil => exact .none
        | @cons p q rest rest' hp hrest =>
          obtain ⟨layout, t⟩ := p
          obtain ⟨layout', t'⟩ := q
          obtain rfl : t = t' := hp.token
          cases t with
          | formatEnd => exact .some ⟨trivial, hbehind.pass hrest false⟩
          | _ => exact .none
    | _ => exact .none

theorem Matches.inBlock {column : Nat} {reader : Parser α} {reader' : Parser α'}
    (h : Matches R reader reader') :
    Matches R (Parser.inBlock column reader) (Parser.inBlock column reader') := by
  intro c d hc
  have hinside : { c with indents := column :: c.indents }.Alike
      { d with indents := column :: d.indents } :=
    ⟨hc.pieces, hc.index, congrArg (column :: ·) hc.indents, hc.formatting, hc.budget⟩
  have hfound := h hinside
  change Option.Rel _ ((reader.read _).map _) ((reader'.read _).map _)
  generalize reader.read _ = found, reader'.read _ = found' at hfound
  cases hfound with
  | none => exact .none
  | some h =>
    obtain ⟨ha, hbehind⟩ := h
    exact .some ⟨ha, hbehind.pieces, hbehind.index, congrArg List.tail hbehind.indents,
      hbehind.formatting, hbehind.budget⟩

/-- The rounds of two loops match, if each one keeps what relates them. -/
theorem Matches.loopRel {T : σ → σ' → Prop} {step : σ → Parser (σ ⊕ α)}
    {step' : σ' → Parser (σ' ⊕ α')} {s : σ} {s' : σ'} (hs : T s s')
    (h : ∀ s s', T s s' → Matches (Sum.LiftRel T R) (step s) (step' s')) :
    Matches R (Parser.loop step s) (Parser.loop step' s') := by
  have hrounds : ∀ n s s', T s s' → Matches R (iterate step n s) (iterate step' n s') := by
    intro n
    induction n with
    | zero => exact fun _ _ _ => matches_failure
    | succ n ih =>
      intro s s' hs
      refine (h s s' hs).bindRel fun r r' hr => ?_
      cases hr with
      | inl hs => exact ih _ _ hs
      | inr ha => exact matches_pure ha
  have hbudget : Blind (ask fun c => some c.budget) :=
    blind_ask fun _ _ hc => congrArg some hc.budget
  exact hbudget.bind fun n => hrounds n s s' hs

/-- A loop that has nothing in hand between its rounds, or the same. -/
theorem Matches.loop {step : σ → Parser (σ ⊕ α)} {step' : σ → Parser (σ ⊕ α')} {s : σ}
    (h : ∀ s, Matches (Sum.LiftRel Eq R) (step s) (step' s)) :
    Matches R (Parser.loop step s) (Parser.loop step' s) := by
  refine .loopRel (rfl : s = s) fun s s' hs => ?_
  subst hs
  exact h s

end Parser

end SourceSurvey.Syntax
