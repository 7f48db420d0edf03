import SourceSurvey.Syntax.Parser

/-!
Steps of the grammar's readers on pieces whose layout is simple: inside a line, or at the start of a
line with a known column. Line ends, indents and dedents are then where the columns put them.
-/

namespace SourceSurvey.Syntax

/-- A piece that is neither hidden by a blank without width, nor a comment, nor the start of a
    literal with interpolations, nor no token at all. -/
structure Piece.Plain (p : Piece) : Prop where
  visible : p.layout.blocked = false
  noComment : p.token ≠ .comment
  passes : Parser.passes p.token = true

/-- A plain piece that does not begin a line. -/
structure Piece.InLine (p : Piece) : Prop extends p.Plain where
  breaks : p.layout.breaks = false

/-- A plain piece that begins a line at the given column. -/
structure Piece.StartsLine (column : Nat) (p : Piece) : Prop extends p.Plain where
  breaks : p.layout.breaks = true
  column : p.layout.column = column

/-- A cursor with nothing open but blocks, where no comment was passed. -/
def Cursor.before (pieces : List Piece) (index : Nat) (indents : List Nat) (budget : Nat) :
    Cursor where
  pieces := pieces
  index := index
  indents := indents
  formatting := false
  seam := false
  budget := budget

namespace Parser

variable {α β σ : Type} {c c' c'' : Cursor} {p q : Piece} {rest : List Piece} {e : Expected}
  {indents : List Nat} {index budget column : Nat}

/-- A reader gives a value and leaves a cursor behind. -/
def Gives (reader : Parser α) (c : Cursor) (a : α) (c' : Cursor) : Prop :=
  reader.read c = some (a, c')

theorem gives_pure (a : α) (c : Cursor) : Gives (pure a) c a c := rfl

theorem gives_ask {f : Cursor → Option α} {a : α} (h : f c = some a) : Gives (ask f) c a c := by
  show (f c).map (·, c) = some (a, c)
  rw [h]
  rfl

theorem gives_position (c : Cursor) : Gives position c c.index c := rfl

theorem Gives.bind {reader : Parser α} {f : α → Parser β} {a : α} {b : β}
    (h : Gives reader c a c') (hf : Gives (f a) c' b c'') : Gives (reader >>= f) c b c'' := by
  show (reader.read c).bind (fun found => (f found.1).read found.2) = some (b, c'')
  rw [h]
  exact hf

theorem Gives.map {reader : Parser α} {a : α} (h : Gives reader c a c') (f : α → β) :
    Gives (f <$> reader) c (f a) c' := by
  show (reader.read c).bind (fun found => some (f found.1, found.2)) = some (f a, c')
  rw [h]
  rfl

theorem Gives.discard {reader : Parser α} {a : α} (h : Gives reader c a c') :
    Gives (discard reader) c () c' :=
  h.map fun _ => ()

/-- A round that ends a loop. -/
theorem Gives.iterate_done {step : σ → Parser (σ ⊕ α)} {s : σ} {a : α}
    (h : Gives (step s) c (.inr a) c') (n : Nat) : Gives (iterate step (n + 1) s) c a c' :=
  Gives.bind h (gives_pure a c')

/-- A round after which a loop goes on. -/
theorem Gives.iterate_more {step : σ → Parser (σ ⊕ α)} {s s' : σ} {a : α} {n : Nat}
    (h : Gives (step s) c (.inl s') c') (hrest : Gives (iterate step n s') c' a c'') :
    Gives (iterate step (n + 1) s) c a c'' :=
  Gives.bind h hrest

theorem Gives.loop {step : σ → Parser (σ ⊕ α)} {s : σ} {a : α}
    (h : Gives (iterate step c.budget s) c a c') : Gives (loop step s) c a c' :=
  Gives.bind (gives_ask rfl) h

/-- A loop whose first round ends it. -/
theorem Gives.loop_once {step : σ → Parser (σ ⊕ α)} {s : σ} {a : α} (hbudget : c.budget ≠ 0)
    (h : Gives (step s) c (.inr a) c') : Gives (Parser.loop step s) c a c' := by
  obtain ⟨n, hn⟩ := Nat.exists_eq_succ_of_ne_zero hbudget
  exact Gives.loop (hn ▸ h.iterate_done n)

theorem read_look (e : Expected) (c : Cursor) : (look e).read c = Look.ofSettled (c.settle e) := rfl

theorem ahead_of_plain (hp : p.Plain) (comments : Bool) (rest : List Piece) :
    Margin.ahead comments none (p :: rest) =
      some ⟨p.layout.breaks, p.layout.column, none, p.token = .string true⟩ := by
  rw [Margin.ahead, hp.visible, if_neg (by simp), if_neg (by simp [hp.noComment])]

/-- What stands at a cursor that need not pass any comment. -/
theorem settle_before (hp : p.Plain) {signal : Signal}
    (hsignal : (Cursor.before (p :: rest) index indents budget).signal e = signal) :
    (Cursor.before (p :: rest) index indents budget).settle e =
      (signal, Cursor.before (p :: rest) index indents budget) := by
  show Cursor.settleOver e _ (p :: rest) = _
  rw [Cursor.settleOver]
  have hhere : { Cursor.before (p :: rest) index indents budget with pieces := p :: rest } =
      Cursor.before (p :: rest) index indents budget := rfl
  simp only [hhere, hsignal]
  cases signal with
  | token => simp only [hp.noComment, if_false]
  | lineEnd => rfl
  | indent column => rfl
  | dedent => rfl
  | stray => rfl

/-- Inside a line there is nothing but the next token. -/
theorem gives_look_inLine (hp : p.InLine) (e : Expected) :
    Gives (look e) (.before (p :: rest) index indents budget) (.token p.token)
      (.before (p :: rest) index indents budget) := by
  have hsignal : (Cursor.before (p :: rest) index indents budget).signal e = .token := by
    have hahead := ahead_of_plain hp.toPlain e.layout rest
    rw [hp.breaks] at hahead
    rw [Cursor.signal, Cursor.before, hahead]
    rfl
  rw [Gives, read_look, settle_before hp.toPlain hsignal]
  rfl

/-- What stands at the start of a line depends on its column and that of the innermost block. -/
theorem signal_startsLine (hp : p.StartsLine column) (e : Expected) :
    (Cursor.before (p :: rest) index indents budget).signal e =
      if e.indent = true ∧ indents.headD 0 < column then .indent column
      else if column < indents.headD 0 ∧ (e.dedent = true ∨
          e.lineEnd = false ∧ e.closer = false ∧
            (e.literal = false ∨ p.token ≠ .string true)) then
        if e.dedent then .dedent else .stray
      else if e.lineEnd then .lineEnd
      else .token := by
  have hahead := ahead_of_plain hp.toPlain e.layout rest
  rw [hp.breaks, hp.column] at hahead
  rw [Cursor.signal, Cursor.before, hahead]
  simp [Cursor.column, and_assoc]

/-- A line that is indented further than its block opens one where that is expected. -/
theorem gives_look_indent (hp : p.StartsLine column) (hindent : e.indent = true)
    (hcolumn : indents.headD 0 < column) :
    Gives (look e) (.before (p :: rest) index indents budget) (.indent column)
      (.before (p :: rest) index indents budget) := by
  have hsignal : (Cursor.before (p :: rest) index indents budget).signal e = .indent column := by
    rw [signal_startsLine hp, if_pos ⟨hindent, hcolumn⟩]
  rw [Gives, read_look, settle_before hp.toPlain hsignal]
  rfl

/-- A line that is indented less than its block closes it where that is expected. -/
theorem gives_look_dedent (hp : p.StartsLine column) (hindent : e.indent = false)
    (hdedent : e.dedent = true) (hcolumn : column < indents.headD 0) :
    Gives (look e) (.before (p :: rest) index indents budget) .dedent
      (.before (p :: rest) index indents budget) := by
  have hsignal : (Cursor.before (p :: rest) index indents budget).signal e = .dedent := by
    rw [signal_startsLine hp, if_neg (by simp [hindent]), if_pos ⟨hcolumn, .inl hdedent⟩,
      if_pos hdedent]
  rw [Gives, read_look, settle_before hp.toPlain hsignal]
  rfl

/-- Where a line may end, it ends before the next one, whatever column that has. -/
theorem gives_look_lineEnd (hp : p.StartsLine column) (hindent : e.indent = false)
    (hdedent : e.dedent = false) (hlineEnd : e.lineEnd = true) :
    Gives (look e) (.before (p :: rest) index indents budget) .lineEnd
      (.before (p :: rest) index indents budget) := by
  have hsignal : (Cursor.before (p :: rest) index indents budget).signal e = .lineEnd := by
    rw [signal_startsLine hp, if_neg (by simp [hindent]), if_neg (by simp [hdedent, hlineEnd]),
      if_pos hlineEnd]
  rw [Gives, read_look, settle_before hp.toPlain hsignal]
  rfl

/-- A line at the column of its block begins with its first token. -/
theorem gives_look_startsLine (hp : p.StartsLine column) (hindent : e.indent = false)
    (hlineEnd : e.lineEnd = false) (hcolumn : indents.headD 0 = column) :
    Gives (look e) (.before (p :: rest) index indents budget) (.token p.token)
      (.before (p :: rest) index indents budget) := by
  have hsignal : (Cursor.before (p :: rest) index indents budget).signal e = .token := by
    rw [signal_startsLine hp, if_neg (by simp [hindent]), if_neg (by omega),
      if_neg (by simp [hlineEnd])]
  rw [Gives, read_look, settle_before hp.toPlain hsignal]
  rfl

theorem gives_head (p : Piece) (rest : List Piece) :
    Gives head (.before (p :: rest) index indents budget) p.token
      (.before (p :: rest) index indents budget) := rfl

/-- Passing a plain token only moves the cursor on. -/
theorem gives_take (hp : p.Plain) :
    Gives take (.before (p :: rest) index indents budget) p.token
      (.before rest (index + 1) indents budget) := by
  show (if passes p.token then _ else none) = _
  rw [if_pos hp.passes]
  rfl

theorem gives_next (hp : p.InLine) (e : Expected) :
    Gives (next e) (.before (p :: rest) index indents budget) p.token
      (.before (p :: rest) index indents budget) :=
  Gives.bind (gives_look_inLine hp e) (gives_pure _ _)

theorem gives_advance (hp : p.Plain) (hq : q.InLine) (e : Expected) :
    Gives (advance e) (.before (p :: q :: rest) index indents budget) q.token
      (.before (q :: rest) (index + 1) indents budget) :=
  Gives.bind (gives_take hp).discard (gives_next hq e)

theorem gives_expect (hp : p.InLine) (e : Expected) :
    Gives (expect e p.token) (.before (p :: rest) index indents budget) ()
      (.before rest (index + 1) indents budget) := by
  refine Gives.bind (gives_next hp e) ?_
  rw [if_pos rfl]
  exact (gives_take hp.toPlain).discard

theorem gives_expectWord {layout : Layout} {w : Word} (hp : Piece.InLine ⟨layout, .word w⟩)
    (e : Expected) :
    Gives (expectWord e) (.before (⟨layout, .word w⟩ :: rest) index indents budget) w
      (.before rest (index + 1) indents budget) :=
  Gives.bind (gives_next hp e) (Gives.bind (gives_take hp.toPlain).discard (gives_pure _ _))

/-- What is read inside a block is read behind its indent, and the block is left in the end. -/
theorem Gives.inBlock {reader : Parser α} {a : α} {pieces more : List Piece} {index' : Nat}
    (h : Gives reader (.before pieces index (column :: indents) budget) a
      (.before more index' (column :: indents) budget)) :
    Gives (Parser.inBlock column reader) (.before pieces index indents budget) a
      (.before more index' indents budget) := by
  show (reader.read (.before pieces index (column :: indents) budget)).map _ = _
  rw [h]
  rfl

end Parser
end SourceSurvey.Syntax
