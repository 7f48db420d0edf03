import SourceSurvey.Proofs.Blocks.Extents
import SourceSurvey.Proofs.Syntax.Progress
import SourceSurvey.Proofs.Syntax.RuleParts

/-!
A statement within a line begins at the cursor that it is read from, one of the older edition with
its keyword, and contains no definition. It is an expression only if it was read as one.
-/

namespace SourceSurvey.Syntax

open SourceSurvey.Syntax.Parser

/-- A statement without a body that begins at some token. -/
structure Statement.Bare (start : Nat) (s : Statement) : Prop where
  starts : startsOf [s] = [start]
  extents : s.extents = []

/-- A statement without a body that begins at a cursor. One of the older edition begins with its
    keyword. -/
inductive Statement.Single (c : Cursor) : Statement → Prop
  | expression (shape : Shape) : Statement.Single c (.expression c.index shape)
  | importing (what : Import) : Statement.Single c (.importing c.index what)
  | legacy {keyword : Legacy}
    (hword : c.pieces.head?.map Piece.token = some (.word keyword.spelling.toList)) :
    Statement.Single c (.legacy c.index keyword)
  | plain : Statement.Single c (.plain c.index)

/-- A statement that begins with a word of its own, and is no expression. -/
inductive Statement.Keyword (c : Cursor) : Statement → Prop
  | importing (what : Import) : Statement.Keyword c (.importing c.index what)
  | legacy {keyword : Legacy}
    (hword : c.pieces.head?.map Piece.token = some (.word keyword.spelling.toList)) :
    Statement.Keyword c (.legacy c.index keyword)
  | plain : Statement.Keyword c (.plain c.index)

theorem Statement.Keyword.single {c : Cursor} {s : Statement} (h : s.Keyword c) : s.Single c := by
  cases h with
  | importing what => exact .importing what
  | legacy hword => exact .legacy hword
  | plain => exact .plain

theorem Statement.Single.bare {c : Cursor} {s : Statement} (h : s.Single c) : s.Bare c.index := by
  cases h <;> exact ⟨rfl, rfl⟩

namespace Parser

variable {α β : Type}

/-- Whatever a reader gives has some property. -/
def Yields (p : α → Prop) (reader : Parser α) : Prop := ∀ ⦃c a d⦄, Gives reader c a d → p a

variable {p : α → Prop}

theorem yields_pure {a : α} (h : p a) : Yields p (pure a) := by
  intro c b d hread
  obtain ⟨rfl, -⟩ := gives_pure_iff.mp hread
  exact h

theorem yields_bind (reader : Parser β) {f : β → Parser α} (h : ∀ b, Yields p (f b)) :
    Yields p (reader >>= f) := by
  intro c a d hread
  obtain ⟨b, c', -, hrest⟩ := gives_bind_iff.mp hread
  exact h b hrest

theorem Yields.ite {q : Prop} [Decidable q] {first second : Parser α} (hfirst : Yields p first)
    (hsecond : Yields p second) : Yields p (if q then first else second) := by
  split
  · exact hfirst
  · exact hsecond

end Parser

variable {rules : Rules} {c d : Cursor} {s : Statement}

/-! ### Expressions -/

theorem single_of_expressionStatement (h : Gives (expressionStatement rules) c s d) :
    s.Single c := by
  have hplain : Yields (Statement.Single c) (pure (.plain c.index)) := yields_pure .plain
  replace h := gives_position_bind_iff.mp h
  refine (?_ : Yields (Statement.Single c) _) h
  refine yields_bind _ fun t => .ite (yields_bind _ fun _ => hplain) ?_
  refine yields_bind _ fun shapes => yields_bind _ fun assigned => ?_
  split
  · refine yields_pure ?_
    split
    · exact .plain
    · exact .expression _
  · exact hplain

theorem exists_look_of_atStatementEnd {u : Unit} (h : Gives atStatementEnd c u d) :
    ∃ l, Gives (look .lineEnding) c l d := by
  obtain ⟨l, d', hlook, h⟩ := gives_bind_iff.mp h
  refine ⟨l, ?_⟩
  split at h
  · obtain ⟨-, rfl⟩ := gives_pure_iff.mp h
    exact hlook
  · obtain ⟨-, rfl⟩ := gives_guard_iff.mp h
    exact hlook
  · exact absurd h not_gives_failure

/-- What is read as an expression by itself, and up to where. -/
def ReadsExpression (rules : Rules) (c : Cursor) (s : Statement) (d : Cursor) : Prop :=
  ∃ d₁, Gives (expressionStatement rules) c s d₁ ∧
    (d₁ = d ∨ ∃ l, Gives (look .lineEnding) d₁ l d)

theorem readsExpression_of_gives (h : Gives (expressionStatement rules) c s d) :
    ReadsExpression rules c s d := ⟨d, h, .inl rfl⟩

/-- Whatever a reader gives at a cursor is read as an expression by itself, or begins with a word of
    its own. -/
def SimpleAt (rules : Rules) (c : Cursor) (reader : Parser Statement) : Prop :=
  ∀ ⦃s d⦄, Gives reader c s d → ReadsExpression rules c s d ∨ s.Keyword c

theorem Parser.Yields.simpleAt {reader : Parser Statement}
    (h : Yields (Statement.Keyword c) reader) : SimpleAt rules c reader :=
  fun _ _ hread => .inr (h hread)

theorem SimpleAt.ite {q : Prop} [Decidable q] {first second : Parser Statement}
    (hfirst : q → SimpleAt rules c first) (hsecond : SimpleAt rules c second) :
    SimpleAt rules c (if q then first else second) := by
  split
  · next hq => exact hfirst hq
  · exact hsecond

theorem simpleAt_position {f : Nat → Parser Statement} (h : SimpleAt rules c (f c.index)) :
    SimpleAt rules c (position >>= f) := fun _ _ hread => h (gives_position_bind_iff.mp hread)

/-- A reader that first asks for something. -/
theorem simpleAt_ask {α : Type} {g : Cursor → Option α} {f : α → Parser Statement}
    (h : ∀ a, g c = some a → SimpleAt rules c (f a)) : SimpleAt rules c (ask g >>= f) := by
  intro s d hread
  obtain ⟨a, c', hask, hrest⟩ := gives_bind_iff.mp hread
  obtain ⟨hfound, rfl⟩ := gives_ask_iff.mp hask
  exact h a hfound hrest

theorem simpleAt_expressionStatement : SimpleAt rules c (expressionStatement rules) :=
  fun _ _ h => .inl (readsExpression_of_gives h)

theorem simpleAt_expressionOr {other : Parser Statement} (hother : SimpleAt rules c other) :
    SimpleAt rules c (expressionOr rules other) := by
  intro s d h
  obtain hwhole | h := h.of_orElse
  · obtain ⟨s', d₁, hexpression, hwhole⟩ := gives_bind_iff.mp hwhole
    obtain ⟨u, d₂, hend, hwhole⟩ := gives_bind_iff.mp hwhole
    obtain ⟨rfl, rfl⟩ := gives_pure_iff.mp hwhole
    exact .inl ⟨d₁, hexpression, .inr (exists_look_of_atStatementEnd hend)⟩
  · exact hother h

/-! ### Words -/

theorem simpleAt_printStatement
    (hword : c.pieces.head?.map Piece.token = some (.word Keyword.print_)) :
    SimpleAt rules c (printStatement rules) := by
  have hend : Yields (Statement.Keyword c) (do
      discard <| lineExpressions rules neverStop
      return Statement.legacy c.index .print) := yields_bind _ fun _ => yields_pure (.legacy hword)
  refine simpleAt_position (Yields.simpleAt (yields_bind _ fun t => ?_))
  exact .ite (yields_bind _ fun _ => hend) hend

theorem yields_execEnd (hword : c.pieces.head?.map Piece.token = some (.word Keyword.exec_)) :
    Yields (Statement.Keyword c) (execEnd rules c.index) := by
  have hlast : Yields (Statement.Keyword c) (pure (.legacy c.index .exec)) :=
    yields_pure (.legacy hword)
  refine yields_bind _ fun found => ?_
  split
  · exact .ite (yields_bind _ fun _ => yields_bind _ fun _ => hlast) hlast
  · exact hlast

theorem simpleAt_execStatement
    (hword : c.pieces.head?.map Piece.token = some (.word Keyword.exec_)) :
    SimpleAt rules c (execStatement rules) := by
  have hend : Yields (Statement.Keyword c) (execEnd rules c.index) := yields_execEnd hword
  refine simpleAt_position (Yields.simpleAt (yields_bind _ fun t => ?_))
  split
  · exact yields_bind _ fun _ => yields_bind _ fun _ => hend
  · exact yields_bind _ fun _ => hend
  · exact yields_bind _ fun _ => hend
  · exact yields_bind _ fun _ => hend

theorem simpleAt_aliasStatement : SimpleAt rules c (aliasStatement rules) := by
  refine simpleAt_position (Yields.simpleAt (yields_bind _ fun _ => yields_bind _ fun _ => ?_))
  refine yields_bind _ fun _ => yields_bind _ fun _ => yields_bind _ fun _ => ?_
  exact yields_pure .plain

theorem simpleAt_importFromStatement : SimpleAt rules c importFromStatement := by
  have himport : ∀ what, Yields (Statement.Keyword c) (pure (.importing c.index what)) :=
    fun what => yields_pure (.importing what)
  refine simpleAt_position (Yields.simpleAt ?_)
  refine yields_bind _ fun origin => yields_bind _ fun _ => ?_
  refine yields_bind _ fun t => .ite ?_ ?_
  · exact yields_bind _ fun _ => himport _
  · exact yields_bind _ fun _ => himport _

/-- A statement of one line is read as an expression by itself, or it begins with a word of its
    own. -/
theorem simpleStatement_cases (h : Gives (simpleStatement rules) c s d) :
    ReadsExpression rules c s d ∨
      s.Keyword c ∧ ∃ w, c.pieces.head?.map Piece.token = some (.word w) := by
  have hplain : Yields (Statement.Keyword c) (pure (.plain c.index)) := yields_pure .plain
  have hthen : ∀ reader : Parser Unit, SimpleAt rules c (do reader; return .plain c.index) :=
    fun reader => (yields_bind reader fun _ => hplain).simpleAt
  replace h := gives_position_bind_iff.mp h
  obtain ⟨t, c', hask, h⟩ := gives_bind_iff.mp h
  obtain ⟨hhead, rfl⟩ := gives_head_iff.mp hask
  split at h
  · next w =>
    refine Or.imp_right (fun hs => ⟨hs, w, hhead⟩) ((?_ : SimpleAt rules c _) h)
    refine .ite (fun _ => ?_) (.ite (fun _ => simpleAt_importFromStatement)
      (.ite (fun _ => hthen _) (.ite (fun _ => ?_) (.ite (fun _ => hthen _) ?_))))
    · refine Yields.simpleAt (yields_bind _ fun _ => yields_bind _ fun _ => ?_)
      exact yields_pure (.importing _)
    · refine Yields.simpleAt (yields_bind _ fun found => ?_)
      split
      · exact .ite (yields_bind _ fun _ => hplain) hplain
      · exact hplain
    · refine .ite (fun _ => ?_) (.ite (fun _ => hthen _) (.ite (fun _ => ?_)
        (.ite (fun hprint => ?_) (.ite (fun hexec => ?_) (.ite (fun _ => ?_) ?_)))))
      · exact Yields.simpleAt (yields_bind _ fun _ => yields_bind _ fun _ => hplain)
      · exact Yields.simpleAt (yields_bind _ fun _ => yields_bind _ fun _ => hplain)
      · rw [hprint] at hhead
        refine simpleAt_ask fun found _ => ?_
        split
        · exact simpleAt_printStatement hhead
        · exact simpleAt_expressionOr (simpleAt_printStatement hhead)
      · rw [hexec] at hhead
        exact simpleAt_expressionOr (simpleAt_execStatement hhead)
      · exact simpleAt_expressionOr simpleAt_aliasStatement
      · exact simpleAt_expressionStatement
  · exact .inl (readsExpression_of_gives h)

theorem single_of_simpleStatement (h : Gives (simpleStatement rules) c s d) : s.Single c := by
  obtain ⟨d₁, h, -⟩ | ⟨h, -⟩ := simpleStatement_cases h
  · exact single_of_expressionStatement h
  · exact h.single

end SourceSurvey.Syntax
