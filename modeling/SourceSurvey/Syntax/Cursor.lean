import SourceSurvey.Syntax.Lexeme

/-!
A cursor over the tokens of a source, with the indentation of the blocks that enclose it. Line ends,
indents and dedents are no tokens: whether one stands before the next token depends on what the
grammar can accept there, so the reader of a token says what it expects.
-/

namespace SourceSurvey.Syntax

/-- A token with the layout before it. -/
structure Piece where
  layout : Layout
  token : Token

/-- The piece of a lexeme. A literal behind a blank without width is not recognised. -/
def Piece.ofLexeme (l : Lexeme) : Piece :=
  match l.token with
  | .finish => ⟨Layout.atEnd l.gap, .finish⟩
  | t =>
    let layout := Layout.ofGap l.gap
    ⟨layout, if layout.masked && t.startsLiteral then .invalid else t⟩

/-- Whether a joined line before a piece stays there on its own. A literal takes the joined lines before
    it for blanks, unless a blank without width or a vertical tab stands among them. -/
def Piece.splices (p : Piece) : Bool :=
  p.layout.spliced && (!p.token.startsLiteral || p.layout.blocked)

/-- The pieces of a source. A byte order mark at its very start is no text. -/
def Piece.ofLexemes : List Lexeme → List Piece
  | [] => []
  | first :: rest =>
    let gap := match first.gap with
      | '\ufeff' :: gap => gap
      | gap => gap
    (Piece.ofLexeme { first with gap := gap }) :: rest.map Piece.ofLexeme

/-- What the grammar accepts at some point besides a token. -/
structure Expected where
  /-- The end of a logical line. -/
  lineEnd : Bool := false
  /-- The indent that opens a block. -/
  indent : Bool := false
  /-- The dedent that closes a block. -/
  dedent : Bool := false
  /-- A handler of a `try`. -/
  handler : Bool := false
  /-- A string literal. -/
  literal : Bool := false
  /-- A closing bracket. -/
  closer : Bool := false

/-- Where layout matters, comments on lines of their own are part of it. -/
def Expected.layout (e : Expected) : Bool := e.lineEnd || e.indent || e.dedent || e.handler

/-- Only a token. -/
def Expected.token : Expected := {}

/-- A token, which may begin an operand. -/
def Expected.operand : Expected := { literal := true }

/-- A reading position. -/
structure Cursor where
  pieces : List Piece
  /-- Number of pieces passed. -/
  index : Nat
  /-- Columns of the enclosing blocks, innermost first. -/
  indents : List Nat
  /-- A literal with interpolations was opened last, and none has ended since. -/
  formatting : Bool
  /-- A comment behind a joined line was passed since the last token. -/
  seam : Bool
  /-- An upper bound for the number of rounds of any loop: the number of all pieces. -/
  budget : Nat

/-- The cursor before a source. -/
def Cursor.start (pieces : List Piece) : Cursor :=
  { pieces := pieces, index := 0, indents := [], formatting := false, seam := false
    budget := pieces.length + 1 }

/-- The column of the innermost block. -/
def Cursor.column (c : Cursor) : Nat := c.indents.headD 0

/-- The layout found by reading ahead over line ends. -/
structure Margin where
  breaks : Bool
  column : Nat
  /-- Column of the first comment on a line of its own. -/
  comment : Option Nat
  /-- The text ahead begins with a quotation mark. -/
  quote : Bool

/-- Reads ahead to the next token, over comments too where `comments` is set. There is nothing to
    find when a comment stands first on the same line. -/
def Margin.ahead (comments : Bool) (first : Option Nat) : List Piece → Option Margin
  | [] => none
  | p :: rest =>
    if p.layout.blocked then some ⟨p.layout.breaks, p.layout.column, first, false⟩
    else if comments && p.token = .comment then
      if p.layout.breaks then Margin.ahead comments (first <|> some p.layout.column) rest
      else none
    else some ⟨p.layout.breaks, p.layout.column, first, p.token = .string true⟩

/-- What stands at the cursor. -/
inductive Signal
  | lineEnd
  | indent (column : Nat)
  | dedent
  /-- A line that is indented less than its block, where no line may end. -/
  | stray
  | token

/-- Decides what stands at the cursor. An indent comes before a dedent, and a dedent before a line
    end. A line that returns to the left ends the block unless it continues an open bracket that
    could close here, a literal could start with its first character, an interpolation is open, or a
    comment before it is still indented as the block is. -/
def Cursor.signal (e : Expected) (c : Cursor) : Signal :=
  match Margin.ahead e.layout none c.pieces with
  | none => .token
  | some m =>
    if !m.breaks then .token
    else if e.indent && c.column < m.column then .indent m.column
    else if m.column < c.column && !c.formatting && m.comment.all (· < c.column) &&
        (e.dedent || !(e.lineEnd || e.closer || e.literal && m.quote)) then
      if e.dedent then .dedent else .stray
    else if e.lineEnd then .lineEnd
    else .token

/-- Moves over comments until something else stands at the cursor. -/
def Cursor.settleOver (e : Expected) (c : Cursor) : List Piece → Signal × Cursor
  | [] => (.token, { c with pieces := [] })
  | p :: rest =>
    let here := { c with pieces := p :: rest }
    match here.signal e with
    | .token =>
      if p.token = .comment then
        Cursor.settleOver e
          { c with index := c.index + 1, seam := c.seam || p.splices } rest
      else (.token, here)
    | s => (s, here)

/-- Moves to the next token or layout mark that is expected. -/
def Cursor.settle (e : Expected) (c : Cursor) : Signal × Cursor := c.settleOver e c.pieces

/-- The cursor behind its first piece, when the others are left. -/
def Cursor.pass (rest : List Piece) (formatting : Bool) (c : Cursor) : Cursor :=
  { c with pieces := rest, index := c.index + 1, seam := false, formatting := formatting }

/-! ### What reading does to a cursor -/

namespace Cursor

/-- Some pieces are passed on the way from one cursor to another in the same blocks. -/
structure Passes (passed : List Piece) (c d : Cursor) : Prop where
  pieces : c.pieces = passed ++ d.pieces
  index : d.index = c.index + passed.length
  indents : d.indents = c.indents
  budget : d.budget = c.budget

theorem Passes.refl (c : Cursor) : Passes [] c c := ⟨rfl, rfl, rfl, rfl⟩

theorem Passes.trans {first second : List Piece} {c d e : Cursor} (h : Passes first c d)
    (h' : Passes second d e) : Passes (first ++ second) c e where
  pieces := by rw [h.pieces, h'.pieces, List.append_assoc]
  index := by rw [h'.index, h.index, List.length_append, Nat.add_assoc]
  indents := h'.indents.trans h.indents
  budget := h'.budget.trans h.budget

theorem passes_pass {c : Cursor} {p : Piece} {rest : List Piece} (h : c.pieces = p :: rest)
    (formatting : Bool) : Passes [p] c (c.pass rest formatting) := ⟨h, rfl, rfl, rfl⟩

/-- One cursor is reached from another by reading: only pieces that are text of the grammar were
    passed, and no literal is left open that was not open before. -/
structure Reaches (c d : Cursor) : Prop where
  passes : ∃ passed, Passes passed c d ∧ ∀ p ∈ passed, p.token ≠ .invalid
  closed : c.formatting = false → d.formatting = false

theorem Reaches.refl (c : Cursor) : c.Reaches c := ⟨⟨[], .refl c, List.forall_mem_nil _⟩, id⟩

theorem Reaches.trans {c d e : Cursor} (h : c.Reaches d) (h' : d.Reaches e) : c.Reaches e := by
  obtain ⟨first, hfirst, hvalid⟩ := h.passes
  obtain ⟨second, hsecond, hvalid'⟩ := h'.passes
  exact ⟨⟨first ++ second, hfirst.trans hsecond, List.forall_mem_append.mpr ⟨hvalid, hvalid'⟩⟩,
    fun hclosed => h'.closed (h.closed hclosed)⟩

theorem Reaches.indents {c d : Cursor} (h : c.Reaches d) : d.indents = c.indents :=
  let ⟨_, hpasses, _⟩ := h.passes
  hpasses.indents

/-- Settling passes nothing but comments. -/
structure Skips (c d : Cursor) : Prop where
  passes : ∃ passed, Passes passed c d ∧ ∀ p ∈ passed, p.token = .comment
  formatting : d.formatting = c.formatting

theorem Skips.reaches {c d : Cursor} (h : c.Skips d) : c.Reaches d := by
  obtain ⟨passed, hpasses, hcomment⟩ := h.passes
  refine ⟨⟨passed, hpasses, fun p hp => ?_⟩, fun hclosed => h.formatting.trans hclosed⟩
  rw [hcomment p hp]
  exact nofun

theorem skips_settleOver (e : Expected) : ∀ (pieces : List Piece) (c : Cursor),
    { c with pieces }.Skips (c.settleOver e pieces).2
  | [], c => ⟨⟨[], .refl _, List.forall_mem_nil _⟩, rfl⟩
  | p :: rest, c => by
    have hstay : { c with pieces := p :: rest }.Skips { c with pieces := p :: rest } :=
      ⟨⟨[], .refl _, List.forall_mem_nil _⟩, rfl⟩
    rw [settleOver]
    split
    · split
      · next hcomment =>
        have hrest := skips_settleOver e rest
          { c with index := c.index + 1, seam := c.seam || p.splices }
        obtain ⟨passed, hpasses, hall⟩ := hrest.passes
        refine ⟨⟨p :: passed, ⟨?_, ?_, hpasses.indents, hpasses.budget⟩, ?_⟩, hrest.formatting⟩
        · exact congrArg (p :: ·) hpasses.pieces
        · rw [hpasses.index, List.length_cons]
          simp only
          omega
        · exact List.forall_mem_cons.mpr ⟨hcomment, hall⟩
      · exact hstay
    · exact hstay

theorem skips_settle (e : Expected) (c : Cursor) : c.Skips (c.settle e).2 :=
  skips_settleOver e c.pieces c

end Cursor

end SourceSurvey.Syntax
