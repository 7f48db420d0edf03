import SourceSurvey.Proofs.Syntax.Line

/-!
Reading a block: rounds over its lines, each of which finds a statement, up to a line that is
indented less.
-/

namespace SourceSurvey.Syntax

/-- Something comes next that begins a line and is not indented further than some column. -/
def Resumes (column : Nat) (pieces : List Piece) : Prop :=
  ∃ p rest actual, pieces = p :: rest ∧ actual ≤ column ∧ p.StartsLine actual

theorem Resumes.mono {column deeper : Nat} {pieces : List Piece} (h : Resumes column pieces)
    (hle : column ≤ deeper) : Resumes deeper pieces := by
  obtain ⟨p, rest, actual, hpieces, hactual, hp⟩ := h
  exact ⟨p, rest, actual, hpieces, Nat.le_trans hactual hle, hp⟩

theorem Piece.StartsLine.resumes {column : Nat} {p : Piece} (hp : p.StartsLine column)
    (rest : List Piece) : Resumes column (p :: rest) :=
  ⟨p, rest, column, rfl, Nat.le_refl column, hp⟩

/-- The first of some pieces, if there is one, begins a line at some column. -/
def Aligned (column : Nat) (pieces : List Piece) : Prop :=
  ∀ p ∈ pieces.head?, p.StartsLine column

theorem aligned_nil (column : Nat) : Aligned column [] := by
  intro p hp
  cases hp

theorem aligned_cons {column : Nat} {p : Piece} (hp : p.StartsLine column) (rest : List Piece) :
    Aligned column (p :: rest) := by
  intro q hq
  obtain rfl : p = q := by simpa using hq
  exact hp

theorem Aligned.append {column : Nat} {first second : List Piece} (hfirst : Aligned column first)
    (hsecond : Aligned column second) : Aligned column (first ++ second) := by
  cases first with
  | nil => exact hsecond
  | cons p rest => exact aligned_cons (hfirst p rfl) _

theorem Aligned.resumes {column : Nat} {first more : List Piece} (hfirst : Aligned column first)
    (hmore : Resumes column more) : Resumes column (first ++ more) := by
  cases first with
  | nil => exact hmore
  | cons p rest => exact (hfirst p rfl).resumes _

namespace Parser

variable {rules : Rules} {statement : Parser (List Statement)} {column index budget : Nat}
  {indents : List Nat} {more : List Piece}

/-- In a block at some column, rounds over some pieces find some statements, one in each round. -/
def Rounds (statement : Parser (List Statement)) (column index : Nat) (indents : List Nat)
    (budget : Nat) (pieces : List Piece) (statements : List Statement) : Prop :=
  ∀ ⦃more n before found after⦄, Resumes column more →
    Gives (iterate (blockStep statement) n ((statements.map ([·])).reverse ++ before))
      (.before more (index + pieces.length) indents budget) found after →
    Gives (iterate (blockStep statement) (statements.length + n) before)
      (.before (pieces ++ more) index indents budget) found after

theorem rounds_nil : Rounds statement column index indents budget [] [] := by
  intro more n before found after _ hafter
  rw [List.length_nil, Nat.zero_add]
  exact hafter

theorem Rounds.append {first second : List Piece} {early late : List Statement}
    (hfirst : Rounds statement column index indents budget first early)
    (hsecond : Rounds statement column (index + first.length) indents budget second late)
    (haligned : Aligned column second) :
    Rounds statement column index indents budget (first ++ second) (early ++ late) := by
  intro more n before found after hmore hafter
  have hlate : Gives
      (iterate (blockStep statement) (late.length + n) ((early.map ([·])).reverse ++ before))
      (.before (second ++ more) (index + first.length) indents budget) found after := by
    refine hsecond hmore ?_
    rw [Nat.add_assoc, ← List.length_append, ← List.append_assoc, ← List.reverse_append,
      ← List.map_append]
    exact hafter
  rw [List.length_append, Nat.add_assoc, List.append_assoc]
  exact hfirst (haligned.resumes hmore) hlate

/-- A round reads a statement that begins a line at the column of the block. -/
theorem rounds_single {pieces : List Piece} {found : Statement}
    (hindents : indents.headD 0 = column) (haligned : Aligned column pieces) (hne : pieces ≠ [])
    (hstatement : ∀ more, Resumes column more →
      Gives statement (.before (pieces ++ more) index indents budget) [found]
        (.before more (index + pieces.length) indents budget)) :
    Rounds statement column index indents budget pieces [found] := by
  intro more n before all after hmore hafter
  obtain ⟨p, rest, rfl⟩ := List.exists_cons_of_ne_nil hne
  rw [List.length_singleton, Nat.add_comm]
  refine Gives.iterate_more ?_ hafter
  refine Gives.bind (gives_look_startsLine (haligned p rfl) rfl rfl hindents) ?_
  exact Gives.bind (hstatement more hmore) (gives_pure _ _)

/-- A block ends in front of a line that is indented less. -/
theorem gives_blockStep_dedent {before : List (List Statement)} {found : List Statement}
    {inner : Nat} (hinner : column < inner) (hmore : Resumes column more)
    (hfound : before.reverse.flatten = found) :
    Gives (blockStep statement before) (.before more index (inner :: indents) budget)
      (.inr found) (.before more index (inner :: indents) budget) := by
  subst hfound
  obtain ⟨p, rest, actual, rfl, hactual, hp⟩ := hmore
  have hless : actual < (inner :: indents).headD 0 := Nat.lt_of_le_of_lt hactual hinner
  exact Gives.bind (gives_look_dedent hp rfl rfl hless) (gives_pure _ _)

/-- A body on lines of its own is read in rounds, and a last round ends it. -/
theorem gives_suite {pieces : List Piece} {statements : List Statement} {inner : Nat}
    (hinner : indents.headD 0 < inner)
    (hrounds : Rounds statement inner index (inner :: indents) budget pieces statements)
    (haligned : Aligned inner pieces) (hne : pieces ≠ [])
    (hbudget : statements.length < budget) (hmore : Resumes (indents.headD 0) more) :
    Gives (suite rules statement) (.before (pieces ++ more) index indents budget) statements
      (.before more (index + pieces.length) indents budget) := by
  obtain ⟨p, rest, rfl⟩ := List.exists_cons_of_ne_nil hne
  obtain ⟨n, hn⟩ := Nat.exists_eq_add_of_lt hbudget
  refine Gives.bind (gives_look_indent (haligned p rfl) rfl hinner) ?_
  refine Gives.inBlock (Gives.loop ?_)
  have hvalue : ((statements.map ([·])).reverse ++ []).reverse.flatten = statements := by
    rw [List.append_nil, List.reverse_reverse, ← List.flatMap_def, List.flatMap_singleton']
  have hlast : Gives
      (iterate (blockStep statement) (n + 1) ((statements.map ([·])).reverse ++ []))
      (.before more (index + (p :: rest).length) (inner :: indents) budget) statements
      (.before more (index + (p :: rest).length) (inner :: indents) budget) :=
    (gives_blockStep_dedent hinner hmore hvalue).iterate_done n
  have hall := hrounds (hmore.mono (Nat.le_of_lt hinner)) hlast
  rw [← Nat.add_assoc, ← hn] at hall
  exact hall

theorem gives_colonSuite {layout : Layout} {c : Cursor} {body : List Statement}
    (hcolon : Piece.InLine ⟨layout, .symbol .colon⟩)
    (hsuite : Gives (suite rules statement) (.before more (index + 1) indents budget) body c) :
    Gives (colonSuite rules statement)
      (.before (⟨layout, .symbol .colon⟩ :: more) index indents budget) body c :=
  Gives.bind (gives_expect hcolon .token) hsuite

/-- A source goes on behind a statement. -/
theorem readAll_of_gives {c c' : Cursor} {t : Token} {found : List Statement} (ht : t ≠ .finish)
    (hlook : Gives (look .operand) c (.token t) c) (hstatement : Gives statement c found c')
    (rounds : Nat) :
    Module.readAll statement (rounds + 1) c =
      (Module.readAll statement rounds c').map (found :: ·) := by
  have hfound : statement.read c = some (found, c') := hstatement
  rw [Module.readAll, hlook]
  simp only [hfound]

/-- A source ends where nothing else comes. -/
theorem readAll_of_gives_finish {c : Cursor} (hlook : Gives (look .operand) c (.token .finish) c)
    (rounds : Nat) : Module.readAll statement (rounds + 1) c = .ok [] := by
  rw [Module.readAll, hlook]

end Parser

theorem exists_ofPieces_eq (pieces : List Piece) :
    ∃ spliced, Module.ofPieces pieces =
      (Module.readAll (statementUpTo (Rules.upTo (pieces.length + 1)) (pieces.length + 1))
        (pieces.length + 1) (.before pieces 0 [] (pieces.length + 1))).map
          fun found => ⟨spliced, found.flatten⟩ :=
  ⟨_, rfl⟩

end SourceSurvey.Syntax
