import Mathlib.Tactic.SplitIfs
import SourceSurvey.Proofs.Syntax.Inversion

/-!
What a reader sees of the lines ahead: which token comes next behind any comments, whether it begins
a line, and at which column.
-/

namespace SourceSurvey.Syntax

/-- Whether a piece begins a line. -/
def breaksAt (all : List Piece) (i : Nat) : Prop := ∃ p, all[i]? = some p ∧ p.layout.breaks = true

/-- The column of a piece. -/
def columnAt (all : List Piece) (i : Nat) : Nat := (all[i]?.map fun p => p.layout.column).getD 0

/-- No line begins with a blank that ends the measuring of its indentation. -/
def Measured (all : List Piece) : Prop :=
  ∀ p ∈ all, p.layout.breaks = true → p.layout.blocked = false

/-- The position of the next piece that is no comment. -/
def Cursor.ahead (c : Cursor) : Nat :=
  c.index + (c.pieces.takeWhile fun p => p.token = .comment).length

namespace Cursor

theorem index_le_ahead (c : Cursor) : c.index ≤ c.ahead := Nat.le_add_right _ _

theorem ahead_of_head {c : Cursor} {p : Piece} {rest : List Piece} (hpieces : c.pieces = p :: rest)
    (hp : p.token ≠ .comment) : c.ahead = c.index := by
  rw [ahead, hpieces, List.takeWhile_cons_of_neg (by simpa using hp)]
  rfl

/-- Passing comments leaves the same piece ahead. -/
theorem Skips.ahead {c d : Cursor} (h : c.Skips d) : d.ahead = c.ahead := by
  obtain ⟨passed, hpasses, hcomments⟩ := h.passes
  rw [Cursor.ahead, Cursor.ahead, hpasses.pieces, hpasses.index,
    List.takeWhile_append_of_pos (by simpa using hcomments), List.length_append, Nat.add_assoc]

/-- A cursor in a source, between phrases: no literal is open. -/
structure On (all : List Piece) (c : Cursor) : Prop where
  pieces : c.pieces = all.drop c.index
  closed : c.formatting = false

/-- A cursor at the first token of a statement or clause of the innermost block. -/
structure Starts (all : List Piece) (c : Cursor) : Prop extends c.On all where
  settled : c.ahead = c.index
  column : breaksAt all c.index → c.column ≤ columnAt all c.index

variable {all : List Piece} {c d : Cursor} {p : Piece} {rest : List Piece}

theorem On.of_reaches (h : c.On all) (hreaches : c.Reaches d) : d.On all := by
  obtain ⟨passed, hpasses, -⟩ := hreaches.passes
  refine ⟨?_, hreaches.closed h.closed⟩
  have hsplit := h.pieces
  rw [hpasses.pieces] at hsplit
  rw [hpasses.index, ← List.drop_drop, ← hsplit, List.drop_left]

theorem Reaches.column_eq (h : c.Reaches d) : d.column = c.column := by
  rw [column, column, h.indents]

theorem On.getElem? (h : c.On all) (before : List Piece) (hpieces : c.pieces = before ++ p :: rest) :
    all[c.index + before.length]? = some p := by
  rw [← List.getElem?_drop, ← h.pieces, hpieces, List.getElem?_append_right (Nat.le_refl _),
    Nat.sub_self]
  rfl

end Cursor

theorem columnAt_eq {all : List Piece} {i : Nat} {p : Piece} (h : all[i]? = some p) :
    columnAt all i = p.layout.column := by
  rw [columnAt, h]
  rfl

theorem breaksAt_iff {all : List Piece} {i : Nat} {p : Piece} (h : all[i]? = some p) :
    breaksAt all i ↔ p.layout.breaks = true := by
  simp [breaksAt, h]

/-- Where a line is found ahead, it begins with the next piece that is no comment. -/
theorem exists_of_ahead {pieces : List Piece} {first : Option Nat} {m : Margin}
    (hmeasured : Measured pieces) (h : Margin.ahead true first pieces = some m)
    (hbreaks : m.breaks = true) :
    ∃ before p rest, pieces = before ++ p :: rest ∧ (∀ q ∈ before, q.token = .comment) ∧
      p.token ≠ .comment ∧ p.layout.breaks = true ∧ p.layout.column = m.column := by
  induction pieces generalizing first with
  | nil => cases h
  | cons p rest ih =>
    rw [Margin.ahead] at h
    split at h
    · next hblocked =>
      cases h
      have hclear := hmeasured p List.mem_cons_self hbreaks
      rw [hclear] at hblocked
      cases hblocked
    · split at h
      · next hcomment =>
        split at h
        · obtain ⟨before, q, behind, hsplit, hbefore, hq⟩ :=
            ih (fun q hq => hmeasured q (List.mem_cons_of_mem p hq)) h
          have htoken : p.token = .comment := by simpa using hcomment
          refine ⟨p :: before, q, behind, congrArg (p :: ·) hsplit, ?_, hq⟩
          exact List.forall_mem_cons.mpr ⟨htoken, hbefore⟩
        · cases h
      · next hcomment =>
        cases h
        exact ⟨[], p, rest, rfl, List.forall_mem_nil _, by simpa using hcomment, hbreaks, rfl⟩

/-- Ahead of a token that is no comment there is nothing but the token. -/
theorem margin_of_head {p : Piece} (hp : p.token ≠ .comment) (comments : Bool) (rest : List Piece) :
    ∃ quote, Margin.ahead comments none (p :: rest) =
      some ⟨p.layout.breaks, p.layout.column, none, quote⟩ := by
  rw [Margin.ahead]
  split
  · exact ⟨_, rfl⟩
  · rw [if_neg (by simp [hp])]
    exact ⟨_, rfl⟩

namespace Cursor

/-- A reader settles where it finds what it gives, and a token only where no comment stands. -/
theorem signal_settleOver (e : Expected) (c : Cursor) (pieces : List Piece) :
    ((c.settleOver e pieces).1 = .token → ∀ p ∈ (c.settleOver e pieces).2.pieces.head?,
        p.token ≠ .comment) ∧
      (c.settleOver e pieces).2.signal e = (c.settleOver e pieces).1 := by
  induction pieces generalizing c with
  | nil => exact ⟨fun _ _ hp => (nomatch hp), rfl⟩
  | cons p rest ih =>
    rw [settleOver]
    split
    · next hsignal =>
      split
      · exact ih _
      · next hcomment =>
        refine ⟨fun _ q hq => ?_, hsignal⟩
        cases hq
        exact hcomment
    · next hsignal => exact ⟨fun h => absurd h hsignal, rfl⟩

end Cursor

namespace Parser

variable {all : List Piece} {c d : Cursor} {e : Expected}

theorem Gives.skips_of_look {l : Look} (h : Gives (look e) c l d) : c.Skips d := by
  rw [Look.eq_of_ofSettled h]
  exact c.skips_settle e

/-- What a reader finds stands where it has settled. -/
theorem Gives.signal_of_look {l : Look} (h : Gives (look e) c l d) :
    match l with
    | .lineEnd => d.signal e = .lineEnd
    | .indent column => d.signal e = .indent column
    | .dedent => d.signal e = .dedent
    | .token t => d.signal e = .token ∧
        ∃ p rest, d.pieces = p :: rest ∧ p.token = t ∧ p.token ≠ .comment := by
  have hsettled : Look.ofSettled (c.settle e) = some (l, d) := h
  obtain ⟨htoken, hsignal⟩ := Cursor.signal_settleOver e c c.pieces
  rw [← Cursor.settle] at htoken hsignal
  generalize c.settle e = settled at hsettled htoken hsignal
  obtain ⟨signal, d'⟩ := settled
  cases signal with
  | stray => cases hsettled
  | token =>
    obtain ⟨p, hp, heq⟩ := Option.map_eq_some_iff.mp hsettled
    cases heq
    obtain ⟨rest, hpieces⟩ := List.head?_eq_some_iff.mp hp
    exact ⟨hsignal, p, rest, hpieces, rfl, htoken rfl p hp⟩
  | _ =>
    cases hsettled
    exact hsignal

end Parser

namespace Cursor

variable {all : List Piece} {c d : Cursor} {e : Expected}

/-- What a cursor sees of a line that begins ahead, besides the tokens of the line. -/
def Sees (c : Cursor) (e : Expected) (m : Margin) : Signal → Prop
  | .lineEnd => e.lineEnd = true
  | .indent column => e.indent = true ∧ column = m.column ∧ c.column < column
  | .dedent => e.dedent = true ∧ m.column < c.column
  | .stray => True
  | .token => False

theorem exists_sees {s : Signal} (hs : c.signal e = s) (h : s ≠ .token) :
    ∃ m, Margin.ahead e.layout none c.pieces = some m ∧ m.breaks = true ∧ c.Sees e m s := by
  unfold signal at hs
  split at hs
  · exact absurd hs.symm h
  · next m hahead =>
    refine ⟨m, hahead, ?_⟩
    split_ifs at hs with hbreaks hindent hless hdedent hlineEnd
    · exact absurd hs.symm h
    · subst hs
      rw [Bool.and_eq_true, decide_eq_true_iff] at hindent
      exact ⟨by simpa using hbreaks, hindent.1, rfl, hindent.2⟩
    · subst hs
      simp only [Bool.and_eq_true, decide_eq_true_iff] at hless
      exact ⟨by simpa using hbreaks, hdedent, hless.1.1.1⟩
    · subst hs
      exact ⟨by simpa using hbreaks, trivial⟩
    · subst hs
      exact ⟨by simpa using hbreaks, hlineEnd⟩
    · exact absurd hs.symm h

/-- What is seen where layout matters is the line that begins with the next piece that is no
    comment. -/
theorem breaksAt_ahead (hc : c.On all) (hmeasured : Measured all) {m : Margin}
    (hahead : Margin.ahead true none c.pieces = some m) (hbreaks : m.breaks = true) :
    breaksAt all c.ahead ∧ columnAt all c.ahead = m.column := by
  have hrest : Measured c.pieces := by
    intro p hp
    rw [hc.pieces] at hp
    exact hmeasured p (List.mem_of_mem_drop hp)
  obtain ⟨before, p, rest, hpieces, hcomments, hp, hbreaks, hcolumn⟩ :=
    exists_of_ahead hrest hahead hbreaks
  have hposition : c.ahead = c.index + before.length := by
    rw [ahead, hpieces, List.takeWhile_append_of_pos (by simpa using hcomments),
      List.takeWhile_cons_of_neg (by simpa using hp), List.append_nil]
  have hfound := hc.getElem? before hpieces
  rw [← hposition] at hfound
  exact ⟨(breaksAt_iff hfound).mpr hbreaks, (columnAt_eq hfound).trans hcolumn⟩

/-- Where a token is found, its line does not end the statement before it, nor the block. -/
theorem column_le_of_signal {p : Piece} {rest : List Piece} (hclosed : c.formatting = false)
    (hpieces : c.pieces = p :: rest) (hp : p.token ≠ .comment) (h : c.signal e = .token)
    (hbreaks : p.layout.breaks = true) :
    e.lineEnd = false ∧
      (e.dedent = true ∨ e.closer = false ∧ e.literal = false → c.column ≤ p.layout.column) := by
  obtain ⟨quote, hahead⟩ := margin_of_head hp e.layout rest
  unfold signal at h
  rw [hpieces, hahead] at h
  simp only [hbreaks, hclosed, Bool.not_true, Bool.not_false, Option.all_none, Bool.and_true,
    Bool.false_eq_true, if_false] at h
  split_ifs at h with hindent hless hdedent hlineEnd
  have hlineEnd : e.lineEnd = false := by simpa using hlineEnd
  refine ⟨hlineEnd, fun he => ?_⟩
  refine Nat.le_of_not_lt fun hlt => hless ?_
  obtain hdedent | ⟨hcloser, hliteral⟩ := he
  · simp [hlt, hdedent]
  · simp [hlt, hlineEnd, hcloser, hliteral]

end Cursor

/-- With this expectation no token is found that is indented less than a block at some column: a
    dedent is looked for too, or no operand, or there is no block. -/
def Expected.Guards (e : Expected) (column : Nat) : Prop :=
  e.dedent = true ∨ e.closer = false ∧ e.literal = false ∨ column = 0

namespace Parser

variable {all : List Piece} {c d : Cursor} {e : Expected}

theorem Gives.on_of_look {l : Look} (h : Gives (look e) c l d) (hc : c.On all) : d.On all :=
  hc.of_reaches h.skips_of_look.reaches

/-- A token is found within the source. -/
theorem Gives.lt_length_of_look {t : Token} (h : Gives (look e) c (.token t) d) (hc : c.On all) :
    d.index < all.length := by
  obtain ⟨-, p, rest, hpieces, -⟩ := h.signal_of_look
  obtain ⟨hlt, -⟩ :=
    List.getElem?_eq_some_iff.mp ((h.on_of_look hc).getElem? [] hpieces)
  exact hlt

theorem Gives.dedent_expected (h : Gives (look e) c .dedent d) : e.dedent = true := by
  have hsignal : d.signal e = .dedent := h.signal_of_look
  obtain ⟨m, -, -, hsees⟩ := Cursor.exists_sees hsignal nofun
  exact hsees.1

theorem Gives.indent_expected {column : Nat} (h : Gives (look e) c (.indent column) d) :
    e.indent = true := by
  have hsignal : d.signal e = .indent column := h.signal_of_look
  obtain ⟨m, -, -, hsees⟩ := Cursor.exists_sees hsignal nofun
  exact hsees.1

theorem Gives.lineEnd_found (h : Gives (look e) c .lineEnd d) (hc : c.On all)
    (hmeasured : Measured all) : breaksAt all d.ahead := by
  have hsignal : d.signal e = .lineEnd := h.signal_of_look
  obtain ⟨m, hahead, hbreaks, hsees⟩ := Cursor.exists_sees hsignal nofun
  have hlayout : e.layout = true := by simp [Expected.layout, show e.lineEnd = true from hsees]
  rw [hlayout] at hahead
  exact (Cursor.breaksAt_ahead (h.on_of_look hc) hmeasured hahead hbreaks).1

theorem Gives.dedent_found (h : Gives (look e) c .dedent d) (hc : c.On all)
    (hmeasured : Measured all) : breaksAt all d.ahead ∧ columnAt all d.ahead < d.column := by
  have hsignal : d.signal e = .dedent := h.signal_of_look
  obtain ⟨m, hahead, hbreaks, hsees⟩ := Cursor.exists_sees hsignal nofun
  obtain ⟨hdedent, hless⟩ : e.dedent = true ∧ m.column < d.column := hsees
  have hlayout : e.layout = true := by simp [Expected.layout, hdedent]
  rw [hlayout] at hahead
  obtain ⟨hline, hcolumn⟩ := Cursor.breaksAt_ahead (h.on_of_look hc) hmeasured hahead hbreaks
  exact ⟨hline, hcolumn ▸ hless⟩

theorem Gives.indent_found {column : Nat} (h : Gives (look e) c (.indent column) d)
    (hc : c.On all) (hmeasured : Measured all) :
    breaksAt all d.ahead ∧ columnAt all d.ahead = column ∧ d.column < column := by
  have hsignal : d.signal e = .indent column := h.signal_of_look
  obtain ⟨m, hahead, hbreaks, hsees⟩ := Cursor.exists_sees hsignal nofun
  obtain ⟨hindent, rfl, hless⟩ : e.indent = true ∧ column = m.column ∧ d.column < column := hsees
  have hlayout : e.layout = true := by simp [Expected.layout, hindent]
  rw [hlayout] at hahead
  obtain ⟨hline, hcolumn⟩ := Cursor.breaksAt_ahead (h.on_of_look hc) hmeasured hahead hbreaks
  exact ⟨hline, hcolumn, hless⟩

theorem Gives.token_found {t : Token} (h : Gives (look e) c (.token t) d) (hc : c.On all) :
    d.ahead = d.index ∧ (breaksAt all d.index → e.lineEnd = false ∧
      (e.dedent = true ∨ e.closer = false ∧ e.literal = false →
        d.column ≤ columnAt all d.index)) := by
  obtain ⟨hsignal, p, rest, hpieces, -, hp⟩ := h.signal_of_look
  have hd := h.on_of_look hc
  have hfound : all[d.index]? = some p := hd.getElem? [] hpieces
  refine ⟨Cursor.ahead_of_head hpieces hp, ?_⟩
  rw [breaksAt_iff hfound, columnAt_eq hfound]
  exact Cursor.column_le_of_signal hd.closed hpieces hp hsignal

theorem Gives.column_eq {α : Type} {reader : Parser α} {a : α} (h : Gives reader c a d) :
    d.column = c.column := h.reaches.column_eq

theorem Gives.starts {t : Token} (h : Gives (look e) c (.token t) d) (hc : c.On all)
    (he : e.Guards c.column) : d.Starts all := by
  obtain ⟨hsettled, hline⟩ := h.token_found hc
  refine ⟨h.on_of_look hc, hsettled, fun hbreaks => ?_⟩
  obtain ⟨-, hcolumn⟩ := hline hbreaks
  obtain hdedent | hneither | hzero := he
  · exact hcolumn (.inl hdedent)
  · exact hcolumn (.inr hneither)
  · rw [h.column_eq, hzero]
    exact Nat.zero_le _

end Parser

end SourceSurvey.Syntax
