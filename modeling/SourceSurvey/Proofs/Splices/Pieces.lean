import SourceSurvey.Proofs.Documentation.Reading
import SourceSurvey.Proofs.Splices.Lexemes
import SourceSurvey.Proofs.Splices.Readers

/-!
The pieces of a source with one more joined line. Readers see nothing of it: a joined line ends no
line and leaves the column as it is.
-/

namespace SourceSurvey.Syntax

/-- Layouts that differ at most in the joined lines. A blank without width that a joined line follows
    does not count. -/
structure Layout.Near (a b : Layout) : Prop where
  breaks : a.breaks = b.breaks
  column : a.column = b.column
  blocked : a.blocked = b.blocked
  masked : b.masked = true → a.masked = true

theorem Layout.Near.pastBlock {a b : Layout} (h : a.Near b) (gap : List Char) :
    (a.pastBlock gap).Near (b.pastBlock gap) := by
  fun_induction Layout.pastBlock a gap generalizing b with
  | case1 => exact h
  | case2 a rest ih => exact ih ⟨h.breaks, h.column, h.blocked, fun h => by cases h⟩
  | case3 a c rest hc ih =>
    rw [Layout.pastBlock.eq_3 _ _ _ hc]
    refine ih ?_
    split
    · exact h
    · exact ⟨h.breaks, h.column, h.blocked, fun _ => rfl⟩

theorem Layout.Near.over {a b : Layout} (h : a.Near b) (gap : List Char) :
    (a.over gap).Near (b.over gap) := by
  fun_induction Layout.over a gap generalizing b with
  | case1 => exact h
  | case2 a rest ih => exact ih ⟨rfl, rfl, h.blocked, h.masked⟩
  | case3 a rest ih => exact ih ⟨h.breaks, congrArg (· + 1) h.column, h.blocked, h.masked⟩
  | case4 a rest ih => exact ih ⟨h.breaks, congrArg (· + 8) h.column, h.blocked, h.masked⟩
  | case5 a rest ih | case6 a rest ih => exact ih ⟨h.breaks, rfl, h.blocked, h.masked⟩
  | case7 a rest ih | case8 a rest ih => exact ih ⟨h.breaks, h.column, h.blocked, h.masked⟩
  | case9 a text =>
    rw [Layout.over.eq_9]
    · exact Layout.Near.pastBlock (a := { a with blocked := true }) (b := { b with blocked := true })
        ⟨h.breaks, h.column, rfl, h.masked⟩ text
    all_goals assumption

theorem pastBlock_append (a : Layout) (first second : List Char) :
    a.pastBlock (first ++ second) = (a.pastBlock first).pastBlock second := by
  fun_induction Layout.pastBlock a first with
  | case1 => rfl
  | case2 a rest ih => exact ih
  | case3 a c rest hc ih =>
    rw [List.cons_append, Layout.pastBlock.eq_3 _ _ _ hc]
    exact ih

/-- One more joined line in some blanks. -/
theorem near_over_joined {first : List Char} (hfirst : Blanks first) (a : Layout)
    (second : List Char) :
    (a.over (first ++ second)).Near (a.over (first ++ '\\' :: '\n' :: second)) := by
  induction hfirst generalizing a with
  | nil =>
    have hjoined : a.Near { a with spliced := true } := ⟨rfl, rfl, rfl, id⟩
    exact hjoined.over second
  | joined _ ih => exact ih _
  | joinedReturn _ ih => exact ih _
  | @separator c rest hc _ ih =>
    cases hblank : ['\n', ' ', '\t', '\r', '\x0c', '\\'].contains c with
    | false =>
      -- the measuring has stopped, and a joined line forgets the blanks without width before it
      rw [List.cons_append, List.cons_append, over_other hblank, over_other hblank,
        ← List.cons_append, ← List.cons_append, pastBlock_append, pastBlock_append]
      generalize Layout.pastBlock _ (c :: rest) = b
      have hjoined : b.Near { b with spliced := true, masked := false } := ⟨rfl, rfl, rfl, nofun⟩
      exact hjoined.pastBlock ('\n' :: second)
    | true =>
      simp only [List.contains_cons, List.contains_nil, Bool.or_false, Bool.or_eq_true,
        beq_iff_eq] at hblank
      obtain rfl | rfl | rfl | rfl | rfl | rfl := hblank
      · exact ih _
      · exact ih _
      · exact ih _
      · exact ih _
      · exact ih _
      · cases hc

theorem Layout.Near.trans {a b c : Layout} (h : a.Near b) (h' : b.Near c) : a.Near c :=
  ⟨h.breaks.trans h'.breaks, h.column.trans h'.column, h.blocked.trans h'.blocked,
    fun hc => h.masked (h'.masked hc)⟩

theorem near_ofGap_splice {l : Lexeme} {n : Nat} (hgap : Blanks (l.gap.take n)) :
    (Layout.ofGap l.gap).Near (Layout.ofGap (l.splice n).gap) := by
  have hover := near_over_joined hgap { tight := l.gap.isEmpty } (l.gap.drop n)
  rw [List.take_append_drop] at hover
  have htight : Layout.Near { tight := l.gap.isEmpty } { tight := (l.splice n).gap.isEmpty } :=
    ⟨rfl, rfl, rfl, id⟩
  exact hover.trans (htight.over _)

theorem ofLexeme_of_ne {l : Lexeme} (hl : l.token ≠ .finish) :
    Piece.ofLexeme l = ⟨Layout.ofGap l.gap,
      if (Layout.ofGap l.gap).masked && l.token.startsLiteral then .invalid else l.token⟩ := by
  unfold Piece.ofLexeme
  split
  · next h => exact absurd h hl
  · rfl

/-- Readers do not see a joined line before a token. -/
theorem alike_splice {l : Lexeme} {n : Nat} (hgap : Blanks (l.gap.take n))
    (hfinish : l.token ≠ .finish) (hstar : l.token ≠ .symbol .star)
    (hvalid : (Piece.ofLexeme l).token ≠ .invalid) :
    (Piece.ofLexeme l).Alike (Piece.ofLexeme (l.splice n)) := by
  have hnear := near_ofGap_splice hgap
  have htoken : (Piece.ofLexeme l).token = l.token := token_ofLexeme hvalid
  have hmasked : ((Layout.ofGap (l.splice n).gap).masked && l.token.startsLiteral) = false := by
    by_contra hboth
    rw [Bool.not_eq_false, Bool.and_eq_true] at hboth
    rw [ofLexeme_of_ne hfinish, hnear.masked hboth.1, hboth.2] at hvalid
    exact hvalid rfl
  have hsplice : Piece.ofLexeme (l.splice n) = ⟨Layout.ofGap (l.splice n).gap, l.token⟩ :=
    (ofLexeme_of_ne (l := l.splice n) hfinish).trans
      (congrArg (Piece.mk _) (if_neg (ne_true_of_eq_false hmasked)))
  have hlayout : (Piece.ofLexeme l).layout = Layout.ofGap l.gap := by rw [ofLexeme_of_ne hfinish]
  rw [hsplice]
  refine ⟨htoken, ?_, fun _ => ?_, fun h => absurd (htoken.symm.trans h) hstar⟩
  · rw [hlayout]
    exact hnear.breaks
  · rw [hlayout]
    exact ⟨hnear.column, hnear.blocked⟩

/-- A byte order mark concerns only the first lexeme. -/
theorem unmarked_append {before : List Lexeme} (hbefore : before ≠ []) (after : List Lexeme) :
    Lexeme.unmarked (before ++ after) = Lexeme.unmarked before ++ after := by
  obtain ⟨b, before, rfl⟩ := List.exists_cons_of_ne_nil hbefore
  rfl

/-- Readers do not see a joined line that is not at the start of a source. -/
theorem alike_ofLexemes_splice {before after : List Lexeme} {l : Lexeme} {n : Nat}
    (hbefore : before ≠ []) (hgap : Blanks (l.gap.take n)) (hfinish : l.token ≠ .finish)
    (hstar : l.token ≠ .symbol .star) (hvalid : (Piece.ofLexeme l).token ≠ .invalid) :
    List.Forall₂ Piece.Alike (Piece.ofLexemes (before ++ l :: after))
      (Piece.ofLexemes (before ++ l.splice n :: after)) := by
  have hsame : ∀ pieces : List Piece, List.Forall₂ Piece.Alike pieces pieces :=
    fun pieces => List.forall₂_same.mpr fun p _ => Piece.Alike.refl p
  rw [ofLexemes_eq, ofLexemes_eq, unmarked_append hbefore, unmarked_append hbefore,
    List.map_append, List.map_append, List.map_cons, List.map_cons]
  exact List.rel_append (hsame _) (.cons (alike_splice hgap hfinish hstar hvalid) (hsame _))

end SourceSurvey.Syntax
