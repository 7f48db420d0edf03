import SourceSurvey.Proofs.Documentation.Literals

/-!
What a reader passes, as lexemes. Between two tokens it passes nothing but comments, and it notes
whether a joined line stands on its own on the way.
-/

namespace SourceSurvey.Syntax

open SourceSurvey.Syntax.Parser

/-- Lexemes that the grammar can make sense of: every one is a token, and behind a comment a line
    begins. -/
structure Legible (source : List Lexeme) : Prop where
  valid : ∀ p ∈ Piece.ofLexemes source, p.token ≠ .invalid
  linesEnd : LinesEnd (Lexeme.unmarked source)

/-- A byte order mark changes nothing of what follows a comment. -/
theorem linesEnd_unmarked {source : List Lexeme} (h : LinesEnd source) :
    LinesEnd (Lexeme.unmarked source) := by
  cases source with
  | nil => exact h
  | cons first rest =>
    obtain ⟨hfirst, hrest⟩ := List.isChain_cons.mp h
    exact List.isChain_cons.mpr ⟨hfirst, hrest⟩

theorem legible_of_ofPieces {text : List Char} {m : Module}
    (h : Module.ofPieces (Piece.ofLexemes (lexemes text)) = .ok m) : Legible (lexemes text) :=
  ⟨token_ne_invalid_of_mem h, linesEnd_unmarked (linesEnd_lexemesFrom [] text)⟩

/-- The lexemes that are left to read at a cursor. -/
def Cursor.rest (source : List Lexeme) (c : Cursor) : List Lexeme :=
  (Lexeme.unmarked source).drop c.index

/-- One cursor is reached from another over comments, and knows of the lines that were joined on the
    way. -/
def Cursor.Settles (source : List Lexeme) (c d : Cursor) : Prop :=
  ∃ comments, c.rest source = comments ++ d.rest source ∧ Comments comments ∧
    d.seam = (c.seam || comments.any Lexeme.splices)

/-- One cursor is reached from another over some tokens and comments behind them. -/
def Cursor.Trails (source : List Lexeme) (c : Cursor) (run : List Lexeme) (d : Cursor) : Prop :=
  ∃ comments, c.rest source = run ++ (comments ++ d.rest source) ∧ Comments comments ∧
    d.seam = comments.any Lexeme.splices

namespace Cursor

variable {source : List Lexeme} {c d e : Cursor} {run : List Lexeme}

theorem Settles.refl (c : Cursor) : c.Settles source c := ⟨[], rfl, comments_nil, by simp⟩

theorem Settles.trans (h : c.Settles source d) (h' : d.Settles source e) : c.Settles source e := by
  obtain ⟨first, hfirst, hcomments, hseam⟩ := h
  obtain ⟨second, hsecond, hcomments', hseam'⟩ := h'
  refine ⟨first ++ second, ?_, hcomments.append hcomments', ?_⟩
  · rw [hfirst, hsecond, List.append_assoc]
  · rw [hseam', hseam, List.any_append, Bool.or_assoc]

theorem Trails.settles (h : c.Trails source run d) (h' : d.Settles source e) :
    c.Trails source run e := by
  obtain ⟨first, hfirst, hcomments, hseam⟩ := h
  obtain ⟨second, hsecond, hcomments', hseam'⟩ := h'
  refine ⟨first ++ second, ?_, hcomments.append hcomments', ?_⟩
  · rw [hfirst, hsecond, List.append_assoc]
  · rw [hseam', hseam, List.any_append]

/-- What stands behind some tokens is reached if nothing but comments is passed after them. -/
theorem trails_of_settles {middle : Cursor} (h : c.rest source = run ++ middle.rest source)
    (hseam : middle.seam = false) (h' : middle.Settles source d) : c.Trails source run d := by
  obtain ⟨comments, hrest, hcomments, hseam'⟩ := h'
  exact ⟨comments, by rw [h, hrest], hcomments, by rw [hseam', hseam, Bool.false_or]⟩

theorem On.pieces_eq (hc : c.On (Piece.ofLexemes source)) :
    c.pieces = (c.rest source).map Piece.ofLexeme := by
  rw [hc.pieces, ofLexemes_eq, rest, List.map_drop]

/-- Pieces that are passed are those of the lexemes in between. -/
theorem On.exists_of_passes {passed : List Piece} (hc : c.On (Piece.ofLexemes source))
    (h : Passes passed c d) :
    ∃ list, c.rest source = list ++ d.rest source ∧ list.map Piece.ofLexeme = passed := by
  have hsplit := h.pieces
  rw [hc.pieces_eq] at hsplit
  obtain ⟨list, more, hrest, hlist, -⟩ := List.map_eq_append_iff.mp hsplit
  refine ⟨list, ?_, hlist⟩
  have hlength : passed.length = list.length := by rw [← hlist, List.length_map]
  have hbehind : d.rest source = more := by
    rw [rest, h.index, ← List.drop_drop, ← rest, hrest, hlength, List.drop_left]
  rw [hrest, hbehind]

/-- Moving over comments notes the joined lines on the way. -/
theorem seam_settleOver (e : Expected) (pieces : List Piece) (c : Cursor) :
    ∃ passed, Passes passed { c with pieces } (c.settleOver e pieces).2 ∧
      (∀ p ∈ passed, p.token = .comment) ∧
      (c.settleOver e pieces).2.seam = (c.seam || passed.any fun p => p.splices) := by
  induction pieces generalizing c with
  | nil => exact ⟨[], .refl _, List.forall_mem_nil _, by simp [settleOver]⟩
  | cons p rest ih =>
    have hstay : Passes [] { c with pieces := p :: rest } { c with pieces := p :: rest } := .refl _
    rw [settleOver]
    split
    · split
      · next hcomment =>
        obtain ⟨passed, hpasses, hall, hseam⟩ :=
          ih { c with index := c.index + 1, seam := c.seam || p.splices }
        refine ⟨p :: passed, ⟨?_, ?_, hpasses.indents, hpasses.budget⟩, ?_, ?_⟩
        · exact congrArg (p :: ·) hpasses.pieces
        · rw [hpasses.index, List.length_cons]
          simp only
          omega
        · exact List.forall_mem_cons.mpr ⟨hcomment, hall⟩
        · rw [hseam, List.any_cons, Bool.or_assoc]
      · exact ⟨[], hstay, List.forall_mem_nil _, by simp⟩
    · exact ⟨[], hstay, List.forall_mem_nil _, by simp⟩

end Cursor

section Legible

variable {source : List Lexeme} {c d : Cursor} {e : Expected} {t : Token} {l : Look}
  (hsource : Legible source)

include hsource

theorem Legible.token_eq {k : Lexeme} (hk : k ∈ Lexeme.unmarked source) :
    (Piece.ofLexeme k).token = k.token := by
  refine token_ofLexeme (hsource.valid _ ?_)
  rw [ofLexemes_eq]
  exact List.mem_map_of_mem hk

theorem Legible.token_eq_of_rest {k : Lexeme} (hk : k ∈ c.rest source) :
    (Piece.ofLexeme k).token = k.token := hsource.token_eq (List.mem_of_mem_drop hk)

theorem Legible.token_ne_invalid {k : Lexeme} (hk : k ∈ c.rest source) : k.token ≠ .invalid := by
  rw [← hsource.token_eq_of_rest hk]
  refine hsource.valid _ ?_
  rw [ofLexemes_eq]
  exact List.mem_map_of_mem (List.mem_of_mem_drop hk)

/-- Behind a comment that is left to read a line begins. -/
theorem Legible.breaks_of_comments {run before more : List Lexeme} {k : Lexeme}
    (hrest : c.rest source = run ++ (before ++ k :: more)) (hbefore : Comments before)
    (hne : before ≠ []) : k.breaks = true := by
  have hchain : LinesEnd (c.rest source) := hsource.linesEnd.drop c.index
  have hk : k ∈ c.rest source := by
    rw [hrest]
    exact List.mem_append_right _ (List.mem_append_right _ List.mem_cons_self)
  rw [hrest, ← List.dropLast_append_getLast hne, List.append_assoc, ← List.append_assoc] at hchain
  obtain ⟨-, hlast, -⟩ := List.isChain_append_cons_cons.mp hchain
  exact hlast (hbefore _ (List.getLast_mem hne)) (hsource.token_ne_invalid hk)

/-- Comments that are passed are comments of the source. -/
theorem Legible.comments_of_passes {passed : List Piece} (hc : c.On (Piece.ofLexemes source))
    (h : Cursor.Passes passed c d) (hall : ∀ p ∈ passed, p.token = .comment) :
    ∃ comments, c.rest source = comments ++ d.rest source ∧ Comments comments ∧
      (passed.any fun p => p.splices) = comments.any Lexeme.splices := by
  obtain ⟨list, hrest, rfl⟩ := hc.exists_of_passes h
  refine ⟨list, hrest, fun k hk => ?_, ?_⟩
  · rw [← hsource.token_eq_of_rest (c := c) (hrest ▸ List.mem_append_left _ hk)]
    exact hall _ (List.mem_map_of_mem hk)
  · rw [List.any_map]
    exact List.any_congr rfl splices_ofLexeme

theorem Legible.settles_of_look (hc : c.On (Piece.ofLexemes source)) (h : Gives (look e) c l d) :
    c.Settles source d := by
  obtain ⟨passed, hpasses, hall, hseam⟩ := Cursor.seam_settleOver e c.pieces c
  rw [← Cursor.settle, ← Look.eq_of_ofSettled h] at hpasses hseam
  obtain ⟨comments, hrest, hcomments, hany⟩ := hsource.comments_of_passes hc hpasses hall
  exact ⟨comments, hrest, hcomments, by rw [hseam, hany]⟩

/-- What stands at a cursor. -/
theorem Legible.rest_of_head (hc : c.On (Piece.ofLexemes source))
    (h : c.pieces.head?.map Piece.token = some t) :
    ∃ k more, c.rest source = k :: more ∧ k.token = t := by
  obtain ⟨p, hp, htoken⟩ := Option.map_eq_some_iff.mp h
  rw [hc.pieces_eq, List.head?_map] at hp
  obtain ⟨k, hk, rfl⟩ := Option.map_eq_some_iff.mp hp
  obtain ⟨more, hrest⟩ := List.head?_eq_some_iff.mp hk
  refine ⟨k, more, hrest, ?_⟩
  rw [← htoken, hsource.token_eq_of_rest (c := c) (hrest ▸ List.mem_cons_self)]

theorem Legible.rest_of_take (hc : c.On (Piece.ofLexemes source)) (h : Gives take c t d) :
    ∃ k, c.rest source = k :: d.rest source ∧ k.token = t ∧ d.seam = false := by
  obtain ⟨p, rest, hpieces, rfl, rfl⟩ := h.of_take
  obtain ⟨list, hrest, hlist⟩ := hc.exists_of_passes
    (Cursor.passes_pass hpieces (c.formatting && !endsLiteral p.token))
  obtain ⟨k, rfl, rfl⟩ := List.map_eq_singleton_iff.mp hlist
  refine ⟨k, hrest, ?_, rfl⟩
  rw [hsource.token_eq_of_rest (c := c) (hrest ▸ List.mem_cons_self)]

omit hsource in
/-- Whether a joined line stands before a token is known where the token is. -/
theorem eq_of_crossesSeam {k : Lexeme} {more : List Lexeme} {crosses : Bool}
    (hc : c.On (Piece.ofLexemes source)) (hrest : c.rest source = k :: more)
    (h : Gives crossesSeam c crosses d) : crosses = (c.seam || k.splices) ∧ c = d := by
  obtain ⟨hfound, rfl⟩ := gives_ask_iff.mp h
  rw [hc.pieces_eq, hrest, List.map_cons, List.head?_cons] at hfound
  cases hfound
  exact ⟨congrArg (c.seam || ·) (splices_ofLexeme k), rfl⟩

/-- A token that is found stands behind comments only. Where a line might end, none has. -/
theorem Legible.rest_of_look (hc : c.On (Piece.ofLexemes source))
    (h : Gives (look e) c (.token t) d) :
    ∃ between k more, c.rest source = between ++ k :: more ∧ d.rest source = k :: more ∧
      Comments between ∧ d.seam = (c.seam || between.any Lexeme.splices) ∧ k.token = t ∧
      t ≠ .comment ∧ (e.lineEnd = true → between = [] ∧ k.breaks = false) := by
  obtain ⟨between, hrest, hbetween, hseam⟩ := hsource.settles_of_look hc h
  have hd := h.on_of_look hc
  obtain ⟨-, p, rest, hpieces, htoken, hcomment⟩ := h.signal_of_look
  have hhead : d.pieces.head?.map Piece.token = some t := by rw [hpieces, ← htoken]; rfl
  obtain ⟨k, more, hk, hkt⟩ := hsource.rest_of_head hd hhead
  refine ⟨between, k, more, by rw [hrest, hk], hk, hbetween, hseam, hkt, htoken ▸ hcomment, ?_⟩
  intro hlineEnd
  have hbreaks : k.breaks = false := by
    refine Bool.eq_false_iff.mpr fun hbreaks => ?_
    have hfirst : p = Piece.ofLexeme k := by
      rw [hd.pieces_eq, hk] at hpieces
      exact (List.cons.inj hpieces).1.symm
    have hfound : breaksAt (Piece.ofLexemes source) d.index :=
      (breaksAt_iff (hd.getElem? [] hpieces)).mpr (hfirst ▸ hbreaks)
    rw [((h.token_found hc).2 hfound).1] at hlineEnd
    cases hlineEnd
  refine ⟨?_, hbreaks⟩
  by_contra hne
  have hbehind : c.rest source = [] ++ (between ++ k :: more) := by rw [hrest, hk]; rfl
  rw [hsource.breaks_of_comments hbehind hbetween hne] at hbreaks
  cases hbreaks

omit hsource in
/-- A line that is found ahead begins behind comments only. -/
theorem exists_breaks_of_ahead {list : List Lexeme} {first : Option Nat} {m : Margin}
    (htokens : ∀ k ∈ list, (Piece.ofLexeme k).token = k.token)
    (hahead : Margin.ahead true first (list.map Piece.ofLexeme) = some m)
    (hbreaks : m.breaks = true) :
    ∃ comments k more, list = comments ++ k :: more ∧ Comments comments ∧ k.breaks = true := by
  induction list generalizing first with
  | nil => cases hahead
  | cons k list ih =>
    obtain ⟨hk, hlist⟩ := List.forall_mem_cons.mp htokens
    rw [List.map_cons, Margin.ahead] at hahead
    split at hahead
    · cases hahead
      exact ⟨[], k, list, rfl, comments_nil, hbreaks⟩
    · split at hahead
      · next hcomment =>
        split at hahead
        · obtain ⟨comments, k', more, rfl, hcomments, hk'⟩ := ih hlist hahead
          have htoken : k.token = .comment := by
            rw [← hk]
            simpa using hcomment
          exact ⟨k :: comments, k', more, rfl, List.forall_mem_cons.mpr ⟨htoken, hcomments⟩, hk'⟩
        · cases hahead
      · cases hahead
        exact ⟨[], k, list, rfl, comments_nil, hbreaks⟩

/-- Where no token is found, and neither indent nor dedent is looked for, a line has ended. -/
theorem Legible.breaks_of_look (hc : c.On (Piece.ofLexemes source)) (h : Gives (look e) c l d)
    (hindent : e.indent = false) (hdedent : e.dedent = false) (hl : ∀ t, l ≠ .token t) :
    l = .lineEnd ∧ e.lineEnd = true ∧ ∃ comments k more, c.rest source = comments ++ k :: more ∧
      Comments comments ∧ k.breaks = true := by
  obtain ⟨before, hrest, hbefore, -⟩ := hsource.settles_of_look hc h
  have hd := h.on_of_look hc
  cases l with
  | token t => exact absurd rfl (hl t)
  | indent column =>
    rw [h.indent_expected] at hindent
    cases hindent
  | dedent =>
    rw [h.dedent_expected] at hdedent
    cases hdedent
  | lineEnd =>
    have hsignal : d.signal e = .lineEnd := h.signal_of_look
    obtain ⟨m, hahead, hbreaks, hsees⟩ := Cursor.exists_sees hsignal nofun
    have hlineEnd : e.lineEnd = true := hsees
    have hlayout : e.layout = true := by simp [Expected.layout, hlineEnd]
    rw [hlayout, hd.pieces_eq] at hahead
    obtain ⟨comments, k, more, hbehind, hcomments, hk⟩ := exists_breaks_of_ahead
      (fun k hk => hsource.token_eq_of_rest hk) hahead hbreaks
    refine ⟨rfl, hlineEnd, before ++ comments, k, more, ?_, hbefore.append hcomments, hk⟩
    rw [hrest, hbehind, List.append_assoc]

/-- Behind a whole expression a reader finds nothing that goes on with it. -/
theorem Legible.look_of_ends {c₀ : Cursor} {inside : Bool} {run rest : List Lexeme}
    (hc : c.On (Piece.ofLexemes source)) (h : Gives (look e) c (.token t) d)
    (hinside : inside = !e.lineEnd) (htrails : c₀.Trails source run c)
    (hrest : c₀.rest source = run ++ rest) (hends : Ends inside rest) :
    t = .symbol .rightParen ∨ inside = false ∧ t = .symbol .semicolon := by
  obtain ⟨before, hbefore, hcomments, -⟩ := htrails
  obtain ⟨between, k, more, hlook, -, hbetween, -, rfl, hk, hline⟩ := hsource.rest_of_look hc h
  have hsplit : rest = (before ++ between) ++ k :: more := by
    have hsame := hrest.symm.trans hbefore
    rw [List.append_cancel_left hsame, hlook, List.append_assoc]
  have hcomments := hcomments.append hbetween
  cases hends with
  | closing hcomments' hclosing =>
    obtain ⟨-, rfl, -⟩ := hcomments'.unique hcomments (by rw [hclosing]; nofun) hk hsplit
    exact .inl hclosing
  | @line comments _ l hcomments' hl =>
    obtain ⟨-, hbreaks⟩ := hline (by simpa using hinside)
    obtain hnil : before ++ between = [] := by
      by_contra hne
      rw [hsource.breaks_of_comments (hrest.trans (by rw [hsplit])) hcomments hne] at hbreaks
      cases hbreaks
    rw [hnil] at hsplit
    cases comments with
    | nil =>
      obtain ⟨rfl, -⟩ := List.cons.inj hsplit
      obtain hl | hl := hl
      · rw [hl] at hbreaks
        cases hbreaks
      · exact .inr ⟨rfl, hl⟩
    | cons c comments =>
      obtain ⟨rfl, -⟩ := List.cons.inj hsplit
      exact absurd (hcomments' _ List.mem_cons_self) hk

end Legible

end SourceSurvey.Syntax
