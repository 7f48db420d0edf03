import SourceSurvey.Proofs.Syntax.Places
import SourceSurvey.Syntax.Survey

/-!
What is accepted is text of the grammar to its end: the end of a source is its last token and no
other, and the readers pass nothing that is no token.
-/

namespace SourceSurvey.Syntax

/-- Only what comes behind everything else is the end of a source. -/
theorem token_recogniseCode_ne_finish (frames : List Frame) (c : Char) (rest : List Char) :
    (recogniseCode frames c rest).token ≠ .finish := by
  unfold recogniseCode
  repeat' split
  all_goals nofun

theorem token_recognise_ne_finish (frames : List Frame) (c : Char) (rest : List Char) :
    (recognise frames c rest).token ≠ .finish := by
  match frames with
  | [] => exact token_recogniseCode_ne_finish [] c rest
  | .hole depth lambdas spot :: outer =>
    have hcode := token_recogniseCode_ne_finish [] c rest
    simp only [recognise, recogniseHole]
    repeat' split
    all_goals first | exact hcode | nofun
  | .text q :: outer =>
    simp only [recognise]
    split <;> nofun
  | .format :: outer =>
    simp only [recognise]
    split <;> nofun

theorem eq_length_of_finish {frames : List Frame} {source : List Char} {l : Lexeme} {i : Nat}
    (hl : (lexemesFrom frames source)[i]? = some l) (hfinish : l.token = .finish) :
    i + 1 = (lexemesFrom frames source).length := by
  fun_induction lexemesFrom frames source generalizing i
  case case1 frames source gap h =>
    cases i with
    | zero => rfl
    | succ i => cases hl
  case case2 frames source gap c rest h r ih =>
    cases i with
    | zero =>
      cases hl
      exact absurd hfinish (token_recognise_ne_finish frames c rest)
    | succ i =>
      rw [List.getElem?_cons_succ] at hl
      rw [List.length_cons, ih hl]

theorem length_ofLexemes (lexemes : List Lexeme) :
    (Piece.ofLexemes lexemes).length = lexemes.length := by
  cases lexemes with
  | nil => rfl
  | cons first rest => rw [Piece.ofLexemes, List.length_cons, List.length_map, List.length_cons]

/-- A piece is made of the lexeme at its place, but for a byte order mark before it. -/
theorem exists_lexeme_of_getElem? {lexemes : List Lexeme} {i : Nat} {p : Piece}
    (hp : (Piece.ofLexemes lexemes)[i]? = some p) :
    ∃ l gap, lexemes[i]? = some l ∧ (l.gap = gap ∨ l.gap = '\ufeff' :: gap) ∧
      p = Piece.ofLexeme { l with gap := gap } := by
  cases lexemes with
  | nil => cases hp
  | cons first rest =>
    cases i with
    | zero =>
      cases hp
      refine ⟨first, _, rfl, ?_, rfl⟩
      split
      · next hmark => exact .inr hmark
      · exact .inl rfl
    | succ i =>
      rw [Piece.ofLexemes, List.getElem?_cons_succ, List.getElem?_map] at hp
      obtain ⟨l, hl, rfl⟩ := Option.map_eq_some_iff.mp hp
      exact ⟨l, l.gap, hl, .inl rfl, rfl⟩

theorem token_ofLexeme_eq_finish {l : Lexeme} (h : (Piece.ofLexeme l).token = .finish) :
    l.token = .finish := by
  unfold Piece.ofLexeme at h
  split at h
  · assumption
  · next t hfinish =>
    simp only at h
    split at h
    · cases h
    · exact h

theorem token_ofLexeme_of_invalid {l : Lexeme} (h : l.token = .invalid) :
    (Piece.ofLexeme l).token = .invalid := by
  rw [Piece.ofLexeme, h]
  simp [Token.startsLiteral]

theorem exists_of_map_eq_ok {ε α β : Type} {f : α → β} {x : Except ε α} {b : β}
    (h : x.map f = .ok b) : ∃ a, x = .ok a ∧ f a = b := by
  cases x with
  | error => cases h
  | ok a => exact ⟨a, rfl, Except.ok.inj h⟩

namespace Parser

/-- A token that a reader finds stands at the cursor. -/
theorem head_of_look {e : Expected} {c d : Cursor} {t : Token}
    (h : (look e).read c = some (.token t, d)) :
    ∃ p rest, d.pieces = p :: rest ∧ p.token = t := by
  have hsettled : Look.ofSettled (c.settle e) = some (.token t, d) := h
  generalize c.settle e = settled at hsettled
  obtain ⟨signal, d'⟩ := settled
  cases signal with
  | token =>
    obtain ⟨p, hp, heq⟩ := Option.map_eq_some_iff.mp hsettled
    cases heq
    obtain ⟨rest, hpieces⟩ := List.head?_eq_some_iff.mp hp
    exact ⟨p, rest, hpieces, rfl⟩
  | stray => cases hsettled
  | _ => cases hsettled

/-- A source that is read to its end is passed up to a last token. -/
theorem reaches_of_readAll {statement : Parser (List Statement)} {rounds : Nat} {c : Cursor}
    {found : List (List Statement)} (h : Module.readAll statement rounds c = .ok found) :
    ∃ d p rest, c.Reaches d ∧ d.pieces = p :: rest ∧ p.token = .finish := by
  induction rounds generalizing c found with
  | zero => cases h
  | succ rounds ih =>
    rw [Module.readAll] at h
    split at h
    · next d hlook =>
      obtain ⟨p, rest, hpieces, htoken⟩ := head_of_look hlook
      exact ⟨d, p, rest, (look .operand).reaches hlook, hpieces, htoken⟩
    · next t d hfinish hlook =>
      split at h
      · next first d' hstatement =>
        obtain ⟨others, hothers, -⟩ := exists_of_map_eq_ok h
        obtain ⟨e, p, rest, hreaches, hlast⟩ := ih hothers
        have hfirst := ((look .operand).reaches hlook).trans (statement.reaches hstatement)
        exact ⟨e, p, rest, hfirst.trans hreaches, hlast⟩
      · cases h
    · cases h

end Parser

/-- The grammar accepts no source in which a piece is no token. -/
theorem token_ne_invalid_of_mem {source : List Char} {m : Module}
    (h : Module.ofPieces (Piece.ofLexemes (lexemes source)) = .ok m) :
    ∀ p ∈ Piece.ofLexemes (lexemes source), p.token ≠ .invalid := by
  intro q hq
  obtain ⟨found, hread, -⟩ := exists_of_map_eq_ok h
  obtain ⟨d, p, rest, hreaches, hpieces, hfinish⟩ := Parser.reaches_of_readAll hread
  obtain ⟨passed, hpasses, hvalid⟩ := hreaches.passes
  have hsplit : Piece.ofLexemes (lexemes source) = passed ++ p :: rest := by
    have hstart := hpasses.pieces
    rwa [hpieces] at hstart
  have hlength := length_ofLexemes (lexemes source)
  -- the end of the source is the last of the pieces
  have hlast : (Piece.ofLexemes (lexemes source))[passed.length]? = some p := by
    rw [hsplit, List.getElem?_append_right (Nat.le_refl _), Nat.sub_self]
    rfl
  obtain ⟨l, gap, hl, -, rfl⟩ := exists_lexeme_of_getElem? hlast
  have hcount := eq_length_of_finish hl
    (token_ofLexeme_eq_finish (l := ⟨gap, l.text, l.token⟩) hfinish)
  rw [← lexemes, ← hlength, hsplit, List.length_append, List.length_cons] at hcount
  obtain rfl : rest = [] := List.eq_nil_of_length_eq_zero (by omega)
  -- so every other piece has been passed
  rw [hsplit] at hq
  obtain hq | hq := List.mem_append.mp hq
  · exact hvalid q hq
  · obtain rfl := List.mem_singleton.mp hq
    rw [hfinish]
    nofun

/-- The grammar accepts no source in which there is something else than tokens. -/
theorem token_ne_invalid_of_ofPieces {source : List Char} {m : Module}
    (h : Module.ofPieces (Piece.ofLexemes (lexemes source)) = .ok m) :
    ∀ l ∈ lexemes source, l.token ≠ .invalid := by
  intro l hl hinvalid
  obtain ⟨i, hi⟩ := List.mem_iff_getElem?.mp hl
  obtain ⟨hlt, -⟩ := List.getElem?_eq_some_iff.mp hi
  rw [← length_ofLexemes] at hlt
  obtain ⟨l', gap, hl', -, hp⟩ := exists_lexeme_of_getElem? (List.getElem?_eq_getElem hlt)
  rw [hi] at hl'
  cases hl'
  refine token_ne_invalid_of_mem h _ (List.getElem_mem hlt) ?_
  rw [hp]
  exact token_ofLexeme_of_invalid (l := ⟨gap, l.text, l.token⟩) hinvalid

/-- What the grammar accepts is refused where the check finds something. -/
theorem definitions_of_ok {text : List Char} {m : Module}
    (h : Module.ofPieces (Piece.ofLexemes (lexemes text)) = .ok m) :
    definitions text = match violation (placesOf (lexemes text)) m.body with
      | some problem => .error problem
      | none => .ok
        { docstring := (m.docstring? (lexemes text)).map String.ofList
          imports := Statement.importsOf m.body
          functions := Statement.functionsOf (lexemes text) m.body
          classes := Statement.classesOf (lexemes text) m.body } := by
  simp only [definitions, h]
  rfl

end SourceSurvey.Syntax
