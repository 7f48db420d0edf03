import Mathlib.Data.List.Chain
import SourceSurvey.Proofs.Blocks.LogicalLines

/-!
String literals side by side, in any number of parentheses and with comments between them, as runs of
lexemes. A source is read from left to right, so what such a run begins with and what comes behind it
tell all of the run: two of them cannot begin at the same place and differ.
-/

namespace SourceSurvey.Syntax

/-! ### Lexemes -/

/-- Lexemes as the grammar sees them. A byte order mark at the very start of a source is no text. -/
def Lexeme.unmarked : List Lexeme → List Lexeme
  | [] => []
  | first :: rest =>
    let gap := match first.gap with
      | '\ufeff' :: gap => gap
      | gap => gap
    { first with gap := gap } :: rest

theorem ofLexemes_eq (lexemes : List Lexeme) :
    Piece.ofLexemes lexemes = (Lexeme.unmarked lexemes).map Piece.ofLexeme := by
  cases lexemes with
  | nil => rfl
  | cons first rest => rfl

/-- A joined line stands on its own before the token. A literal takes the joined lines directly before
    it for blanks, unless a blank without width or a vertical tab stands among them. -/
def Lexeme.splices (l : Lexeme) : Bool :=
  l.gap.contains '\\' && (!l.token.startsLiteral || (Layout.ofGap l.gap).blocked)

/-- The token begins a line. -/
def Lexeme.breaks (l : Lexeme) : Bool := (Piece.ofLexeme l).layout.breaks

theorem splices_ofLexeme (l : Lexeme) : (Piece.ofLexeme l).splices = l.splices := by
  unfold Piece.splices Lexeme.splices Piece.ofLexeme
  split
  · next hfinish =>
    rw [hfinish, ← spliced_ofGap, Layout.atEnd]
    dsimp only
    split <;> rfl
  · dsimp only
    rw [spliced_ofGap]
    split
    · next hmasked =>
      rw [Bool.and_eq_true] at hmasked
      rw [blocked_of_masked hmasked.1, Bool.or_true, Bool.or_true]
    · rfl

/-- A token behind a line end begins a line. -/
theorem breaks_of_newline {l : Lexeme} {gap : List Char} (h : l.gap = '\n' :: gap) :
    l.breaks = true := by
  have hgap : (Layout.ofGap l.gap).breaks = true := by
    rw [h, Layout.ofGap, Layout.over]
    exact breaks_over rfl
  unfold Lexeme.breaks Piece.ofLexeme
  split
  · rw [Layout.atEnd]
    dsimp only
    split
    · exact hgap
    · rfl
  · exact hgap

/-! ### Comments -/

/-- Lexemes that are comments. -/
def Comments (list : List Lexeme) : Prop := ∀ l ∈ list, l.token = .comment

theorem comments_nil : Comments [] := List.forall_mem_nil _

theorem Comments.append {first second : List Lexeme} (h : Comments first) (h' : Comments second) :
    Comments (first ++ second) := List.forall_mem_append.mpr ⟨h, h'⟩

/-- The first lexeme that is no comment is the same however it is found. -/
theorem Comments.unique {first second more rest : List Lexeme} {l k : Lexeme} (h : Comments first)
    (h' : Comments second) (hl : l.token ≠ .comment) (hk : k.token ≠ .comment)
    (heq : first ++ l :: more = second ++ k :: rest) : first = second ∧ l = k ∧ more = rest := by
  induction first generalizing second with
  | nil =>
    cases second with
    | nil =>
      obtain ⟨rfl, rfl⟩ := List.cons.inj heq
      exact ⟨rfl, rfl, rfl⟩
    | cons c second =>
      obtain ⟨rfl, -⟩ := List.cons.inj heq
      exact absurd (h' _ List.mem_cons_self) hl
  | cons c first ih =>
    obtain ⟨hc, hfirst⟩ := List.forall_mem_cons.mp h
    cases second with
    | nil =>
      obtain ⟨rfl, -⟩ := List.cons.inj heq
      exact absurd hc hk
    | cons c' second =>
      obtain ⟨rfl, hrest⟩ := List.cons.inj heq
      obtain ⟨rfl, rfl, rfl⟩ := ih hfirst (List.forall_mem_cons.mp h').2 hrest
      exact ⟨rfl, rfl, rfl⟩

/-- A comment reaches to the end of its line: what comes behind it begins another. -/
def LinesEnd (list : List Lexeme) : Prop :=
  list.IsChain fun l k => l.token = .comment → k.token ≠ .invalid → k.breaks = true

theorem token_recogniseCode_comment {frames : List Frame} {c : Char} {rest : List Char}
    (h : (recogniseCode frames c rest).token = .comment) :
    (recogniseCode frames c rest).more = (rest.takeWhile isCommentChar).length ∧
      (recogniseCode frames c rest).frames = frames := by
  unfold recogniseCode at h ⊢
  repeat' split at h
  all_goals try cases h
  next hident hnumber hhash =>
    rw [if_neg hident, if_neg hnumber, if_pos hhash]
    exact ⟨rfl, rfl⟩

/-- A comment is found in code, up to where no character goes on with it, and code goes on. -/
theorem recognise_comment {frames : List Frame} {c : Char} {rest : List Char}
    (h : (recognise frames c rest).token = .comment) :
    (recognise frames c rest).more = (rest.takeWhile isCommentChar).length ∧
      Frame.isCode (recognise frames c rest).frames = true := by
  obtain ⟨behind, hbehind, heq⟩ := recognise_eq_code (by rw [h]; rfl)
  rw [heq] at h ⊢
  obtain ⟨hmore, hframes⟩ := token_recogniseCode_comment h
  exact ⟨hmore, by rw [hframes]; exact hbehind⟩

/-- A null character is no text of the grammar. -/
theorem recognise_null {frames : List Frame} (h : Frame.isCode frames = true) (rest : List Char) :
    (recognise frames '\x00' rest).token = .invalid := by
  have hcode : ∀ frames : List Frame, (recogniseCode frames '\x00' rest).token = .invalid := by
    intro frames
    have hquotation : Quotation.ofText? ('\x00' :: rest) = none := rfl
    have hstart : Text.isIdentStart '\x00' = false := by decide
    have hsymbol : Symbol.ofText? ('\x00' :: rest) = none := rfl
    rw [recogniseCode, hquotation]
    simp only [hstart, hsymbol]
    rfl
  cases frames with
  | nil => exact hcode []
  | cons frame outer =>
    cases frame with
    | hole depth lambdas spot =>
      rw [recognise, recogniseHole]
      simp [hcode []]
    | text q => cases h
    | format => cases h

/-- The first lexeme of a text. -/
theorem head?_lexemesFrom (frames : List Frame) (source : List Char) :
    (lexemesFrom frames source).head? = some
      (match source.drop (gapLengthIn frames source) with
      | [] => ⟨source, [], .finish⟩
      | c :: rest => ⟨source.take (gapLengthIn frames source),
          c :: rest.take (recognise frames c rest).more, (recognise frames c rest).token⟩) := by
  rw [lexemesFrom]
  split
  · next heq => rw [heq, List.head?_cons]
  · next heq => rw [heq, List.head?_cons]

/-- What is cut off behind a comment begins a line. -/
theorem breaks_behind_comment {frames : List Frame} (hcode : Frame.isCode frames = true)
    (text : List Char) : ∀ l ∈ (lexemesFrom frames (text.dropWhile isCommentChar)).head?,
      l.token ≠ .invalid → l.breaks = true := by
  intro l hl hvalid
  rw [head?_lexemesFrom, gapLengthIn_of_isCode hcode] at hl
  cases hrest : text.dropWhile isCommentChar with
  | nil =>
    rw [hrest] at hl
    cases hl
    rfl
  | cons c rest =>
    have hstops : isCommentChar c = false := by
      have hhead := List.head?_dropWhile_not isCommentChar text
      rw [hrest] at hhead
      simpa using hhead
    obtain rfl | rfl : c = '\n' ∨ c = '\x00' := by
      simpa [isCommentChar, or_iff_not_imp_left] using hstops
    · have hgap : gapLength ('\n' :: rest) = gapLength rest + 1 := gapLength_cons (by decide) rest
      rw [hrest, hgap] at hl
      split at hl
      · cases hl
        exact breaks_of_newline rfl
      · cases hl
        exact breaks_of_newline rfl
    · have hgap : gapLength ('\x00' :: rest) = 0 := gapLength_cons (by decide) rest
      rw [hrest, hgap] at hl
      cases hl
      exact absurd (recognise_null hcode rest) hvalid

theorem linesEnd_lexemesFrom (frames : List Frame) (source : List Char) :
    LinesEnd (lexemesFrom frames source) := by
  fun_induction lexemesFrom frames source with
  | case1 frames source gap h => exact List.isChain_singleton _
  | case2 frames source gap c rest h r ih =>
    refine List.isChain_cons.mpr ⟨fun l hl hcomment hvalid => ?_, ih⟩
    obtain ⟨hmore, hcode⟩ := recognise_comment hcomment
    rw [hmore, drop_length_takeWhile] at hl
    exact breaks_behind_comment hcode rest l hl hvalid

/-! ### Literals -/

/-- A literal without interpolations. -/
def Lexeme.Plain (l : Lexeme) : Prop := ∃ bare, l.token = .string bare

/-- A string literal, by the lexeme that it begins with. One with interpolations reaches to its end,
    whatever stands between. -/
inductive Literal : Lexeme → List Lexeme → Prop
  | plain {l : Lexeme} (hplain : l.Plain) : Literal l [l]
  | formatted {l last : Lexeme} {inside : List Lexeme} (hstart : l.token = .formatStart)
    (hend : last.token = .formatEnd) : Literal l (l :: (inside ++ [last]))

/-- What stands between two tokens does not separate them: inside parentheses these are comments and
    line ends, elsewhere there is neither. -/
def Joins (inside : Bool) (between : List Lexeme) (next : Lexeme) : Prop :=
  if inside then Comments between else between = [] ∧ next.breaks = false

/-- String literals side by side. -/
inductive Adjacent (inside : Bool) : List Lexeme → List Lexeme → Prop
  | one {l : Lexeme} {run : List Lexeme} (h : Literal l run) : Adjacent inside [l] run
  | more {l next : Lexeme} {run between rest literals : List Lexeme} (h : Literal l run)
    (hbetween : Joins inside between next) (hrest : Adjacent inside literals (next :: rest)) :
    Adjacent inside (l :: literals) (run ++ (between ++ next :: rest))

/-- String literals side by side, in so many parentheses with comments between the tokens. They are
    hidden if a joined line stands on its own beside a parenthesis, on its inner side. -/
inductive Enclosed : (inside : Bool) → (literals : List Lexeme) → (parentheses : Nat) →
    (hidden : Bool) → List Lexeme → Prop
  | bare {inside : Bool} {literals run : List Lexeme} (h : Adjacent inside literals run) :
    Enclosed inside literals 0 false run
  | parens {inside hidden : Bool} {n : Nat} {opening first closing : Lexeme}
    {literals before rest after : List Lexeme} (hopening : opening.token = .symbol .leftParen)
    (hbefore : Comments before) (h : Enclosed true literals n hidden (first :: rest))
    (hafter : Comments after) (hclosing : closing.token = .symbol .rightParen) :
    Enclosed inside literals (n + 1)
      (hidden || (before ++ [first]).any Lexeme.splices || (after ++ [closing]).any Lexeme.splices)
      (opening :: (before ++ first :: (rest ++ (after ++ [closing]))))

/-- The same with a comma behind the last literal or behind a closing parenthesis. -/
inductive Tupled : (inside : Bool) → List Lexeme → Prop
  | comma {inside hidden : Bool} {n : Nat} {comma : Lexeme} {literals run between : List Lexeme}
    (h : Enclosed inside literals n hidden run) (hbetween : Joins inside between comma)
    (hcomma : comma.token = .symbol .comma) : Tupled inside (run ++ (between ++ [comma]))
  | parens {inside : Bool} {opening first closing : Lexeme} {before rest after : List Lexeme}
    (hopening : opening.token = .symbol .leftParen) (hbefore : Comments before)
    (h : Tupled true (first :: rest)) (hafter : Comments after)
    (hclosing : closing.token = .symbol .rightParen) :
    Tupled inside (opening :: (before ++ first :: (rest ++ (after ++ [closing]))))

/-- What comes behind an expression ends it: a closing parenthesis inside parentheses, elsewhere the
    end of the line or a semicolon. -/
inductive Ends : (inside : Bool) → List Lexeme → Prop
  | closing {comments rest : List Lexeme} {closing : Lexeme} (hcomments : Comments comments)
    (hclosing : closing.token = .symbol .rightParen) : Ends true (comments ++ closing :: rest)
  | line {comments rest : List Lexeme} {l : Lexeme} (hcomments : Comments comments)
    (hl : l.breaks = true ∨ l.token = .symbol .semicolon) : Ends false (comments ++ l :: rest)

/-- No further literal follows side by side. -/
def Stops (inside : Bool) (rest : List Lexeme) : Prop :=
  ∀ between next more, rest = between ++ next :: more → Joins inside between next →
    next.token.startsLiteral = false

/-! ### Unique reading -/

section Unique

variable {inside hidden hidden' : Bool} {n n' : Nat} {l first next next' : Lexeme}
  {between between' literals literals' run run' rest rest' more more' : List Lexeme}

theorem Literal.exists_cons (h : Literal l run) : ∃ rest, run = l :: rest := by
  cases h with
  | plain => exact ⟨[], rfl⟩
  | formatted => exact ⟨_, rfl⟩

theorem Literal.startsLiteral (h : Literal l run) : l.token.startsLiteral = true := by
  cases h with
  | plain hplain =>
    obtain ⟨bare, htoken⟩ := hplain
    rw [htoken]
    rfl
  | formatted hstart _ =>
    rw [hstart]
    rfl

/-- A literal that begins like one without interpolations is the same. -/
theorem Literal.eq_singleton (h : Literal l run) (hplain : l.Plain) : run = [l] := by
  cases h with
  | plain => rfl
  | formatted hstart _ =>
    obtain ⟨bare, htoken⟩ := hplain
    rw [hstart] at htoken
    cases htoken

theorem ne_comment_of_startsLiteral (h : l.token.startsLiteral = true) : l.token ≠ .comment := by
  intro hcomment
  rw [hcomment] at h
  cases h

theorem Joins.unique (h : Joins inside between next) (h' : Joins inside between' next')
    (hnext : next.token ≠ .comment) (hnext' : next'.token ≠ .comment)
    (heq : between ++ next :: more = between' ++ next' :: more') :
    between = between' ∧ next = next' ∧ more = more' := by
  cases inside with
  | true => exact Comments.unique h h' hnext hnext' heq
  | false =>
    obtain ⟨rfl, -⟩ : between = [] ∧ next.breaks = false := h
    obtain ⟨rfl, -⟩ : between' = [] ∧ next'.breaks = false := h'
    obtain ⟨rfl, rfl⟩ := List.cons.inj heq
    exact ⟨rfl, rfl, rfl⟩

theorem Adjacent.head (h : Adjacent inside literals run) :
    ∃ first rest, run = first :: rest ∧ first.token.startsLiteral = true := by
  cases h with
  | one h =>
    obtain ⟨rest, rfl⟩ := h.exists_cons
    exact ⟨_, rest, rfl, h.startsLiteral⟩
  | more h _ _ =>
    obtain ⟨rest, rfl⟩ := h.exists_cons
    exact ⟨_, _, rfl, h.startsLiteral⟩

theorem Adjacent.startsLiteral (h : Adjacent inside literals (first :: rest)) :
    first.token.startsLiteral = true := by
  obtain ⟨first', rest', heq, hstarts⟩ := h.head
  cases heq
  exact hstarts

/-- Literals side by side begin with a literal, and others with a parenthesis. -/
theorem Enclosed.head (h : Enclosed inside literals n hidden run) :
    ∃ first rest, run = first :: rest ∧
      (first.token.startsLiteral = true ∨ first.token = .symbol .leftParen) := by
  cases h with
  | bare h =>
    obtain ⟨first, rest, rfl, hstarts⟩ := h.head
    exact ⟨first, rest, rfl, .inl hstarts⟩
  | parens hopening => exact ⟨_, _, rfl, .inr hopening⟩

theorem Enclosed.ne_comment (h : Enclosed inside literals n hidden (first :: rest)) :
    first.token ≠ .comment := by
  obtain ⟨first', rest', heq, hstarts | hopening⟩ := h.head
  · cases heq
    exact ne_comment_of_startsLiteral hstarts
  · cases heq
    rw [hopening]
    nofun

theorem Tupled.ne_comment (h : Tupled inside run) (hrun : run = first :: rest) :
    first.token ≠ .comment := by
  cases h with
  | comma h _ _ =>
    obtain ⟨first', rest', rfl, -⟩ := h.head
    obtain ⟨rfl, -⟩ := List.cons.inj hrun
    exact h.ne_comment
  | parens hopening =>
    obtain ⟨rfl, -⟩ := List.cons.inj hrun
    rw [hopening]
    nofun

theorem Ends.stops (h : Ends inside rest) : Stops inside rest := by
  intro between next more heq hjoins
  refine Bool.eq_false_iff.mpr fun hstarts => ?_
  have hnext := ne_comment_of_startsLiteral hstarts
  cases h with
  | closing hcomments hclosing =>
    obtain ⟨-, rfl, -⟩ := hcomments.unique hjoins (by rw [hclosing]; nofun) hnext heq
    rw [hclosing] at hstarts
    cases hstarts
  | @line comments _ _ hcomments hl =>
    obtain ⟨rfl, hbreaks⟩ : between = [] ∧ next.breaks = false := hjoins
    cases comments with
    | nil =>
      obtain ⟨rfl, -⟩ := List.cons.inj heq
      obtain hl | hl := hl
      · rw [hbreaks] at hl
        cases hl
      · rw [hl] at hstarts
        cases hstarts
    | cons c comments =>
      obtain ⟨rfl, -⟩ := List.cons.inj heq
      exact hnext (hcomments _ List.mem_cons_self)

theorem Ends.before {comments : List Lexeme} (h : Ends inside rest) (hcomments : Comments comments) :
    Ends inside (comments ++ rest) := by
  cases h with
  | closing hbehind hclosing =>
    rw [← List.append_assoc]
    exact .closing (hcomments.append hbehind) hclosing
  | line hbehind hl =>
    rw [← List.append_assoc]
    exact .line (hcomments.append hbehind) hl

/-- No comma that belongs to an expression comes behind its end. -/
theorem Ends.ne_comma (h : Ends inside rest) {comma : Lexeme}
    (hcomma : comma.token = .symbol .comma) (hjoins : Joins inside between comma) :
    rest ≠ between ++ comma :: more := by
  intro heq
  have hnext : comma.token ≠ .comment := by rw [hcomma]; nofun
  cases h with
  | closing hcomments hclosing =>
    obtain ⟨-, rfl, -⟩ := hcomments.unique hjoins (by rw [hclosing]; nofun) hnext heq
    rw [hclosing] at hcomma
    cases hcomma
  | @line comments _ _ hcomments hl =>
    obtain ⟨rfl, hbreaks⟩ : between = [] ∧ comma.breaks = false := hjoins
    cases comments with
    | nil =>
      obtain ⟨rfl, -⟩ := List.cons.inj heq
      obtain hl | hl := hl
      · rw [hbreaks] at hl
        cases hl
      · rw [hl] at hcomma
        cases hcomma
    | cons c comments =>
      obtain ⟨rfl, -⟩ := List.cons.inj heq
      exact hnext (hcomments _ List.mem_cons_self)

theorem Adjacent.unique (h : Adjacent inside literals run) (h' : Adjacent inside literals' run')
    (hplain : ∀ l ∈ literals, l.Plain) (heq : run ++ rest = run' ++ rest')
    (hstops : Stops inside rest) (hstops' : Stops inside rest') :
    literals = literals' ∧ run = run' ∧ rest = rest' := by
  induction h generalizing literals' run' with
  | one h =>
    have hone := hplain _ List.mem_cons_self
    obtain rfl := h.eq_singleton hone
    cases h' with
    | one h' =>
      obtain ⟨tail, rfl⟩ := h'.exists_cons
      obtain ⟨rfl, -⟩ := List.cons.inj heq
      rw [h'.eq_singleton hone] at heq ⊢
      exact ⟨rfl, rfl, List.cons.inj heq |>.2⟩
    | more h' hbetween hmore =>
      obtain ⟨tail, rfl⟩ := h'.exists_cons
      obtain ⟨rfl, -⟩ := List.cons.inj heq
      rw [h'.eq_singleton hone] at heq
      have hfollows := hstops _ _ _ (by simpa using heq) hbetween
      rw [hmore.startsLiteral] at hfollows
      cases hfollows
  | @more l next run between tail literals h hbetween hmore ih =>
    obtain ⟨hone, hothers⟩ := List.forall_mem_cons.mp hplain
    obtain rfl := h.eq_singleton hone
    have hnext := ne_comment_of_startsLiteral hmore.startsLiteral
    cases h' with
    | one h' =>
      obtain ⟨tail', rfl⟩ := h'.exists_cons
      obtain ⟨rfl, -⟩ := List.cons.inj heq
      rw [h'.eq_singleton hone] at heq
      have hfollows := hstops' between next (tail ++ rest) (by simpa using heq.symm) hbetween
      rw [hmore.startsLiteral] at hfollows
      cases hfollows
    | @more _ next' _ between' tail' _ h' hbetween' hmore' =>
      obtain ⟨tail'', rfl⟩ := h'.exists_cons
      obtain ⟨rfl, -⟩ := List.cons.inj heq
      rw [h'.eq_singleton hone] at heq ⊢
      have hbehind : between ++ next :: (tail ++ rest) =
          between' ++ next' :: (tail' ++ rest') := by simpa using heq
      obtain ⟨rfl, rfl, hsame⟩ := hbetween.unique hbetween' hnext
        (ne_comment_of_startsLiteral hmore'.startsLiteral) hbehind
      obtain ⟨rfl, htail, rfl⟩ := ih hmore' hothers (congrArg (next :: ·) hsame)
      obtain ⟨-, rfl⟩ := List.cons.inj htail
      exact ⟨rfl, rfl, rfl⟩

theorem Enclosed.unique (h : Enclosed inside literals n hidden run)
    (h' : Enclosed inside literals' n' hidden' run') (hplain : ∀ l ∈ literals, l.Plain)
    (heq : run ++ rest = run' ++ rest') (hstops : Stops inside rest)
    (hstops' : Stops inside rest') :
    literals = literals' ∧ n = n' ∧ hidden = hidden' ∧ run = run' ∧ rest = rest' := by
  induction h generalizing literals' n' hidden' run' rest rest' with
  | bare h =>
    cases h' with
    | bare h' =>
      obtain ⟨rfl, rfl, rfl⟩ := h.unique h' hplain heq hstops hstops'
      exact ⟨rfl, rfl, rfl, rfl, rfl⟩
    | parens hopening =>
      obtain ⟨first, tail, rfl, hstarts⟩ := h.head
      obtain ⟨rfl, -⟩ := List.cons.inj heq
      rw [hopening] at hstarts
      cases hstarts
  | @parens _ _ _ opening first closing literals before tail after hopening hbefore h hafter
      hclosing ih =>
    cases h' with
    | bare h' =>
      obtain ⟨first, tail, rfl, hstarts⟩ := h'.head
      obtain ⟨rfl, -⟩ := List.cons.inj heq
      rw [hopening] at hstarts
      cases hstarts
    | @parens _ _ _ _ first' closing' _ before' tail' after' hopening' hbefore' h' hafter'
        hclosing' =>
      obtain ⟨rfl, hinner⟩ := List.cons.inj heq
      have hinner : before ++ first :: (tail ++ (after ++ closing :: rest)) =
          before' ++ first' :: (tail' ++ (after' ++ closing' :: rest')) := by simpa using hinner
      obtain ⟨rfl, rfl, hsame⟩ := hbefore.unique hbefore' h.ne_comment h'.ne_comment hinner
      have hends : Ends true (after ++ closing :: rest) := .closing hafter hclosing
      have hends' : Ends true (after' ++ closing' :: rest') := .closing hafter' hclosing'
      obtain ⟨rfl, rfl, rfl, htail, hbehind⟩ := ih h' hplain (congrArg (first :: ·) hsame)
        hends.stops hends'.stops
      obtain ⟨-, rfl⟩ := List.cons.inj htail
      obtain ⟨rfl, rfl, rfl⟩ := hafter.unique hafter' (by rw [hclosing]; nofun)
        (by rw [hclosing']; nofun) hbehind
      exact ⟨rfl, rfl, rfl, rfl, rfl⟩

/-- No literals stand where the same with a comma does. -/
theorem Tupled.not_enclosed (h : Tupled inside run)
    (h' : Enclosed inside literals n hidden run') (hplain : ∀ l ∈ literals, l.Plain)
    (hends : Ends inside rest') : run ++ rest ≠ run' ++ rest' := by
  intro heq
  induction h generalizing literals n hidden run' rest rest' with
  | @comma inside hidden₀ m comma literals₀ run₀ between h hbetween hcomma =>
    have hstops : Stops inside (between ++ comma :: rest) := by
      intro between' next more hbehind hjoins
      refine Bool.eq_false_iff.mpr fun hstarts => ?_
      obtain ⟨-, rfl, -⟩ := hbetween.unique hjoins (by rw [hcomma]; nofun)
        (ne_comment_of_startsLiteral hstarts) hbehind
      rw [hcomma] at hstarts
      cases hstarts
    have heq : run' ++ rest' = run₀ ++ (between ++ comma :: rest) := by simpa using heq.symm
    obtain ⟨-, -, -, -, hbehind⟩ := h'.unique h hplain heq hends.stops hstops
    exact hends.ne_comma hcomma hbetween hbehind
  | @parens inside opening first closing before tail after hopening hbefore h hafter hclosing ih =>
    cases h' with
    | bare h' =>
      obtain ⟨first, tail, rfl, hstarts⟩ := h'.head
      obtain ⟨rfl, -⟩ := List.cons.inj heq
      rw [hopening] at hstarts
      cases hstarts
    | @parens _ _ _ _ first' closing' _ before' tail' after' hopening' hbefore' h' hafter'
        hclosing' =>
      obtain ⟨rfl, hinner⟩ := List.cons.inj heq
      have hinner : before ++ first :: (tail ++ (after ++ closing :: rest)) =
          before' ++ first' :: (tail' ++ (after' ++ closing' :: rest')) := by simpa using hinner
      obtain ⟨-, rfl, hsame⟩ :=
        hbefore.unique hbefore' (h.ne_comment rfl) h'.ne_comment hinner
      exact ih h' hplain (.closing hafter' hclosing') (congrArg (first :: ·) hsame)

end Unique

end SourceSurvey.Syntax
