import Mathlib.Data.List.Sort
import SourceSurvey.Proofs.Balance.Statements
import SourceSurvey.Proofs.Blocks.PhysicalLines
import SourceSurvey.Proofs.Blocks.Snippets

/-!
The check of indentation looks at lines that it finds by the statements of a source. Where every
logical line begins with a statement, and no line that it looks at is joined to the one before, these
lines are the logical lines, and what it finds is what is wrong first with their indentation.
-/

namespace SourceSurvey.Syntax

/-! ### Logical lines -/

/-- What stands before the end of some blanks on its logical line, backwards, given what stands
    before the blanks. The line goes on over a line end that a backslash joins; the backslash is
    kept. -/
def logicalMargin (before : List Char) : List Char → List Char
  | [] => before
  | '\\' :: '\n' :: rest => logicalMargin ('\\' :: before) rest
  | '\\' :: '\r' :: '\n' :: rest => logicalMargin ('\\' :: before) rest
  | c :: rest => logicalMargin (if c = '\n' || c = '\r' then [] else c :: before) rest

/-- What comes before a token on its logical line, backwards. -/
def logicalMarginAt (lexemes : List Lexeme) (t : Nat) : List Char :=
  logicalMargin (Place.start.over (Lexeme.joined (lexemes.take t))).margin
    ((lexemes[t]?.map Lexeme.gap).getD [])

/-- Whether a token is the first of a logical line: it stands outside all brackets and literals, and
    only blanks come before it on that line. -/
def beginsLogicalLine (lexemes : List Lexeme) (t : Nat) : Bool :=
  match lexemes[t]? with
  | none => false
  | some l =>
    l.token ≠ .comment && l.token ≠ .finish &&
      nesting ((lexemes.take t).map Lexeme.token) = 0 &&
        (logicalMarginAt lexemes t).all fun c => isSeparator c || c == '\\'

/-- The first tokens of the logical lines of a source. -/
def logicalLines (lexemes : List Lexeme) : List Nat :=
  (List.range lexemes.length).filter (beginsLogicalLine lexemes)

/-- The indentation of the logical line that a token begins. -/
def leadingAt (lexemes : List Lexeme) (t : Nat) : List Char :=
  (logicalMarginAt lexemes t).reverse.takeWhile isIndentChar

/-- The statements of a source begin where its logical lines do. -/
structure LineByLine (lexemes : List Lexeme) (body : List Statement) : Prop where
  /-- No line is looked at that a backslash joins to the one before. A statement behind a semicolon
      may begin such a line. -/
  unjoined : ∀ t ∈ linesOf lexemes body, '\\' ∉ logicalMarginAt lexemes t
  /-- No statement goes on over the end of a logical line, as the grammar lets it where nothing may
      end. -/
  begun : ∀ t ∈ logicalLines lexemes, t ∈ startsOf body
  /-- No line begins with blanks that have no width, but for a mark at the start of the source. -/
  indented : ∀ t ∈ logicalLines lexemes,
    (placeAt (placesOf lexemes) t).margin.all isIndentChar = true ∨
      t = 0 ∧ leadingAt lexemes t = []

/-! ### Margins -/

/-- Where no line is joined, the margin is all that comes before on the logical line. -/
theorem margin_eq_logicalMargin {before gap : List Char} {p : Place}
    (h : '\\' ∉ logicalMargin before gap) (hp : p.margin = before ∨ '\\' ∈ before) :
    (p.over gap).margin = logicalMargin before gap := by
  fun_induction logicalMargin before gap generalizing p with
  | case1 before =>
    obtain hp | hp := hp
    · exact hp
    · exact absurd hp h
  | case2 before rest ih => exact ih h (.inr List.mem_cons_self)
  | case3 before rest ih => exact ih h (.inr List.mem_cons_self)
  | case4 before c rest hnext hnext' ih =>
    refine ih h ?_
    simp only [Place.after, Bool.or_eq_true, decide_eq_true_eq]
    split
    · exact .inl rfl
    · exact hp.imp (congrArg _) (List.mem_cons_of_mem _)

section Lexemes

variable {lexemes : List Lexeme} {t : Nat}

theorem margin_placeAt (ht : t < lexemes.length) (h : '\\' ∉ logicalMarginAt lexemes t) :
    (placeAt (placesOf lexemes) t).margin = logicalMarginAt lexemes t := by
  have hl := List.getElem?_eq_getElem ht
  rw [placeAt_placesOf hl]
  rw [logicalMarginAt, hl] at h ⊢
  exact margin_eq_logicalMargin h (.inl rfl)

theorem mem_logicalLines_iff :
    t ∈ logicalLines lexemes ↔ ∃ l, lexemes[t]? = some l ∧ l.token ≠ .comment ∧
      l.token ≠ .finish ∧ nesting ((lexemes.take t).map Lexeme.token) = 0 ∧
        (logicalMarginAt lexemes t).all (fun c => isSeparator c || c == '\\') = true := by
  rw [logicalLines, List.mem_filter, List.mem_range, beginsLogicalLine]
  constructor
  · rintro ⟨ht, h⟩
    rw [List.getElem?_eq_getElem ht] at h ⊢
    simp only [Bool.and_eq_true, decide_eq_true_eq] at h
    exact ⟨_, rfl, h.1.1.1, h.1.1.2, h.1.2, h.2⟩
  · rintro ⟨l, hl, hcomment, hfinish, hnesting, hblank⟩
    obtain ⟨ht, -⟩ := List.getElem?_eq_some_iff.mp hl
    refine ⟨ht, ?_⟩
    rw [hl]
    simp only [Bool.and_eq_true, decide_eq_true_eq]
    exact ⟨⟨⟨hcomment, hfinish⟩, hnesting⟩, hblank⟩

theorem isSeparator_of_isIndentChar {c : Char} (h : isIndentChar c = true) :
    isSeparator c = true := by
  simp only [isIndentChar, Bool.or_eq_true, beq_iff_eq] at h
  obtain (rfl | rfl) | rfl := h <;> rfl

/-- Only indentation comes before a token that is looked at. -/
theorem margin_of_mem_linesAt {places : Array Place} {last : Option Nat} {marks : List Mark}
    (h : t ∈ linesAt places last marks) : (placeAt places t).margin.all isIndentChar = true := by
  fun_induction linesAt places last marks with
  | case1 => cases h
  | case2 last u keyword rest ih => exact ih h
  | case3 last u rest place hline ih =>
    obtain rfl | h := List.mem_cons.mp h
    · rw [Bool.and_eq_true] at hline
      exact hline.1
    · exact ih h
  | case4 last u rest place hline ih => exact ih h

end Lexemes

/-! ### Tokens -/

theorem token_ofLexeme {l : Lexeme} (h : (Piece.ofLexeme l).token ≠ .invalid) :
    (Piece.ofLexeme l).token = l.token := by
  unfold Piece.ofLexeme at h ⊢
  split
  · next hfinish => exact hfinish.symm
  · next hfinish =>
    split at h
    · contradiction
    · simp only at h ⊢
      split at h
      · exact absurd rfl h
      · next hmasked => rw [if_neg hmasked]

/-- The tokens that the grammar sees in what it accepts are those that were cut off. -/
theorem map_token_ofLexemes {lexemes : List Lexeme}
    (h : ∀ p ∈ Piece.ofLexemes lexemes, p.token ≠ .invalid) :
    (Piece.ofLexemes lexemes).map Piece.token = lexemes.map Lexeme.token := by
  cases lexemes with
  | nil => rfl
  | cons first rest =>
    obtain ⟨hfirst, hrest⟩ := List.forall_mem_cons.mp h
    rw [Piece.ofLexemes, List.map_cons, List.map_cons, token_ofLexeme hfirst, List.map_map]
    exact congrArg _ (List.map_congr_left fun l hl =>
      token_ofLexeme (hrest _ (List.mem_map_of_mem hl)))

/-! ### Runs -/

/-- Checks one more line, given by its indentation and its number. -/
def IndentStack.pass (stack : IndentStack) (line : List Char × Nat) :
    Except Problem IndentStack :=
  (stack.check line.1).mapError (.indentation · line.2)

/-- What a run over lines finds. -/
def problemOf : Except Problem IndentStack → Option Problem
  | .ok _ => none
  | .error problem => some problem

section Runs

variable {lines : List (List Char × Nat)} {stack : IndentStack}

theorem foldlM_pass_of_ok {final : IndentStack}
    (h : (lines.map Prod.fst).foldlM IndentStack.check stack = .ok final) :
    lines.foldlM IndentStack.pass stack = .ok final := by
  induction lines generalizing stack with
  | nil =>
    cases h
    rfl
  | cons line lines ih =>
    rw [List.map_cons, List.foldlM_cons] at h
    rw [List.foldlM_cons, IndentStack.pass]
    cases hcheck : stack.check line.1 with
    | error problem =>
      rw [hcheck] at h
      cases h
    | ok next =>
      rw [hcheck] at h
      exact ih h

/-- A run finds something if and only if the check fails on the indentations. -/
theorem problemOf_foldlM_iff :
    (∃ problem line, problemOf (lines.foldlM IndentStack.pass stack) =
        some (.indentation problem line)) ↔
      ∃ problem, (lines.map Prod.fst).foldlM IndentStack.check stack = .error problem := by
  induction lines generalizing stack with
  | nil => exact ⟨nofun, nofun⟩
  | cons line lines ih =>
    rw [List.map_cons, List.foldlM_cons, List.foldlM_cons, IndentStack.pass]
    cases stack.check line.1 with
    | error problem => exact ⟨fun _ => ⟨problem, rfl⟩, fun _ => ⟨problem, line.2, rfl⟩⟩
    | ok next => exact ih

/-- A run stops at the first line on which the check fails. -/
theorem foldlM_pass_of_error {before after : List (List Char × Nat)} {line : List Char × Nat}
    {problem : IndentProblem} {next : IndentStack}
    (hbefore : (before.map Prod.fst).foldlM IndentStack.check stack = .ok next)
    (hline : next.check line.1 = .error problem) :
    (before ++ line :: after).foldlM IndentStack.pass stack =
      .error (.indentation problem line.2) := by
  rw [List.foldlM_append, foldlM_pass_of_ok hbefore]
  change (line :: after).foldlM IndentStack.pass next = _
  rw [List.foldlM_cons, IndentStack.pass, hline]
  rfl

/-- What the check of indentation finds is what a run over the lines finds at which it looks. -/
theorem violationAt_eq_problemOf {places : Array Place} {last : Option Nat} {marks : List Mark}
    (hmodern : ∀ t keyword, .legacy t keyword ∉ marks) :
    violationAt places stack last marks =
      problemOf (((linesAt places last marks).map fun t =>
        ((placeAt places t).margin.reverse, (placeAt places t).line)).foldlM
          IndentStack.pass stack) := by
  fun_induction linesAt places last marks generalizing stack
  case case1 => rfl
  case case2 last t keyword rest ih => exact absurd List.mem_cons_self (hmodern t keyword)
  case case3 last t rest place hline ih =>
    have hrest : ∀ t keyword, .legacy t keyword ∉ rest := fun t keyword h =>
      hmodern t keyword (List.mem_cons_of_mem _ h)
    have hcheck : stack.check (placeAt places t).margin.reverse =
        stack.accept (placeAt places t).indent := rfl
    rw [violationAt_line, if_pos hline, List.map_cons, List.foldlM_cons, IndentStack.pass, hcheck]
    cases stack.accept (placeAt places t).indent with
    | error problem => rfl
    | ok next => exact ih hrest
  case case4 last t rest place hline ih =>
    rw [violationAt_line, if_neg hline]
    exact ih fun t keyword h => hmodern t keyword (List.mem_cons_of_mem _ h)

end Runs

/-! ### Accepted sources -/

/-- The number of the line that a token is on, with the indentation of its logical line. -/
def lineAt (lexemes : List Lexeme) (t : Nat) : List Char × Nat :=
  (leadingAt lexemes t, (placeAt (placesOf lexemes) t).line)

section Accepted

variable {text : List Char} {m : Module} {t : Nat}
  (hmodule : Module.ofPieces (Piece.ofLexemes (lexemes text)) = .ok m)

include hmodule

theorem ascending_startsOf : (startsOf m.body).Pairwise (· < ·) := by
  obtain ⟨d, hbegins, -⟩ := begins_of_ofPieces hmodule
  exact hbegins.ascending

/-- A statement begins with a token outside all brackets that is not the end of the source. -/
theorem exists_lexeme_of_mem_startsOf (ht : t ∈ startsOf m.body) :
    ∃ l, (lexemes text)[t]? = some l ∧ l.token ≠ .comment ∧ l.token ≠ .finish ∧
      nesting (((lexemes text).take t).map Lexeme.token) = 0 := by
  obtain ⟨d, hbegins, hend⟩ := begins_of_ofPieces hmodule
  obtain ⟨p, hp, hcomment, hnesting⟩ := hbegins.outside t ht
  have htokens := map_token_ofLexemes (token_ne_invalid_of_mem hmodule)
  have hlexeme := congrArg (fun tokens => tokens[t]?) htokens
  simp only [List.getElem?_map, hp] at hlexeme
  obtain ⟨l, hl, htoken⟩ := Option.map_eq_some_iff.mp hlexeme.symm
  refine ⟨l, hl, htoken ▸ hcomment, fun hfinish => ?_, ?_⟩
  · have hcount : t + 1 = (lexemes text).length := eq_length_of_finish hl hfinish
    have hbefore := (hbegins.between t ht).2
    rw [length_ofLexemes] at hend
    omega
  · rw [List.map_take, ← htokens, ← List.map_take]
    exact hnesting

theorem lt_length_of_mem_startsOf (ht : t ∈ startsOf m.body) : t < (lexemes text).length := by
  obtain ⟨l, hl, -⟩ := exists_lexeme_of_mem_startsOf hmodule ht
  obtain ⟨hlt, -⟩ := List.getElem?_eq_some_iff.mp hl
  exact hlt

/-- The lines that are looked at are those on which a statement, a clause or a decorator comes first,
    with nothing but indentation before it. -/
theorem mem_linesOf_iff (hmodern : ∀ t keyword, .legacy t keyword ∉ Statement.marksOf m.body) :
    t ∈ linesOf (lexemes text) m.body ↔ t ∈ startsOf m.body ∧
      (placeAt (placesOf (lexemes text)) t).margin.all isIndentChar = true := by
  refine ⟨fun ht => ⟨(sublist_linesOf _ _).subset ht, margin_of_mem_linesAt ht⟩, ?_⟩
  rintro ⟨hstart, hmargin⟩
  obtain ⟨mark, hmark, hsame⟩ := List.mem_map.mp hstart
  have hline : .line t ∈ Statement.marksOf m.body := by
    cases mark with
    | line u =>
      obtain rfl : u = t := hsame
      exact hmark
    | legacy u keyword => exact absurd hmark (hmodern u keyword)
  have hblank : (placeAt (placesOf (lexemes text)) t).margin.all isSeparator = true :=
    List.all_eq_true.mpr fun c hc =>
      isSeparator_of_isIndentChar (List.all_eq_true.mp hmargin c hc)
  refine mem_linesAt (ascending_startsOf hmodule) hline hmargin nofun fun u hu => ?_
  exact marginStart_ne_of_blank (token_ne_invalid_of_ofPieces hmodule)
    (lt_length_of_mem_startsOf hmodule hstart) hblank hu

variable (hlines : LineByLine (lexemes text) m.body)

include hlines

/-- The margin of a line that is looked at is the indentation of a logical line. -/
theorem logicalMarginAt_of_mem_linesOf (ht : t ∈ linesOf (lexemes text) m.body) :
    logicalMarginAt (lexemes text) t = (placeAt (placesOf (lexemes text)) t).margin :=
  (margin_placeAt (lt_length_of_mem_startsOf hmodule ((sublist_linesOf _ _).subset ht))
    (hlines.unjoined t ht)).symm

theorem leadingAt_of_mem_linesOf (ht : t ∈ linesOf (lexemes text) m.body) :
    leadingAt (lexemes text) t = (placeAt (placesOf (lexemes text)) t).margin.reverse := by
  have hmargin := margin_of_mem_linesAt ht
  rw [leadingAt, logicalMarginAt_of_mem_linesOf hmodule hlines ht]
  refine List.takeWhile_eq_self_iff.mpr fun c hc => ?_
  exact List.all_eq_true.mp hmargin c (List.mem_reverse.mp hc)

/-- A line that is looked at is a logical line. -/
theorem mem_logicalLines_of_mem_linesOf (ht : t ∈ linesOf (lexemes text) m.body) :
    t ∈ logicalLines (lexemes text) := by
  have hstart := (sublist_linesOf _ _).subset ht
  obtain ⟨l, hl, hcomment, hfinish, hnesting⟩ := exists_lexeme_of_mem_startsOf hmodule hstart
  refine mem_logicalLines_iff.mpr ⟨l, hl, hcomment, hfinish, hnesting, ?_⟩
  rw [logicalMarginAt_of_mem_linesOf hmodule hlines ht]
  refine List.all_eq_true.mpr fun c hc => ?_
  have hindent := List.all_eq_true.mp (margin_of_mem_linesAt ht) c hc
  rw [isSeparator_of_isIndentChar hindent, Bool.true_or]

variable (hmodern : ∀ t keyword, .legacy t keyword ∉ Statement.marksOf m.body)

include hmodern

/-- A logical line is looked at, unless it is the first and not indented. -/
theorem mem_linesOf_of_mem_logicalLines (ht : t ∈ logicalLines (lexemes text)) :
    t ∈ linesOf (lexemes text) m.body ∨ t = 0 ∧ leadingAt (lexemes text) t = [] :=
  (hlines.indented t ht).imp_left fun hmargin =>
    (mem_linesOf_iff hmodule hmodern).mpr ⟨hlines.begun t ht, hmargin⟩

/-- The lines that are looked at are the logical lines, up to a first one that is not indented. -/
theorem logicalLines_eq_linesOf :
    logicalLines (lexemes text) = linesOf (lexemes text) m.body ∨
      logicalLines (lexemes text) = 0 :: linesOf (lexemes text) m.body ∧
        leadingAt (lexemes text) 0 = [] := by
  have hlogical : (logicalLines (lexemes text)).Pairwise (· < ·) :=
    List.pairwise_lt_range.filter _
  have hlooked : (linesOf (lexemes text) m.body).Pairwise (· < ·) :=
    (ascending_startsOf hmodule).sublist (sublist_linesOf _ _)
  have hsub := fun t => mem_logicalLines_of_mem_linesOf (t := t) hmodule hlines
  have hsup := fun t => mem_linesOf_of_mem_logicalLines (t := t) hmodule hlines hmodern
  by_cases hall : ∀ t ∈ logicalLines (lexemes text), t ∈ linesOf (lexemes text) m.body
  · exact .inl (hlogical.eq_of_mem_iff hlooked fun t => ⟨hall t, hsub t⟩)
  · refine .inr ?_
    push Not at hall
    obtain ⟨t, ht, hmissing⟩ := hall
    obtain hin | ⟨rfl, hleading⟩ := hsup t ht
    · exact absurd hin hmissing
    refine ⟨hlogical.eq_of_mem_iff (List.pairwise_cons.mpr ⟨fun u hu => ?_, hlooked⟩) fun u => ?_,
      hleading⟩
    · exact Nat.pos_of_ne_zero fun hzero => hmissing (hzero ▸ hu)
    · rw [List.mem_cons]
      constructor
      · intro hu
        obtain hu | ⟨rfl, -⟩ := hsup u hu
        · exact .inr hu
        · exact .inl rfl
      · rintro (rfl | hu)
        · exact ht
        · exact hsub u hu

/-- What the check of indentation finds is what a run over the logical lines finds. -/
theorem violation_eq_problemOf :
    violation (placesOf (lexemes text)) m.body =
      problemOf (((logicalLines (lexemes text)).map (lineAt (lexemes text))).foldlM
        IndentStack.pass .base) := by
  have hlooked : ((linesOf (lexemes text) m.body).map fun t =>
      ((placeAt (placesOf (lexemes text)) t).margin.reverse,
        (placeAt (placesOf (lexemes text)) t).line)) =
      (linesOf (lexemes text) m.body).map (lineAt (lexemes text)) :=
    List.map_congr_left fun t ht =>
      congrArg (·, _) (leadingAt_of_mem_linesOf hmodule hlines ht).symm
  have hfound : violation (placesOf (lexemes text)) m.body = _ := violationAt_eq_problemOf hmodern
  rw [← linesOf, hlooked] at hfound
  obtain heq | ⟨heq, hleading⟩ := logicalLines_eq_linesOf hmodule hlines hmodern
  · rw [heq]
    exact hfound
  · -- a line that is not indented changes nothing at the start
    rw [heq, List.map_cons, List.foldlM_cons, lineAt, hleading]
    exact hfound

end Accepted

/-- The check of indentation finds something in an accepted source whose statements and lines fit
    together if and only if the indentations of its logical lines, one after the other, do not pass,
    and it reports the first line that does not. -/
theorem violation_iff_logicalLines {text : List Char} {m : Module}
    (hmodule : Module.ofPieces (Piece.ofLexemes (lexemes text)) = .ok m)
    (hmodern : ∀ t keyword, .legacy t keyword ∉ Statement.marksOf m.body)
    (hlines : LineByLine (lexemes text) m.body) :
    ((∃ problem line, violation (placesOf (lexemes text)) m.body =
          some (.indentation problem line)) ↔
        ∃ problem, ((logicalLines (lexemes text)).map (leadingAt (lexemes text))).foldlM
          IndentStack.check .base = .error problem) ∧
      ∀ before t after stack problem, logicalLines (lexemes text) = before ++ t :: after →
        (before.map (leadingAt (lexemes text))).foldlM IndentStack.check .base = .ok stack →
        stack.check (leadingAt (lexemes text) t) = .error problem →
        violation (placesOf (lexemes text)) m.body =
          some (.indentation problem (placeAt (placesOf (lexemes text)) t).line) := by
  have hleading : ∀ lines : List Nat, (lines.map (lineAt (lexemes text))).map Prod.fst =
      lines.map (leadingAt (lexemes text)) := fun lines => List.map_map
  rw [violation_eq_problemOf hmodule hlines hmodern]
  constructor
  · rw [problemOf_foldlM_iff, hleading]
  · intro before t after stack problem hsplit hbefore hline
    rw [← hleading] at hbefore
    have hline : stack.check (lineAt (lexemes text) t).1 = .error problem := hline
    rw [hsplit, List.map_append, List.map_cons, foldlM_pass_of_error hbefore hline]
    rfl

/-- A source whose statements run on over a joined line and over a line inside brackets, and whose
    last line is indented by a tab. -/
def foldedSample : List Char :=
  "def f():\n    a = b \\\n  + c; d\n    e(\n g)\n\ti\n".toList

/-- The tokens of that source. -/
def foldedLexemes : List Lexeme :=
  [⟨[], ['d', 'e', 'f'], .word ['d', 'e', 'f']⟩, ⟨[' '], ['f'], .word ['f']⟩,
    ⟨[], ['('], .symbol .leftParen⟩, ⟨[], [')'], .symbol .rightParen⟩, ⟨[], [':'], .symbol .colon⟩,
    ⟨['\n', ' ', ' ', ' ', ' '], ['a'], .word ['a']⟩, ⟨[' '], ['='], .symbol .assign⟩,
    ⟨[' '], ['b'], .word ['b']⟩, ⟨[' ', '\\', '\n', ' ', ' '], ['+'], .symbol .plus⟩,
    ⟨[' '], ['c'], .word ['c']⟩, ⟨[], [';'], .symbol .semicolon⟩, ⟨[' '], ['d'], .word ['d']⟩,
    ⟨['\n', ' ', ' ', ' ', ' '], ['e'], .word ['e']⟩, ⟨[], ['('], .symbol .leftParen⟩,
    ⟨['\n', ' '], ['g'], .word ['g']⟩, ⟨[], [')'], .symbol .rightParen⟩,
    ⟨['\n', '\t'], ['i'], .word ['i']⟩, ⟨['\n'], [], .finish⟩]

/-- The statements of that source. -/
def foldedBody : List Statement :=
  [.definition [] 0 17 (.function []) ['f']
    [.plain 5, .expression 11 .name, .expression 12 .other, .expression 16 .name]]

set_option maxRecDepth 8000 in
theorem lexemes_folded : lexemes foldedSample = foldedLexemes := by with_unfolding_all rfl

set_option maxRecDepth 8000 in
theorem logicalLines_folded : logicalLines foldedLexemes = [0, 5, 12, 16] := by
  with_unfolding_all rfl

set_option maxRecDepth 8000 in
theorem lineByLine_folded : LineByLine foldedLexemes foldedBody := by
  have hlooked : linesOf foldedLexemes foldedBody = [0, 5, 12, 16] := by with_unfolding_all rfl
  have hmargins : [0, 5, 12, 16].map (logicalMarginAt foldedLexemes) =
      [[], [' ', ' ', ' ', ' '], [' ', ' ', ' ', ' '], ['\t']] := by with_unfolding_all rfl
  have hplaces : [0, 5, 12, 16].map (fun t => (placeAt (placesOf foldedLexemes) t).margin) =
      [[], [' ', ' ', ' ', ' '], [' ', ' ', ' ', ' '], ['\t']] := by with_unfolding_all rfl
  have hunjoined : ∀ margin ∈ [0, 5, 12, 16].map (logicalMarginAt foldedLexemes),
      '\\' ∉ margin := by
    rw [hmargins]
    decide
  have hindented : ∀ margin ∈
      [0, 5, 12, 16].map fun t => (placeAt (placesOf foldedLexemes) t).margin,
      margin.all isIndentChar = true := by
    rw [hplaces]
    decide
  constructor
  · rw [hlooked]
    exact fun t ht => hunjoined _ (List.mem_map_of_mem ht)
  · rw [logicalLines_folded]
    decide
  · rw [logicalLines_folded]
    exact fun t ht => .inl (hindented _ (List.mem_map_of_mem ht))

set_option maxRecDepth 8000 in
/-- The joined line and the line inside brackets count for nothing there; the tab is the problem. -/
theorem violation_iff_logicalLines_folded :
    Module.ofPieces (Piece.ofLexemes (lexemes foldedSample)) = .ok ⟨false, foldedBody⟩ ∧
      (∀ t keyword, .legacy t keyword ∉ Statement.marksOf foldedBody) ∧
      LineByLine (lexemes foldedSample) foldedBody ∧
      logicalLines (lexemes foldedSample) = [0, 5, 12, 16] ∧
      violation (placesOf (lexemes foldedSample)) foldedBody =
        some (.indentation .inconsistent 5) := by
  have hmodule : Module.ofPieces (Piece.ofLexemes (lexemes foldedSample)) =
      .ok ⟨false, foldedBody⟩ := by
    rw [lexemes_folded]
    with_unfolding_all rfl
  have hmodern : ∀ t keyword, .legacy t keyword ∉ Statement.marksOf foldedBody := by
    simp [foldedBody, Statement.marksOf, Statement.marks]
  have hlines : LineByLine (lexemes foldedSample) foldedBody := lexemes_folded ▸ lineByLine_folded
  have hlogical : logicalLines (lexemes foldedSample) = [0, 5, 12, 16] :=
    lexemes_folded ▸ logicalLines_folded
  have hrun : ([0, 5, 12].map (leadingAt (lexemes foldedSample))).foldlM IndentStack.check .base =
      .ok [⟨4, 4⟩, ⟨0, 0⟩] := by
    rw [lexemes_folded]
    with_unfolding_all rfl
  have hfails : IndentStack.check [⟨4, 4⟩, ⟨0, 0⟩] (leadingAt (lexemes foldedSample) 16) =
      .error .inconsistent := by
    rw [lexemes_folded]
    with_unfolding_all rfl
  have hline : (placeAt (placesOf (lexemes foldedSample)) 16).line = 5 := by
    rw [lexemes_folded]
    with_unfolding_all rfl
  have hfirst := (violation_iff_logicalLines hmodule hmodern hlines).2 [0, 5, 12] 16 [] _ _
    hlogical hrun hfails
  rw [hline] at hfirst
  exact ⟨hmodule, hmodern, hlines, hlogical, hfirst⟩

/-- A source with a statement that begins behind a semicolon, on a joined line. -/
def joinedSample : List Char := "if a:\n    b; \\\n  c\n".toList

set_option maxRecDepth 8000 in
/-- The check of indentation refuses sources whose logical lines all pass: it takes a joined line for
    a line of its own if a statement begins on it. -/
theorem not_forall_violation_iff_logicalLines :
    ¬ ∀ text m, Module.ofPieces (Piece.ofLexemes (lexemes text)) = .ok m →
      (∀ t keyword, .legacy t keyword ∉ Statement.marksOf m.body) →
      ((∃ problem line, violation (placesOf (lexemes text)) m.body =
          some (.indentation problem line)) ↔
        ∃ problem, ((logicalLines (lexemes text)).map (leadingAt (lexemes text))).foldlM
          IndentStack.check .base = .error problem) := by
  intro h
  have hmodule : Module.ofPieces (Piece.ofLexemes (lexemes joinedSample)) =
      .ok ⟨false, [.block 0 [.expression 3 .name, .expression 5 .name]]⟩ := by
    with_unfolding_all rfl
  have hfound : violation (placesOf (lexemes joinedSample))
      [.block 0 [.expression 3 .name, .expression 5 .name]] =
        some (.indentation .unmatched 2) := by with_unfolding_all rfl
  have hlogical : (logicalLines (lexemes joinedSample)).map (leadingAt (lexemes joinedSample)) =
      [[], [' ', ' ', ' ', ' ']] := by with_unfolding_all rfl
  have hmodern : ∀ t keyword, .legacy t keyword ∉
      Statement.marksOf [.block 0 [.expression 3 .name, .expression 5 .name]] := by
    simp [Statement.marksOf, Statement.marks]
  obtain ⟨problem, hfails⟩ := (h joinedSample _ hmodule hmodern).mp ⟨_, _, hfound⟩
  rw [hlogical] at hfails
  cases hfails

end SourceSurvey.Syntax
