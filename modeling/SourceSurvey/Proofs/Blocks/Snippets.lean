import Mathlib
import SourceSurvey.Proofs.Blocks.Lines
import SourceSurvey.Proofs.Blocks.Statements

/-!
Snippets and indentation. A snippet ends where the grammar sees a block end, and the grammar measures
indentation in its own way; the check of indentation measures it in another. Where both put the lines
of a source in the same order, the lines of a definition are those behind its header that are indented
further than the header.
-/

namespace SourceSurvey.Syntax

/-- The first tokens of the lines of a source, as the check of indentation looks at them. -/
def linesOf (lexemes : List Lexeme) (body : List Statement) : List Nat :=
  linesAt (placesOf lexemes) none (Statement.marksOf body)

/-- The column of a line, as the check of indentation measures it. -/
def stopsAt (lexemes : List Lexeme) (token : Nat) : Nat :=
  (placeAt (placesOf lexemes) token).indent.stops

/-- The grammar and the check of indentation see the same lines behind the first statement, and put
    them in the same order by their indentation. -/
structure MeasuredAlike (lexemes : List Lexeme) (body : List Statement) : Prop where
  measured : Measured (Piece.ofLexemes lexemes)
  breaks : ∀ t ∈ linesOf lexemes body, t ∈ (startsOf body).tail →
    breaksAt (Piece.ofLexemes lexemes) t
  order : ∀ t ∈ linesOf lexemes body, ∀ u ∈ linesOf lexemes body,
    breaksAt (Piece.ofLexemes lexemes) t → breaksAt (Piece.ofLexemes lexemes) u →
      (columnAt (Piece.ofLexemes lexemes) t < columnAt (Piece.ofLexemes lexemes) u ↔
        stopsAt lexemes t < stopsAt lexemes u)

/-- The lines behind a header. -/
def linesBehind (lexemes : List Lexeme) (body : List Statement) (header : Nat) : List Nat :=
  (linesOf lexemes body).dropWhile (· ≤ header)

/-- The lines that follow a header directly and are indented further. -/
def linesDeeper (lexemes : List Lexeme) (body : List Statement) (header : Nat) : List Nat :=
  (linesBehind lexemes body header).takeWhile fun t => stopsAt lexemes header < stopsAt lexemes t

/-- The lines of a definition's snippet behind its header. -/
def Extent.linesInside (lexemes : List Lexeme) (body : List Statement) (e : Extent) : List Nat :=
  (linesOf lexemes body).filter fun t => e.start < t && t < e.stop

/-! ### Code -/

/-- Whether a definition introduces a function. -/
def Extent.isFunction (e : Extent) : Bool :=
  match e.kind with
  | .function _ => true
  | .classType => false

/-- The snippet of a definition. -/
def Extent.code (lexemes : List Lexeme) (e : Extent) : Option String :=
  some (String.ofList (slice lexemes e.start e.stop))

section Records

variable {α : Type} {lexemes : List Lexeme} {f : FunctionRecord → α} {f' : ClassRecord → α}
  {g : Extent → α}

/-- What the record of a function says is known from its extent. -/
def FunctionsSay (lexemes : List Lexeme) (f : FunctionRecord → α) (g : Extent → α) : Prop :=
  ∀ start stop parameters name body, f
    { name := String.ofList name
      parameters := (Parameter.positional parameters).map String.ofList
      returns := none
      docstring := (docstring? lexemes body).map String.ofList
      code := some (String.ofList (slice lexemes start stop)) } =
    g ⟨start, stop, .function parameters, body⟩

/-- What the record of a class says is known from its extent. -/
def ClassesSay (lexemes : List Lexeme) (f : ClassRecord → α) (g : Extent → α) : Prop :=
  ∀ start stop name body, f
    { name := String.ofList name
      docstring := (docstring? lexemes body).map String.ofList
      code := some (String.ofList (slice lexemes start stop)) } =
    g ⟨start, stop, .classType, body⟩

mutual

theorem Statement.map_functions (h : FunctionsSay lexemes f g) : ∀ s : Statement,
    (s.functions lexemes).map f = (s.extents.filter Extent.isFunction).map g
  | .definition _ start stop (.function parameters) name body => by
    rw [Statement.functions, Statement.extents, List.filter_cons_of_pos rfl, List.map_cons,
      List.map_cons, Statement.map_functionsOf h body, h]
  | .definition _ _ _ .classType _ body => by
    rw [Statement.functions, Statement.extents, List.filter_cons_of_neg Bool.false_ne_true,
      Statement.map_functionsOf h body]
  | .block _ body => by
    rw [Statement.functions, Statement.extents, Statement.map_functionsOf h body]
  | .expression .. | .importing .. | .legacy .. | .plain _ => by
    rw [Statement.functions, Statement.extents]
    rfl

theorem Statement.map_functionsOf (h : FunctionsSay lexemes f g) : ∀ body : List Statement,
    (Statement.functionsOf lexemes body).map f =
      ((Statement.extentsOf body).filter Extent.isFunction).map g
  | [] => rfl
  | s :: rest => by
    rw [Statement.functionsOf, Statement.extentsOf, List.filter_append, List.map_append,
      List.map_append, Statement.map_functions h s, Statement.map_functionsOf h rest]

end

mutual

theorem Statement.map_classes (h : ClassesSay lexemes f' g) : ∀ s : Statement,
    (s.classes lexemes).map f' = (s.extents.filter fun e => !e.isFunction).map g
  | .definition _ start stop .classType name body => by
    rw [Statement.classes, Statement.extents, List.filter_cons_of_pos rfl, List.map_cons,
      List.map_cons, Statement.map_classesOf h body, h]
  | .definition _ _ _ (.function _) _ body => by
    rw [Statement.classes, Statement.extents, List.filter_cons_of_neg Bool.false_ne_true,
      Statement.map_classesOf h body]
  | .block _ body => by
    rw [Statement.classes, Statement.extents, Statement.map_classesOf h body]
  | .expression .. | .importing .. | .legacy .. | .plain _ => by
    rw [Statement.classes, Statement.extents]
    rfl

theorem Statement.map_classesOf (h : ClassesSay lexemes f' g) : ∀ body : List Statement,
    (Statement.classesOf lexemes body).map f' =
      ((Statement.extentsOf body).filter fun e => !e.isFunction).map g
  | [] => rfl
  | s :: rest => by
    rw [Statement.classesOf, Statement.extentsOf, List.filter_append, List.map_append,
      List.map_append, Statement.map_classes h s, Statement.map_classesOf h rest]

end

theorem Statement.code_functionsOf (lexemes : List Lexeme) (body : List Statement) :
    (Statement.functionsOf lexemes body).map (·.code) =
      ((Statement.extentsOf body).filter Extent.isFunction).map (Extent.code lexemes) :=
  Statement.map_functionsOf (fun _ _ _ _ _ => rfl) body

theorem Statement.code_classesOf (lexemes : List Lexeme) (body : List Statement) :
    (Statement.classesOf lexemes body).map (·.code) =
      ((Statement.extentsOf body).filter fun e => !e.isFunction).map (Extent.code lexemes) :=
  Statement.map_classesOf (fun _ _ _ _ => rfl) body

end Records

/-! ### Ascending tokens -/

section Ascending

variable {tokens : List Nat} {p : Nat → Bool} {t u : Nat}

/-- Of ascending tokens, those before some place come first. -/
theorem filter_eq_takeWhile (h : tokens.Pairwise (· < ·)) (hp : ∀ t u, t < u → p u → p t) :
    tokens.filter p = tokens.takeWhile p := by
  induction tokens with
  | nil => rfl
  | cons t rest ih =>
    by_cases ht : p t = true
    · rw [List.filter_cons_of_pos ht, List.takeWhile_cons_of_pos ht, ih (List.Pairwise.of_cons h)]
    · rw [List.takeWhile_cons_of_neg ht, List.filter_cons_of_neg ht, List.filter_eq_nil_iff]
      exact fun u hu hless => ht (hp t u (List.rel_of_pairwise_cons h hu) hless)

theorem filter_not_eq_dropWhile (h : tokens.Pairwise (· < ·)) (hp : ∀ t u, t < u → p u → p t) :
    tokens.filter (fun t => !p t) = tokens.dropWhile p := by
  induction tokens with
  | nil => rfl
  | cons t rest ih =>
    by_cases ht : p t = true
    · rw [List.dropWhile_cons_of_pos ht, List.filter_cons_of_neg (by simpa using ht),
        ih (List.Pairwise.of_cons h)]
    · rw [List.dropWhile_cons_of_neg ht, List.filter_eq_self]
      refine List.forall_mem_cons.mpr ⟨by simpa using ht, fun u hu => ?_⟩
      have hrest : ¬ p u = true := fun hless => ht (hp t u (List.rel_of_pairwise_cons h hu) hless)
      simpa using hrest

theorem mem_dropWhile_lt_iff (h : tokens.Pairwise (· < ·)) {stop : Nat} :
    t ∈ tokens.dropWhile (· < stop) ↔ t ∈ tokens ∧ stop ≤ t := by
  rw [← filter_not_eq_dropWhile h, List.mem_filter]
  · simp
  · simp only [decide_eq_true_eq]
    omega

theorem head?_eq_of_least (h : tokens.Pairwise (· < ·)) (ht : t ∈ tokens)
    (hleast : ∀ u ∈ tokens, t ≤ u) : tokens.head? = some t := by
  cases tokens with
  | nil => cases ht
  | cons u rest =>
    obtain rfl | hrest := List.mem_cons.mp ht
    · rfl
    · have hless := List.rel_of_pairwise_cons h hrest
      exact absurd (hleast u List.mem_cons_self) (Nat.not_le_of_gt hless)

theorem le_of_head? (h : tokens.Pairwise (· < ·)) (ht : t ∈ tokens.head?) (hu : u ∈ tokens) :
    t ≤ u := by
  obtain ⟨rest, rfl⟩ := List.head?_eq_some_iff.mp ht
  obtain rfl | hrest := List.mem_cons.mp hu
  · exact Nat.le_refl _
  · exact Nat.le_of_lt (List.rel_of_pairwise_cons h hrest)

theorem mem_tail_of_lt (h : tokens.Pairwise (· < ·)) (ht : t ∈ tokens) (hu : u ∈ tokens)
    (hless : t < u) : u ∈ tokens.tail := by
  cases tokens with
  | nil => cases hu
  | cons first rest =>
    obtain rfl | hrest := List.mem_cons.mp hu
    · have hle := le_of_head? h rfl ht
      exact absurd hless (Nat.not_lt_of_le hle)
    · exact hrest

end Ascending

/-- Two runs from one place are the same where the second goes as far as the first and ends with it. -/
theorem takeWhile_eq_of_boundary {α : Type} {p q : α → Bool} {l : List α}
    (hinside : ∀ a ∈ l.takeWhile p, q a = true) (hend : ∀ a ∈ (l.dropWhile p).head?, q a = false) :
    l.takeWhile p = l.takeWhile q := by
  have hrest : (l.dropWhile p).takeWhile q = [] := by
    cases hdrop : l.dropWhile p with
    | nil => rfl
    | cons a rest =>
      rw [hdrop] at hend
      exact List.takeWhile_cons_of_neg (by simpa using hend a rfl)
  conv_rhs => rw [← List.takeWhile_append_dropWhile (p := p) (l := l)]
  rw [List.takeWhile_append_of_pos hinside, hrest, List.append_nil]

/-! ### Bodies -/

mutual

/-- The body of a definition stands within the source. -/
theorem Statement.sublist_of_mem_extents {e : Extent} : ∀ s : Statement, e ∈ s.extents →
    (startsOf e.body).Sublist (startsOf [s])
  | .definition decorators start stop kind name body, he => by
    rw [startsOf_definition]
    refine .trans ?_ (List.sublist_append_right _ _)
    rw [Statement.extents] at he
    obtain rfl | he := List.mem_cons.mp he
    · exact List.sublist_cons_self _ _
    · exact (Statement.sublist_of_mem_extentsOf body he).cons _
  | .block start body, he => by
    rw [startsOf_block]
    rw [Statement.extents] at he
    exact (Statement.sublist_of_mem_extentsOf body he).cons _
  | .expression .., he | .importing .., he | .legacy .., he | .plain _, he => by
    rw [Statement.extents] at he
    cases he

theorem Statement.sublist_of_mem_extentsOf {e : Extent} : ∀ body : List Statement,
    e ∈ Statement.extentsOf body → (startsOf e.body).Sublist (startsOf body)
  | [], he => by
    rw [Statement.extentsOf] at he
    cases he
  | s :: rest, he => by
    rw [startsOf_cons]
    rw [Statement.extentsOf] at he
    obtain he | he := List.mem_append.mp he
    · exact (Statement.sublist_of_mem_extents s he).trans (List.sublist_append_left _ _)
    · exact (Statement.sublist_of_mem_extentsOf rest he).trans (List.sublist_append_right _ _)

end

/-! ### Lines -/

section Lines

variable {lexemes : List Lexeme} {body : List Statement}

theorem sublist_linesOf (lexemes : List Lexeme) (body : List Statement) :
    (linesOf lexemes body).Sublist (startsOf body) := sublist_linesAt

theorem sublist_linesBehind (lexemes : List Lexeme) (body : List Statement) (header : Nat) :
    (linesBehind lexemes body header).Sublist (startsOf body) :=
  (List.dropWhile_sublist _).trans (sublist_linesOf lexemes body)

variable (hascending : (startsOf body).Pairwise (· < ·))

include hascending

theorem linesBehind_eq_filter (header : Nat) :
    linesBehind lexemes body header = (linesOf lexemes body).filter (header < ·) := by
  rw [linesBehind, ← filter_not_eq_dropWhile (hascending.sublist (sublist_linesOf lexemes body))]
  · refine List.filter_congr fun t _ => ?_
    rw [← decide_not]
    exact decide_eq_decide.mpr Nat.not_le
  · simp only [decide_eq_true_eq]
    omega

theorem mem_linesBehind_iff {header t : Nat} :
    t ∈ linesBehind lexemes body header ↔ t ∈ linesOf lexemes body ∧ header < t := by
  rw [linesBehind_eq_filter hascending, List.mem_filter, decide_eq_true_iff]

theorem Extent.linesInside_eq (e : Extent) :
    e.linesInside lexemes body = (linesBehind lexemes body e.start).takeWhile (· < e.stop) := by
  rw [← filter_eq_takeWhile (hascending.sublist (sublist_linesBehind lexemes body e.start)),
    linesBehind_eq_filter hascending, List.filter_filter]
  · exact List.filter_congr fun t _ => Bool.and_comm _ _
  · simp only [decide_eq_true_eq]
    omega

/-- Behind a header, the lines that are indented further begin with the first line of its body. -/
theorem Extent.Lies.head?_linesBehind {e : Extent} {all : List Piece} {start stop first : Nat}
    (h : e.Lies all start (startsOf body) stop) (hbody : (startsOf e.body).Sublist (startsOf body))
    (hfirst : first ∈ (startsOf e.body).head?) (hline : first ∈ linesOf lexemes body) :
    (linesBehind lexemes body e.start).head? = some first := by
  obtain ⟨hbegin, hstop, -⟩ := h.inner first (List.mem_of_head? hfirst)
  refine head?_eq_of_least (hascending.sublist (sublist_linesBehind ..))
    ((mem_linesBehind_iff hascending).mpr ⟨hline, hbegin⟩) fun t ht => ?_
  obtain ⟨ht, hless⟩ := (mem_linesBehind_iff hascending).mp ht
  by_cases hinside : t < e.stop
  · have hmem := h.within t ((sublist_linesOf lexemes body).subset ht) hless hinside
    exact le_of_head? (hascending.sublist hbody) hfirst hmem
  · omega

end Lines

/-! ### Accepted sources -/

section Accepted

variable {text : List Char} {body : List Statement} {d : Cursor}
  (hnone : violation (placesOf (lexemes text)) body = none)
  (hreads : Reads (Piece.ofLexemes (lexemes text)) 0 (Cursor.start (Piece.ofLexemes (lexemes text)))
    body d)
  (hend : d.index < (Piece.ofLexemes (lexemes text)).length)

section Measured

variable (hmeasured : Measured (Piece.ofLexemes (lexemes text)))

include hnone hreads hend hmeasured

/-- Where the grammar sees a statement begin a line, the check of indentation looks. -/
theorem mem_linesOf_of_breaksAt {t : Nat} (ht : t ∈ startsOf body)
    (hbreaks : breaksAt (Piece.ofLexemes (lexemes text)) t) : t ∈ linesOf (lexemes text) body := by
  have hlt := hreads.below t ht
  obtain ⟨hmargin, hearly⟩ := indented_of_breaksAt hmeasured hbreaks (by omega)
  obtain ⟨mark, hmark, rfl⟩ := List.mem_map.mp ht
  have hline := line_of_violationAt hnone mark hmark
  refine mem_linesAt hreads.ascending (hline ▸ hmark) hmargin nofun fun u hu => ?_
  exact Nat.ne_of_lt (hearly u hu)

/-- Behind a header, lines are let pass that return at most to the header's own indentation. -/
theorem exists_stack_behind {header : Nat} (hheader : header ∈ startsOf body)
    (hfresh : breaksAt (Piece.ofLexemes (lexemes text)) header ∨
      header = (Cursor.start (Piece.ofLexemes (lexemes text))).ahead) :
    ∃ stack final : IndentStack, stack.Ordered ∧ stack.top.stops ≤ stopsAt (lexemes text) header ∧
      ((linesBehind (lexemes text) body header).map fun t =>
        (placeAt (placesOf (lexemes text)) t).indent).foldlM IndentStack.accept stack =
          .ok final := by
  obtain ⟨final, hrun⟩ := run_of_violationAt hnone
  rw [← linesOf] at hrun
  rw [linesBehind_eq_filter hreads.ascending]
  by_cases hline : header ∈ linesOf (lexemes text) body
  · have hascending := hreads.ascending.sublist (sublist_linesOf (lexemes text) body)
    obtain ⟨before, behind, hsplit⟩ := List.append_of_mem hline
    rw [hsplit] at hascending hrun ⊢
    obtain ⟨-, hbehind, hbefore⟩ := List.pairwise_append.mp hascending
    have hfilter : (before ++ header :: behind).filter (header < ·) = behind := by
      rw [List.filter_append, List.filter_cons_of_neg (by simp), List.filter_eq_nil_iff.mpr,
        List.filter_eq_self.mpr, List.nil_append]
      · exact fun t ht => decide_eq_true (List.rel_of_pairwise_cons hbehind ht)
      · intro t ht
        have hless := hbefore t ht header List.mem_cons_self
        simpa using Nat.le_of_lt hless
    rw [hfilter]
    rw [List.map_append, List.map_cons] at hrun
    obtain ⟨above, habove, hrun⟩ := IndentStack.exists_of_run_append hrun
    obtain ⟨stack, haccept, hrun⟩ := IndentStack.exists_of_run_cons hrun
    have hordered := (IndentStack.ordered_base.below_of_run (Nat.zero_le _)
      (fun i _ => Nat.zero_le i.stops) habove).1
    refine ⟨stack, final, hordered.accept haccept, ?_, hrun⟩
    rw [(hordered.accept_eq haccept).1]
    exact Nat.le_refl _
  · -- the first statement, where other text stands before it on its line
    have hfirst := hfresh.resolve_left fun hbreaks =>
      hline (mem_linesOf_of_breaksAt hnone hreads hend hmeasured hheader hbreaks)
    rw [List.filter_eq_self.mpr]
    · exact ⟨.base, final, IndentStack.ordered_base, Nat.zero_le _, hrun⟩
    · intro t ht
      have hle := hreads.le ((sublist_linesOf _ _).subset ht)
      have hne : header ≠ t := fun heq => hline (heq ▸ ht)
      exact decide_eq_true (Nat.lt_of_le_of_ne (hfirst ▸ hle) hne)

/-- The line behind a block is indented no further than the header of the block. -/
theorem stopsAt_behind_le {header first next : Nat} {inside later : List Nat}
    (hheader : header ∈ startsOf body)
    (hfresh : breaksAt (Piece.ofLexemes (lexemes text)) header ∨
      header = (Cursor.start (Piece.ofLexemes (lexemes text))).ahead)
    (hlines : linesBehind (lexemes text) body header = first :: (inside ++ next :: later))
    (hinside : ∀ t ∈ inside, stopsAt (lexemes text) first ≤ stopsAt (lexemes text) t)
    (hnext : stopsAt (lexemes text) next < stopsAt (lexemes text) first) :
    stopsAt (lexemes text) next ≤ stopsAt (lexemes text) header := by
  obtain ⟨stack, final, hordered, htop, hrun⟩ :=
    exists_stack_behind hnone hreads hend hmeasured hheader hfresh
  have hsplit : first :: (inside ++ next :: later) = (first :: (inside ++ [next])) ++ later := by
    simp
  rw [hlines, hsplit, List.map_append] at hrun
  obtain ⟨closed, hclosed, -⟩ := IndentStack.exists_of_run_append hrun
  rw [List.map_cons, List.map_append, List.map_singleton] at hclosed
  refine Nat.le_trans (hordered.stops_le_of_run ?_ hnext hclosed) htop
  intro i hi
  obtain ⟨t, ht, rfl⟩ := List.mem_map.mp hi
  exact hinside t ht

end Measured

variable {e : Extent} {first : Nat} (halike : MeasuredAlike (lexemes text) body)
  (he : e ∈ Statement.extentsOf body) (hfirst : first ∈ (startsOf e.body).head?)
  (hline : first ∈ linesOf (lexemes text) body)

include hreads halike he

/-- Behind a header, lines begin behind a line end. -/
theorem breaksAt_of_mem_linesBehind {t : Nat}
    (ht : t ∈ linesBehind (lexemes text) body e.start) :
    t ∈ linesOf (lexemes text) body ∧ breaksAt (Piece.ofLexemes (lexemes text)) t := by
  obtain ⟨hline, hless⟩ := (mem_linesBehind_iff hreads.ascending).mp ht
  have htail := mem_tail_of_lt hreads.ascending (hreads.lies e he).begins
    ((sublist_linesOf _ _).subset hline) hless
  exact ⟨hline, halike.breaks t hline htail⟩

include hfirst hline

/-- The lines of a snippet are not indented less than its first. -/
theorem stopsAt_le_of_mem_inside {t : Nat} (ht : t ∈ linesBehind (lexemes text) body e.start)
    (hstop : t < e.stop) : stopsAt (lexemes text) first ≤ stopsAt (lexemes text) t := by
  have hlies := hreads.lies e he
  obtain ⟨hbegin, -⟩ := hlies.inner first (List.mem_of_head? hfirst)
  obtain ⟨-, hbreaks⟩ := breaksAt_of_mem_linesBehind hreads halike he
    ((mem_linesBehind_iff hreads.ascending).mpr ⟨hline, hbegin⟩)
  obtain ⟨hmem, hbreaks'⟩ := breaksAt_of_mem_linesBehind hreads halike he ht
  obtain ⟨-, hless⟩ := (mem_linesBehind_iff hreads.ascending).mp ht
  obtain ⟨next, -, -, -, hblock⟩ := hlies.follows
  have hcolumn := (hblock first hfirst hbreaks).inside t
    (hlies.within t ((sublist_linesOf _ _).subset hmem) hless hstop) hbreaks'
  refine Nat.le_of_not_lt fun hlt => Nat.not_lt_of_le hcolumn ?_
  exact (halike.order t hmem first hline hbreaks' hbreaks).mpr hlt

include hnone hend

/-- The line behind a snippet is indented no further than the header. -/
theorem stopsAt_le_of_head?_behind {t : Nat}
    (ht : t ∈ ((linesBehind (lexemes text) body e.start).dropWhile (· < e.stop)).head?) :
    stopsAt (lexemes text) t ≤ stopsAt (lexemes text) e.start := by
  have hlies := hreads.lies e he
  have hbehind := hreads.ascending.sublist (sublist_linesBehind (lexemes text) body e.start)
  obtain ⟨next, hnext, hfar, hleast, hblock⟩ := hlies.follows
  obtain ⟨hbegin, hstop, -⟩ := hlies.inner first (List.mem_of_head? hfirst)
  obtain ⟨-, hbreaks⟩ := breaksAt_of_mem_linesBehind hreads halike he
    ((mem_linesBehind_iff hreads.ascending).mpr ⟨hline, hbegin⟩)
  obtain ⟨-, hends, hless⟩ := hblock first hfirst hbreaks
  -- it is the line at which the grammar sees the block end
  obtain ⟨hmem, hge⟩ := (mem_dropWhile_lt_iff hbehind).mp (List.mem_of_head? ht)
  have hstart := (sublist_linesBehind _ _ _).subset hmem
  have hle := hleast t hstart hge
  have hnext : next ∈ startsOf body := by
    obtain hnext | hnext := List.mem_append.mp hnext
    · exact hnext
    · rw [List.mem_singleton.mp hnext] at hle
      exact absurd (hreads.lt_ahead hstart) (Nat.not_lt_of_le hle)
  have hnextLine := mem_linesOf_of_breaksAt hnone hreads hend halike.measured hnext hends
  have hnextBehind := (mem_linesBehind_iff hreads.ascending).mpr
    ⟨hnextLine, Nat.lt_of_lt_of_le hlies.nonempty hfar⟩
  obtain rfl : next = t := Nat.le_antisymm hle <|
    le_of_head? (hbehind.sublist (List.dropWhile_sublist _)) ht
      ((mem_dropWhile_lt_iff hbehind).mpr ⟨hnextBehind, hfar⟩)
  -- and it returns to a column from before the block
  obtain ⟨rest, hrest⟩ := List.head?_eq_some_iff.mp <| hlies.head?_linesBehind hreads.ascending
    (Statement.sublist_of_mem_extentsOf body he) hfirst hline
  obtain ⟨later, hlater⟩ := List.head?_eq_some_iff.mp ht
  have hsplit := List.takeWhile_append_dropWhile (p := fun t => decide (t < e.stop))
    (l := linesBehind (lexemes text) body e.start)
  rw [hlater, hrest, List.takeWhile_cons_of_pos (by simpa using hstop), List.cons_append,
    ← hrest] at hsplit
  refine stopsAt_behind_le hnone hreads hend halike.measured hlies.begins hlies.fresh hsplit.symm
    (fun u hu => ?_) ((halike.order next hnextLine first hline hends hbreaks).mp hless)
  have hmem : u ∈ linesBehind (lexemes text) body e.start := by
    rw [hrest]
    exact List.mem_cons_of_mem _ (List.takeWhile_subset _ hu)
  exact stopsAt_le_of_mem_inside hreads halike he hfirst hline hmem
    (by simpa using List.mem_takeWhile_imp hu)

/-- The lines of a definition are those indented further than its header, where its first line is. -/
theorem linesInside_eq_linesDeeper_iff :
    e.linesInside (lexemes text) body = linesDeeper (lexemes text) body e.start ↔
      stopsAt (lexemes text) e.start < stopsAt (lexemes text) first := by
  have hlies := hreads.lies e he
  obtain ⟨-, hstop, -⟩ := hlies.inner first (List.mem_of_head? hfirst)
  rw [e.linesInside_eq hreads.ascending, linesDeeper]
  constructor
  · intro heq
    obtain ⟨rest, hrest⟩ := List.head?_eq_some_iff.mp <| hlies.head?_linesBehind hreads.ascending
      (Statement.sublist_of_mem_extentsOf body he) hfirst hline
    have hmem : first ∈ (linesBehind (lexemes text) body e.start).takeWhile (· < e.stop) := by
      rw [hrest, List.takeWhile_cons_of_pos (by simpa using hstop)]
      exact List.mem_cons_self
    rw [heq] at hmem
    simpa using List.mem_takeWhile_imp hmem
  · intro hdeeper
    refine takeWhile_eq_of_boundary (fun t ht => decide_eq_true ?_) fun t ht => decide_eq_false ?_
    · have hle := stopsAt_le_of_mem_inside hreads halike he hfirst hline
        (List.takeWhile_subset _ ht) (by simpa using List.mem_takeWhile_imp ht)
      exact Nat.lt_of_lt_of_le hdeeper hle
    · have hle := stopsAt_le_of_head?_behind hnone hreads hend halike he hfirst hline ht
      exact Nat.not_lt_of_le hle

end Accepted

/-- The snippets of an accepted source are those of its definitions, at any depth. Where the grammar
    and the check of indentation measure the source alike, the lines of a definition whose body
    begins on a line of its own are exactly those that follow its header and are indented further,
    if and only if the first of them is. -/
theorem snippets_of_definitions {text : List Char} {found : Definitions} {m : Module}
    (hfound : definitions text = .ok found)
    (hmodule : Module.ofPieces (Piece.ofLexemes (lexemes text)) = .ok m)
    (halike : MeasuredAlike (lexemes text) m.body) :
    found.functions.map (·.code) =
        ((Statement.extentsOf m.body).filter Extent.isFunction).map (Extent.code (lexemes text)) ∧
      found.classes.map (·.code) =
        ((Statement.extentsOf m.body).filter fun e => !e.isFunction).map
          (Extent.code (lexemes text)) ∧
      ∀ e ∈ Statement.extentsOf m.body, ∀ first ∈ (startsOf e.body).head?,
        first ∈ linesOf (lexemes text) m.body →
          (e.linesInside (lexemes text) m.body = linesDeeper (lexemes text) m.body e.start ↔
            stopsAt (lexemes text) e.start < stopsAt (lexemes text) first) := by
  rw [definitions_of_ok hmodule] at hfound
  split at hfound
  · cases hfound
  · next hnone =>
    cases hfound
    refine ⟨Statement.code_functionsOf _ _, Statement.code_classesOf _ _,
      fun e he first hfirst hline => ?_⟩
    obtain hempty | ⟨d, hreads, hend⟩ := reads_of_ofPieces halike.measured hmodule
    · rw [hempty] at he
      cases he
    · exact linesInside_eq_linesDeeper_iff hnone hreads hend halike he hfirst hline

/-- A source that is indented by spaces and by tabs, where every tab stands at a tab stop. -/
def tabbedSample : List Char := "class C:\n        def f():\n        \ta\n        b\n".toList

/-- The statements of that source. -/
def tabbedBody : List Statement :=
  [.definition [] 0 10 .classType ['C'] [
    .definition [] 3 9 (.function []) ['f'] [.expression 8 .name], .expression 9 .name]]

/-- The tokens of that source, with the layout before each. -/
def tabbedPieces : List Piece :=
  [⟨{ tight := true }, .word ['c', 'l', 'a', 's', 's']⟩, ⟨{ column := 1 }, .word ['C']⟩,
    ⟨{ tight := true }, .symbol .colon⟩,
    ⟨{ breaks := true, column := 8 }, .word ['d', 'e', 'f']⟩, ⟨{ column := 1 }, .word ['f']⟩,
    ⟨{ tight := true }, .symbol .leftParen⟩, ⟨{ tight := true }, .symbol .rightParen⟩,
    ⟨{ tight := true }, .symbol .colon⟩, ⟨{ breaks := true, column := 16 }, .word ['a']⟩,
    ⟨{ breaks := true, column := 8 }, .word ['b']⟩, ⟨{ breaks := true }, .finish⟩]

set_option maxRecDepth 8000 in
/-- Both measures agree on its columns. -/
theorem measuredAlike_tabbed : MeasuredAlike (lexemes tabbedSample) tabbedBody := by
  have hpieces : Piece.ofLexemes (lexemes tabbedSample) = tabbedPieces := by with_unfolding_all rfl
  have hlines : linesOf (lexemes tabbedSample) tabbedBody = [0, 3, 8, 9] := by
    with_unfolding_all rfl
  have hcolumns : [0, 3, 8, 9].map (stopsAt (lexemes tabbedSample)) =
      [0, 3, 8, 9].map (columnAt tabbedPieces) := by with_unfolding_all rfl
  constructor
  · rw [hpieces]
    unfold Measured
    decide
  · rw [hlines, hpieces]
    unfold breaksAt
    decide
  · rw [hlines, hpieces]
    intro t ht u hu _ _
    rw [List.map_inj_left.mp hcolumns t ht, List.map_inj_left.mp hcolumns u hu]

set_option maxRecDepth 8000 in
theorem snippets_of_definitions_tabbed : ∃ found m, definitions tabbedSample = .ok found ∧
    Module.ofPieces (Piece.ofLexemes (lexemes tabbedSample)) = .ok m ∧
    MeasuredAlike (lexemes tabbedSample) m.body ∧
    found.functions.map (·.code) =
        ((Statement.extentsOf m.body).filter Extent.isFunction).map
          (Extent.code (lexemes tabbedSample)) ∧
      found.classes.map (·.code) =
        ((Statement.extentsOf m.body).filter fun e => !e.isFunction).map
          (Extent.code (lexemes tabbedSample)) ∧
      ∀ e ∈ Statement.extentsOf m.body, ∀ first ∈ (startsOf e.body).head?,
        first ∈ linesOf (lexemes tabbedSample) m.body →
          (e.linesInside (lexemes tabbedSample) m.body =
              linesDeeper (lexemes tabbedSample) m.body e.start ↔
            stopsAt (lexemes tabbedSample) e.start < stopsAt (lexemes tabbedSample) first) := by
  have hmodule : Module.ofPieces (Piece.ofLexemes (lexemes tabbedSample)) =
      .ok ⟨false, tabbedBody⟩ := by with_unfolding_all rfl
  have hnone : violation (placesOf (lexemes tabbedSample)) tabbedBody = none := by
    with_unfolding_all rfl
  have hfound := definitions_of_ok hmodule
  rw [hnone] at hfound
  exact ⟨_, _, hfound, hmodule, measuredAlike_tabbed,
    snippets_of_definitions hfound hmodule measuredAlike_tabbed⟩

/-- A source whose second line is indented by spaces and a tab, which the check of indentation takes
    for less than the ten spaces further down, and the grammar for more. -/
def mixedSample : List Char := "def f():\n    \ta\n    \tif b:\n          c\n    \td\n".toList

/-- The statements of that source. -/
def mixedBody : List Statement :=
  [.definition [] 0 9 (.function []) ['f'] [.expression 5 .name, .block 6 []],
    .expression 9 .name, .expression 10 .name]

set_option maxRecDepth 8000 in
/-- The snippet of a definition may end before lines that are indented further than its header: in an
    accepted source, the grammar ends a block at the first line that it measures as indented less. -/
theorem not_forall_linesInside_eq_linesDeeper :
    ¬ ∀ text found m, definitions text = .ok found →
      Module.ofPieces (Piece.ofLexemes (lexemes text)) = .ok m →
      ∀ e ∈ Statement.extentsOf m.body, ∀ first ∈ (startsOf e.body).head?,
        first ∈ linesOf (lexemes text) m.body →
          e.linesInside (lexemes text) m.body = linesDeeper (lexemes text) m.body e.start := by
  intro h
  have hmodule : Module.ofPieces (Piece.ofLexemes (lexemes mixedSample)) =
      .ok ⟨false, mixedBody⟩ := by with_unfolding_all rfl
  have hnone : violation (placesOf (lexemes mixedSample)) mixedBody = none := by
    with_unfolding_all rfl
  have hfound := definitions_of_ok hmodule
  rw [hnone] at hfound
  have hlines : linesOf (lexemes mixedSample) mixedBody = [0, 5, 6, 9, 10] := by
    with_unfolding_all rfl
  let e : Extent := ⟨0, 9, .function [], [.expression 5 .name, .block 6 []]⟩
  have hinside : e.linesInside (lexemes mixedSample) mixedBody = [5, 6] := by with_unfolding_all rfl
  have hdeeper : linesDeeper (lexemes mixedSample) mixedBody e.start = [5, 6, 9, 10] := by
    with_unfolding_all rfl
  have hsame := h mixedSample _ _ hfound hmodule e (List.mem_singleton.mpr rfl) 5 rfl
    (by rw [hlines]; decide)
  rw [hinside, hdeeper] at hsame
  cases hsame

end SourceSurvey.Syntax
