import SourceSurvey.Proofs.Blocks.Violations
import SourceSurvey.Proofs.Documentation.Scopes
import SourceSurvey.Proofs.Imports.Reading
import SourceSurvey.Proofs.Outline.Records

/-!
The imports of a source are the entries of its import statements, in order and at any depth, each
known from the tokens of the statement alone.
-/

namespace SourceSurvey.Syntax

open SourceSurvey.Syntax.Parser

/-! ### Import statements -/

/-- Whether a statement is no import. -/
def Statement.NoImport : Statement → Prop
  | .importing .. => False
  | _ => True

section Single

variable {rules : Rules} {c d : Cursor} {s : Statement}

theorem noImport_expressionStatement : Yields Statement.NoImport (expressionStatement rules) := by
  have hplain : ∀ n, Yields Statement.NoImport (pure (.plain n)) := fun n => yields_pure trivial
  refine yields_bind _ fun n => yields_bind _ fun t => .ite (yields_bind _ fun _ => hplain n) ?_
  refine yields_bind _ fun shapes => yields_bind _ fun assigned => ?_
  split
  · refine yields_pure ?_
    split <;> trivial
  · exact hplain n

theorem noImport_expressionOr {other : Parser Statement} (h : Yields Statement.NoImport other) :
    Yields Statement.NoImport (expressionOr rules other) := by
  intro c s d hread
  obtain hwhole | hother := hread.of_orElse
  · obtain ⟨s', c₁, hexpression, hwhole⟩ := gives_bind_iff.mp hwhole
    obtain ⟨u, c₂, -, hwhole⟩ := gives_bind_iff.mp hwhole
    obtain ⟨rfl, -⟩ := gives_pure_iff.mp hwhole
    exact noImport_expressionStatement hexpression
  · exact h hother

theorem noImport_printStatement : Yields Statement.NoImport (printStatement rules) := by
  have hend : ∀ n, Yields Statement.NoImport (do
      discard <| lineExpressions rules neverStop
      return Statement.legacy n .print) := fun n => yields_bind _ fun _ => yields_pure trivial
  refine yields_bind _ fun n => yields_bind _ fun t => ?_
  exact .ite (yields_bind _ fun _ => hend n) (hend n)

theorem noImport_execStatement : Yields Statement.NoImport (execStatement rules) := by
  have hend : ∀ n, Yields Statement.NoImport (execEnd rules n) := by
    intro n
    have hlast : Yields Statement.NoImport (pure (.legacy n .exec)) := yields_pure trivial
    refine yields_bind _ fun found => ?_
    split
    · exact .ite (yields_bind _ fun _ => yields_bind _ fun _ => hlast) hlast
    · exact hlast
  refine yields_bind _ fun n => yields_bind _ fun t => ?_
  split
  · exact yields_bind _ fun _ => yields_bind _ fun _ => hend n
  · exact yields_bind _ fun _ => hend n
  · exact yields_bind _ fun _ => hend n
  · exact yields_bind _ fun _ => hend n

theorem noImport_aliasStatement : Yields Statement.NoImport (aliasStatement rules) := by
  refine yields_bind _ fun n => yields_bind _ fun _ => yields_bind _ fun _ => ?_
  refine yields_bind _ fun _ => yields_bind _ fun _ => yields_bind _ fun _ => ?_
  exact yields_pure trivial

/-- An import begins with `import` or `from`. -/
theorem import_of_simpleStatement {start : Nat} {what : Import}
    (h : Gives (simpleStatement rules) c (.importing start what) d) :
    c.Shows (some (.word Keyword.import_)) ∧
        (∃ t c₁ list, Gives (advance .token) c t c₁ ∧ Gives (importedNames .line) c₁ list d ∧
          what = .modules list) ∨
      c.Shows (some (.word Keyword.from_)) ∧
        Gives importFromStatement c (.importing start what) d := by
  have hnone : ∀ {reader : Parser Statement}, Yields Statement.NoImport reader →
      ¬Gives reader c (.importing start what) d := fun hreader h => hreader h
  have hplain : Yields Statement.NoImport (pure (.plain c.index)) := yields_pure trivial
  replace h := gives_position_bind_iff.mp h
  obtain ⟨t, c', hask, h⟩ := gives_bind_iff.mp h
  obtain ⟨hhead, rfl⟩ := gives_head_iff.mp hask
  have hshows := Cursor.shows_some.mpr hhead
  split at h
  · next w =>
    by_cases hw : w = Keyword.import_
    · subst hw
      rw [if_pos rfl] at h
      obtain ⟨u, c₁, hadvance, h⟩ := gives_bind_iff.mp h
      obtain ⟨t, hadvance⟩ := gives_discard_iff.mp hadvance
      obtain ⟨list, c₂, hlist, h⟩ := gives_bind_iff.mp h
      obtain ⟨hwhat, rfl⟩ := gives_pure_iff.mp h
      cases hwhat
      exact .inl ⟨hshows, t, c₁, list, hadvance, hlist, rfl⟩
    rw [if_neg hw] at h
    by_cases hw' : w = Keyword.from_
    · subst hw'
      rw [if_pos rfl] at h
      exact .inr ⟨hshows, h⟩
    rw [if_neg hw'] at h
    refine absurd h (hnone (.ite ?_ (.ite ?_ (.ite ?_ (.ite ?_ (.ite ?_ (.ite ?_ (.ite ?_
      (.ite ?_ (.ite ?_ ?_))))))))))
    · exact yields_bind _ fun _ => hplain
    · refine yields_bind _ fun found => ?_
      split
      · exact .ite (yields_bind _ fun _ => hplain) hplain
      · exact hplain
    · exact yields_bind _ fun _ => hplain
    · exact yields_bind _ fun _ => yields_bind _ fun _ => hplain
    · exact yields_bind _ fun _ => hplain
    · exact yields_bind _ fun _ => yields_bind _ fun _ => hplain
    · refine yields_bind _ fun found => ?_
      split
      · exact noImport_printStatement
      · exact noImport_expressionOr noImport_printStatement
    · exact noImport_expressionOr noImport_execStatement
    · exact noImport_expressionOr noImport_aliasStatement
    · exact noImport_expressionStatement
  · exact absurd h (hnone noImport_expressionStatement)

end Single

/-! ### What an import statement lists -/

section Legible

variable {source : List Lexeme} {c c₁ d : Cursor} {l : Look} (hsource : Legible source)
  (hc : c.On (Piece.ofLexemes source))

include hsource hc

/-- A statement has ended where a line end or a semicolon is found. -/
theorem Legible.endsBefore_of_look (h : Gives (look .lineEnding) c l d) (hl : EndsStatement l) :
    EndsBefore (c.bare source) := by
  intro k hk
  obtain ⟨more, hmore⟩ := List.head?_eq_some_iff.mp hk
  obtain ⟨before, after, hrest, hbefore, hcomment, -⟩ := List.filter_eq_cons_iff.mp hmore
  have hcomments : Comments before := fun l hl => by simpa using hbefore l hl
  by_cases hne : before = []
  · -- the first lexeme is the one that ends the statement
    subst hne
    have hends := hsource.ends_of_look hc h hl
    rw [hrest] at hends
    generalize hsplit : [] ++ k :: after = rest at hends
    cases hends with
    | @line comments _ l' hcomments' hl' =>
    cases comments with
    | nil =>
      obtain ⟨rfl, -⟩ := List.cons.inj hsplit
      exact hl'
    | cons first comments =>
      obtain ⟨rfl, -⟩ := List.cons.inj hsplit
      simp [hcomments' k List.mem_cons_self] at hcomment
  · have hbehind : c.rest source = [] ++ (before ++ k :: after) := hrest
    exact .inl (hsource.breaks_of_comments hbehind hcomments hne)

theorem Legible.importAt {rules : Rules} {start : Nat} {what : Import}
    (h : Gives (simpleStatement rules) c (.importing start what) c₁)
    (hlook : Gives (look .lineEnding) c₁ l d) (hl : EndsStatement l) :
    ImportAt source c.index what.listing := by
  obtain ⟨hword, t, c₂, list, hadvance, hlist, rfl⟩ | ⟨hword, hread⟩ := import_of_simpleStatement h
  · obtain ⟨k, hopened, hk⟩ := hsource.runs_of_advance hc hword nofun hadvance
    obtain ⟨run, hrun, hspells, hline⟩ := hsource.spellsNames hopened.on hlist
    refine importAt_of_unbroken (hopened.trans hrun).bare ?_ (unbroken_modules hk (hline rfl))
      (hsource.endsBefore_of_look hrun.on hlook hl)
    rw [List.singleton_append, List.map_cons, hk]
    exact .modules hspells
  · replace hread := gives_position_bind_iff.mp hread
    obtain ⟨origin, c₂, horigin, hread⟩ := gives_bind_iff.mp hread
    obtain ⟨u, c₃, himport, hread⟩ := gives_bind_iff.mp hread
    obtain ⟨t, c₄, hnext, hread⟩ := gives_bind_iff.mp hread
    have hfound := gives_next_iff.mp hnext
    obtain ⟨k, middle, hfrom, hk, hspells⟩ := hsource.spellsOrigin hc hword horigin
    obtain ⟨k', himported, hk'⟩ := hsource.runs_of_expect hfrom.on himport
    have hbefore := (hfrom.trans himported).trans (hsource.runs_of_look himported.on hfound)
    rw [List.append_nil] at hbefore
    -- what is read behind `import`, with the statement that it gives
    have hgive : ∀ {run : List Lexeme} {contents : Contents}, c₄.Runs source run c₁ →
        SpellsContents contents (run.map Lexeme.token) →
        (∀ paths, SpellsNames paths (run.map Lexeme.token) → KeepsLine .inside run) →
        ImportAt source c.index (.contents origin.path contents) := by
      intro run contents hrun hcontents hline
      have hall := hbefore.trans hrun
      have hsplit : k :: middle ++ [k'] ++ run = k :: (middle ++ k' :: run) := by simp
      rw [hsplit] at hall
      refine importAt_of_unbroken hall.bare ?_ (unbroken_contents hk hspells hk' hcontents hline)
        (hsource.endsBefore_of_look hrun.on hlook hl)
      rw [List.map_cons, List.map_append, List.map_cons, hk, hk']
      exact .contents hspells hcontents
    split at hread
    · next hstar =>
      obtain ⟨v, c₅, hpass, hread⟩ := gives_bind_iff.mp hread
      obtain ⟨hwhat, rfl⟩ := gives_pure_iff.mp hread
      cases hwhat
      rw [Bool.and_eq_true, decide_eq_true_iff] at hstar
      obtain ⟨rfl, -⟩ := hstar
      obtain ⟨k'', hall, hk''⟩ :=
        hsource.runs_of_pass hbefore.on (nesting_of_look hfound).2 nofun hpass
      refine hgive hall ?_ fun paths hnames => ?_
      · rw [List.map_singleton, hk'']
        exact .everything
      · obtain ⟨w, more, hword⟩ := hnames.exists_word
        rw [List.map_singleton, hk''] at hword
        cases hword
    · obtain ⟨list, c₅, hlist, hread⟩ := gives_bind_iff.mp hread
      obtain ⟨hwhat, rfl⟩ := gives_pure_iff.mp hread
      cases hwhat
      obtain ⟨run, hrun, hcontents, hline⟩ := hsource.spellsContents hbefore.on hlist
      exact hgive hrun hcontents hline

end Legible

/-! ### All import statements -/

mutual

/-- The tokens at which the imports of a statement begin, at any depth, in source order. -/
def Statement.importStarts : Statement → List Nat
  | .importing start _ => [start]
  | .definition _ _ _ _ _ body | .block _ body => Statement.importStartsOf body
  | .expression .. | .legacy .. | .plain _ => []

def Statement.importStartsOf : List Statement → List Nat
  | [] => []
  | statement :: rest => statement.importStarts ++ Statement.importStartsOf rest

end

theorem importStartsOf_append (first second : List Statement) :
    Statement.importStartsOf (first ++ second) =
      Statement.importStartsOf first ++ Statement.importStartsOf second := by
  induction first with
  | nil => rfl
  | cons s first ih =>
    rw [List.cons_append, Statement.importStartsOf, Statement.importStartsOf, ih, List.append_assoc]

/-- Import statements come one behind the other. -/
theorem Spans.importStarts {lexemes : List Lexeme} {lo hi : Nat} {body : List Statement}
    (h : Spans lexemes lo body hi) : Between lo (Statement.importStartsOf body) hi := by
  induction h with
  | nil hle => exact .nil hle
  | importing hlo _ ih => exact .cons hlo ih
  | expression hlo _ ih | plain hlo _ ih | legacy hlo _ _ ih =>
    exact ih.mono (Nat.le_succ_of_le hlo)
  | block hlo _ _ ih ih' => exact (ih.mono (Nat.le_succ_of_le hlo)).append ih'
  | definition hlo _ _ _ ih ih' =>
    have hstart := hlo _ (List.mem_append_right _ (List.mem_singleton.mpr rfl))
    exact (ih.mono (Nat.le_succ_of_le hstart)).append ih'

/-- Some statements have the entries of their imports, each of which is known from its tokens. -/
def Lists (source : List Lexeme) (body : List Statement) : Prop :=
  ∃ listings, List.Forall₂ (ImportAt source) (Statement.importStartsOf body) listings ∧
    Statement.importsOf body = listings.flatMap Listing.entries

section Lists

variable {source : List Lexeme} {first second body : List Statement} {c d : Cursor}
  {lo hi depth : Nat}

theorem lists_of_none (hstarts : Statement.importStartsOf body = [])
    (himports : Statement.importsOf body = []) : Lists source body :=
  ⟨[], hstarts ▸ .nil, himports⟩

theorem Lists.append (h : Lists source first) (h' : Lists source second) :
    Lists source (first ++ second) := by
  obtain ⟨listings, hlistings, himports⟩ := h
  obtain ⟨listings', hlistings', himports'⟩ := h'
  refine ⟨listings ++ listings', ?_, ?_⟩
  · rw [importStartsOf_append]
    exact List.rel_append hlistings hlistings'
  · rw [importsOf_append, himports, himports', List.flatMap_append]

theorem lists_importing {start : Nat} {what : Import} (h : ImportAt source start what.listing) :
    Lists source [.importing start what] := by
  refine ⟨[what.listing], .cons h .nil, ?_⟩
  rw [List.flatMap_singleton, Import.entries_listing]
  exact List.append_nil _

/-- What stands around a body lists what the body does. -/
theorem Lists.around {s : Statement} (h : Lists source body)
    (hstarts : s.importStarts = Statement.importStartsOf body)
    (himports : s.imports = Statement.importsOf body) : Lists source [s] := by
  obtain ⟨listings, hlistings, hentries⟩ := h
  refine ⟨listings, ?_, ?_⟩
  · rwa [Statement.importStartsOf, hstarts, Statement.importStartsOf, List.append_nil]
  · rw [Statement.importsOf, himports, Statement.importsOf, List.append_nil, hentries]

theorem Legible.lists_of_statementLine {statements : List Statement} (hsource : Legible source)
    (hc : c.On (Piece.ofLexemes source))
    (h : Gives (statementLine (Rules.upTo depth)) c statements d) : Lists source statements := by
  refine Gives.of_loop
    (fun (before : List Statement) d => d.On (Piece.ofLexemes source) ∧ Lists source before.reverse)
    (fun (statements : List Statement) _ => Lists source statements) ?_ h
    ⟨hc, lists_of_none rfl rfl⟩
  rintro before d r d' ⟨hd, hbefore⟩ hround
  have hd' := hd.of_reaches hround.reaches
  obtain ⟨s, d₁, hs, hround⟩ := gives_bind_iff.mp hround
  obtain ⟨l, d₂, hlook, hround⟩ := gives_bind_iff.mp hround
  have hmore : EndsStatement l → Lists source (s :: before).reverse := by
    intro hl
    rw [List.reverse_cons]
    refine hbefore.append ?_
    cases single_of_simpleStatement hs with
    | importing what => exact lists_importing (hsource.importAt hd hs hlook hl)
    | expression | legacy | plain => exact lists_of_none rfl rfl
  split at hround
  · obtain ⟨rfl, rfl⟩ := gives_pure_iff.mp hround
    exact hmore (.inl rfl)
  · obtain ⟨l, d₃, -, hround⟩ := gives_bind_iff.mp hround
    split at hround
    · obtain ⟨rfl, rfl⟩ := gives_pure_iff.mp hround
      exact hmore (.inr rfl)
    · obtain ⟨rfl, rfl⟩ := gives_pure_iff.mp hround
      exact ⟨hd', hmore (.inr rfl)⟩
  · exact absurd hround not_gives_failure

theorem Legible.lists_of_built (hsource : Legible source)
    (h : Built (Piece.ofLexemes source) lo body hi) : Lists source body := by
  induction h with
  | nil => exact lists_of_none rfl rfl
  | line _ hc hread => exact hsource.lists_of_statementLine hc hread
  | block _ _ _ ih => exact ih.around (by rw [Statement.importStarts]) (by rw [Statement.imports])
  | definition _ _ _ _ _ _ ih =>
    exact ih.around (by rw [Statement.importStarts]) (by rw [Statement.imports])
  | append _ _ ih ih' => exact ih.append ih'

end Lists

/-- Import statements that list the same have the same listings. -/
theorem listings_eq {source source' : List Lexeme} {starts starts' : List Nat}
    {listings listings' : List Listing}
    (hsame : List.Forall₂ (fun start start' => ∃ listing, ImportAt source start listing ∧
      ImportAt source' start' listing) starts starts')
    (h : List.Forall₂ (ImportAt source) starts listings)
    (h' : List.Forall₂ (ImportAt source') starts' listings') : listings = listings' := by
  induction hsame generalizing listings listings' with
  | nil =>
    cases h
    cases h'
    rfl
  | cons hlisting _ ih =>
    obtain ⟨listing, hfirst, hfirst'⟩ := hlisting
    cases h with
    | cons hhead htail =>
      cases h' with
      | cons hhead' htail' =>
        rw [ih htail htail', hhead.unique hfirst, hhead'.unique hfirst']

/-- The imports of an accepted source are the entries of its import statements, at any depth and in
    order. What a statement lists is known from its tokens, whatever its aliases, parentheses, last
    commas, comments and layout; so two sources have the same imports if their import statements list
    the same. A line that ends behind a comma outside of parentheses ends the statement. -/
theorem imports_of_definitions {text : List Char} {found : Definitions} {m : Module}
    (hfound : definitions text = .ok found)
    (hmodule : Module.ofPieces (Piece.ofLexemes (lexemes text)) = .ok m) :
    (Statement.importStartsOf m.body).Pairwise (· < ·) ∧
      (∃ listings,
        List.Forall₂ (ImportAt (lexemes text)) (Statement.importStartsOf m.body) listings ∧
        found.imports = listings.flatMap Listing.entries) ∧
      ∀ text' found' m', definitions text' = .ok found' →
        Module.ofPieces (Piece.ofLexemes (lexemes text')) = .ok m' →
        List.Forall₂ (fun start start' => ∃ listing, ImportAt (lexemes text) start listing ∧
            ImportAt (lexemes text') start' listing)
          (Statement.importStartsOf m.body) (Statement.importStartsOf m'.body) →
        found.imports = found'.imports := by
  have hlists : ∀ {text : List Char} {found : Definitions} {m : Module},
      definitions text = .ok found →
      Module.ofPieces (Piece.ofLexemes (lexemes text)) = .ok m →
      ∃ listings,
        List.Forall₂ (ImportAt (lexemes text)) (Statement.importStartsOf m.body) listings ∧
        found.imports = listings.flatMap Listing.entries := by
    intro text found m hfound hmodule
    obtain ⟨listings, hlistings, himports⟩ :=
      (legible_of_ofPieces hmodule).lists_of_built (built_of_ofPieces hmodule)
    refine ⟨listings, hlistings, ?_⟩
    rw [definitions_of_ok hmodule] at hfound
    split at hfound
    · cases hfound
    · cases hfound
      exact himports
  refine ⟨(spans_of_ofPieces hmodule).importStarts.ascending, hlists hfound hmodule, ?_⟩
  intro text' found' m' hfound' hmodule' hsame
  obtain ⟨listings, hlistings, himports⟩ := hlists hfound hmodule
  obtain ⟨listings', hlistings', himports'⟩ := hlists hfound' hmodule'
  rw [himports, himports', listings_eq hsame hlistings hlistings']

/-- An import within a function, over two lines. -/
def wrappedSample : List Char := "def f():\n  from . import (a as b,  # one\n    c)\n".toList

/-- An import that lists the same. -/
def plainSample : List Char := "from .. import a, c\n".toList

/-- What both import. -/
def sampleListing : Listing := .contents [] (.names [[['a']], [['c']]])

theorem importAt_wrapped : ImportAt (lexemes wrappedSample) 5 sampleListing := by
  have hsplit : Lexeme.bare ((Lexeme.unmarked (lexemes wrappedSample)).drop 5) =
      ⟨"\n  ".toList, "from".toList, .word Keyword.from_⟩ :: ([⟨[' '], ['.'], .symbol .dot⟩] ++
        ⟨[' '], "import".toList, .word Keyword.import_⟩ ::
          [⟨[' '], ['('], .symbol .leftParen⟩, ⟨[], ['a'], .word ['a']⟩,
            ⟨[' '], "as".toList, .word Keyword.as_⟩, ⟨[' '], ['b'], .word ['b']⟩,
            ⟨[], [','], .symbol .comma⟩, ⟨"\n    ".toList, ['c'], .word ['c']⟩,
            ⟨[], [')'], .symbol .rightParen⟩]) ++ [⟨['\n'], [], .finish⟩] := by
    with_unfolding_all rfl
  have horigin : SpellsOrigin [] [.symbol .dot] :=
    .relative (List.cons_ne_nil _ _) (List.forall_mem_singleton.mpr (.inl rfl)) (by simp)
  have hnames : SpellsNames [[['a']], [['c']]] [.word ['a'], .word Keyword.as_, .word ['b'],
      .symbol .comma, .word ['c']] :=
    .intro (List.cons_ne_nil _ _) (.cons (.bound (List.cons_ne_nil _ _) ['b'])
      (.cons (.bare (List.cons_ne_nil _ _)) .nil)) (.inl rfl)
  refine importAt_of_unbroken hsplit (.contents horigin (.enclosed hnames))
    (unbroken_contents rfl horigin rfl (.enclosed hnames) fun paths hspells => ?_) ?_
  · obtain ⟨w, more, hword⟩ := hspells.exists_word
    cases hword
  · rintro k ⟨⟩
    exact .inl rfl

theorem importAt_plain : ImportAt (lexemes plainSample) 0 sampleListing := by
  have hsplit : Lexeme.bare ((Lexeme.unmarked (lexemes plainSample)).drop 0) =
      ⟨[], "from".toList, .word Keyword.from_⟩ :: ([⟨[' '], ['.'], .symbol .dot⟩,
          ⟨[], ['.'], .symbol .dot⟩] ++
        ⟨[' '], "import".toList, .word Keyword.import_⟩ ::
          [⟨[' '], ['a'], .word ['a']⟩, ⟨[], [','], .symbol .comma⟩,
            ⟨[' '], ['c'], .word ['c']⟩]) ++ [⟨['\n'], [], .finish⟩] := by with_unfolding_all rfl
  have hdots : ∀ t ∈ [Token.symbol .dot, .symbol .dot], t.isDots := by simp [Token.isDots]
  have horigin : SpellsOrigin [] [.symbol .dot, .symbol .dot] :=
    .relative (List.cons_ne_nil _ _) hdots (by simp)
  have hnames : SpellsNames [[['a']], [['c']]] [.word ['a'], .symbol .comma, .word ['c']] :=
    .intro (List.cons_ne_nil _ _) (.cons (.bare (List.cons_ne_nil _ _))
      (.cons (.bare (List.cons_ne_nil _ _)) .nil)) (.inl rfl)
  refine importAt_of_unbroken hsplit (.contents horigin (.names hnames))
    (unbroken_contents rfl horigin rfl (.names hnames) fun _ _ => ?_) ?_
  · exact ⟨fun _ => rfl, fun _ => rfl, fun _ => rfl, trivial⟩
  · rintro k ⟨⟩
    exact .inl rfl

set_option maxRecDepth 8000 in
theorem imports_of_definitions_sample : ∃ found m found' m',
    definitions wrappedSample = .ok found ∧
    Module.ofPieces (Piece.ofLexemes (lexemes wrappedSample)) = .ok m ∧
    definitions plainSample = .ok found' ∧
    Module.ofPieces (Piece.ofLexemes (lexemes plainSample)) = .ok m' ∧
    Statement.importStartsOf m.body = [5] ∧ found.imports = ["from  import a, c"] ∧
    found.imports = found'.imports := by
  have hmodule : Module.ofPieces (Piece.ofLexemes (lexemes wrappedSample)) =
      .ok ⟨false, [.definition [] 0 16 (.function []) ['f']
        [.importing 5 (.names (.relative []) [⟨[['a']], some ['b']⟩, ⟨[['c']], none⟩])]]⟩ := by
    with_unfolding_all rfl
  have hmodule' : Module.ofPieces (Piece.ofLexemes (lexemes plainSample)) =
      .ok ⟨false, [.importing 0 (.names (.relative []) [⟨[['a']], none⟩, ⟨[['c']], none⟩])]⟩ := by
    with_unfolding_all rfl
  have hfound := definitions_of_ok hmodule
  have hfound' := definitions_of_ok hmodule'
  rw [show violation (placesOf (lexemes wrappedSample)) _ = none by with_unfolding_all rfl] at hfound
  rw [show violation (placesOf (lexemes plainSample)) _ = none by with_unfolding_all rfl] at hfound'
  refine ⟨_, _, _, _, hfound, hmodule, hfound', hmodule', rfl, rfl, ?_⟩
  exact (imports_of_definitions hfound hmodule).2.2 plainSample _ _ hfound' hmodule'
    (.cons ⟨sampleListing, importAt_wrapped, importAt_plain⟩ .nil)

end SourceSurvey.Syntax
