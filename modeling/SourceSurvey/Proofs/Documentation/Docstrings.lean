import SourceSurvey.Proofs.Blocks.Snippets
import SourceSurvey.Proofs.Documentation.Scopes
import SourceSurvey.Proofs.Documentation.Values

/-!
The documentation of a scope, by the tokens of its first statement: it is the text of the literals
that the statement consists of, unless a joined line hides them.
-/

namespace SourceSurvey.Syntax

open SourceSurvey.Syntax.Parser

/-- The body of a definition as a scope. No joined line before its first statement counts. -/
def Extent.scope (e : Extent) : Module := ⟨false, e.body⟩

/-- The scopes of a source: the source itself, and the bodies of its functions and classes. -/
def Module.scopes (m : Module) : List Module := m :: (Statement.extentsOf m.body).map Extent.scope

/-- The text of some literals as documentation, if each of them is text. -/
def documentation? (literals : List Lexeme) : Option (List Char) :=
  (literals.mapM Lexeme.value?).map fun values => Docstring.clean values.flatten

/-- The documentation of a scope follows from what its first statement consists of. -/
structure Documented (source : List Lexeme) (s : Module) : Prop where
  /-- Literals alone, in any number of parentheses. -/
  literals : ∀ t ∈ (startsOf s.body).head?, ∀ {literals n hidden run rest},
    (Lexeme.unmarked source).drop t = run ++ rest → Enclosed false literals n hidden run →
      Ends false rest →
        s.docstring? source = if s.spliced || hidden then none else documentation? literals
  /-- The same with a comma behind the last literal or a closing parenthesis. -/
  comma : ∀ t ∈ (startsOf s.body).head?, ∀ {run rest},
    (Lexeme.unmarked source).drop t = run ++ rest → Tupled false run → s.docstring? source = none
  /-- Nothing else documents a scope. -/
  only : s.docstring? source ≠ none → s.spliced = false ∧ ∃ t ∈ (startsOf s.body).head?,
    ∃ literals n run rest, (Lexeme.unmarked source).drop t = run ++ rest ∧
      Enclosed false literals n false run ∧ Ends false rest ∧
        ∀ l ∈ literals, l.value?.isSome = true

section Scope

variable {source : List Lexeme} {s : Module} {lo hi : Nat} (hsource : Legible source)
  (hbuilt : Built (Piece.ofLexemes source) lo s.body hi)

include hsource hbuilt

/-- A documented scope begins with literals alone. -/
theorem Legible.enclosed_of_docstring? (h : s.docstring? source ≠ none) :
    s.spliced = false ∧ ∃ t ∈ (startsOf s.body).head?, ∃ literals n run rest,
      (Lexeme.unmarked source).drop t = run ++ rest ∧ Enclosed false literals n false run ∧
        Ends false rest ∧ ∀ l ∈ literals, l.value?.isSome = true := by
  rw [Module.docstring?] at h
  split at h
  · exact absurd rfl h
  · next hspliced =>
    refine ⟨by simpa using hspliced, ?_⟩
    unfold docstring? at h
    split at h
    · next i shape others hbody =>
      obtain ⟨t, ht, hfirst⟩ := hbuilt.first hbody
      cases hshape : shape.literals? with
      | none =>
        rw [hshape] at h
        exact absurd rfl h
      | some parts =>
        obtain ⟨literals, n, run, rest, hrest, henclosed, hends, hparts⟩ :=
          hsource.enclosed_of_expression hfirst hshape
        refine ⟨t, ht, literals, n, run, rest, hrest, henclosed, hends, ?_⟩
        rw [← mapM_value?_isSome, ← mapM_partValue? hparts, Option.isSome_iff_ne_none]
        intro hnone
        rw [hshape] at h
        simp [hnone] at h
    · exact absurd rfl h

/-- Literals alone without interpolations are read as such. -/
theorem Legible.docstring?_of_plain {literals run rest : List Lexeme} {t n : Nat} {hidden : Bool}
    (ht : t ∈ (startsOf s.body).head?) (hrest : (Lexeme.unmarked source).drop t = run ++ rest)
    (henclosed : Enclosed false literals n hidden run) (hends : Ends false rest)
    (hplain : ∀ l ∈ literals, l.Plain) :
    s.docstring? source = if s.spliced || hidden then none else documentation? literals := by
  cases hbody : s.body with
  | nil =>
    rw [hbody] at ht
    cases ht
  | cons first others =>
    obtain ⟨t', ht', hfirst⟩ := hbuilt.first hbody
    obtain rfl := Option.some.inj (ht.symm.trans ht')
    obtain ⟨shape, parts, rfl, hparts, hshape⟩ :=
      hsource.expression_of_enclosed hfirst hrest henclosed hends hplain
    rw [Module.docstring?, hbody, docstring?, hshape, documentation?, ← mapM_partValue? hparts]
    cases s.spliced with
    | true => rfl
    | false =>
      cases hidden with
      | true => rfl
      | false => exact (Option.map_eq_bind ..).symm

theorem Legible.documented : Documented source s where
  only := hsource.enclosed_of_docstring? hbuilt
  comma t ht run rest hrest htupled := by
    by_contra hsome
    obtain ⟨-, t', ht', literals, n, run', rest', hrest', henclosed, hends, hvalues⟩ :=
      hsource.enclosed_of_docstring? hbuilt hsome
    obtain rfl := Option.some.inj (ht.symm.trans ht')
    exact htupled.not_enclosed henclosed (fun l hl => l.plain_of_value? (hvalues l hl)) hends
      (hrest.symm.trans hrest')
  literals t ht literals n hidden run rest hrest henclosed hends := by
    by_cases hplain : ∀ l ∈ literals, l.Plain
    · exact hsource.docstring?_of_plain hbuilt ht hrest henclosed hends hplain
    · -- a literal with interpolations has no value, and a documented scope has other literals
      have hnone : documentation? literals = none := by
        rw [documentation?, Option.map_eq_none_iff, ← Option.not_isSome_iff_eq_none,
          mapM_value?_isSome]
        exact fun hvalues => hplain fun l hl => l.plain_of_value? (hvalues l hl)
      rw [hnone, ite_self]
      by_contra hsome
      obtain ⟨-, t', ht', literals', n', run', rest', hrest', henclosed', hends', hvalues⟩ :=
        hsource.enclosed_of_docstring? hbuilt hsome
      obtain rfl := Option.some.inj (ht.symm.trans ht')
      have hplain' : ∀ l ∈ literals', l.Plain := fun l hl => l.plain_of_value? (hvalues l hl)
      obtain ⟨rfl, -⟩ := henclosed'.unique henclosed hplain' (hrest'.symm.trans hrest) hends'.stops
        hends.stops
      exact hplain hplain'

end Scope

section Accepted

variable {text : List Char} {m s : Module}
  (h : Module.ofPieces (Piece.ofLexemes (lexemes text)) = .ok m)

include h

theorem exists_built_of_mem_scopes (hs : s ∈ m.scopes) :
    ∃ lo hi, Built (Piece.ofLexemes (lexemes text)) lo s.body hi := by
  have hbuilt := built_of_ofPieces h
  obtain rfl | hs := List.mem_cons.mp hs
  · exact ⟨_, _, hbuilt⟩
  · obtain ⟨e, he, rfl⟩ := List.mem_map.mp hs
    exact hbuilt.extents e he

omit h in
/-- Reading a source begins with a look at its first token. -/
theorem exists_look_of_readAll {statement : Parser (List Statement)} {rounds : Nat} {c : Cursor}
    {found : List (List Statement)} (hread : Module.readAll statement rounds c = .ok found) :
    ∃ t d, Gives (look .operand) c (.token t) d := by
  cases rounds with
  | zero => cases hread
  | succ rounds =>
    rw [Module.readAll] at hread
    split at hread
    · next d hlook => exact ⟨_, d, hlook⟩
    · next t d _ hlook => exact ⟨t, d, hlook⟩
    · cases hread

/-- A joined line hides the documentation of a whole source where it stands on its own before the first
    token that is no comment, or before a comment ahead of it. -/
theorem spliced_of_ofPieces {comments rest : List Lexeme} {first : Lexeme}
    (hsplit : Lexeme.unmarked (lexemes text) = comments ++ first :: rest)
    (hcomments : Comments comments) (hfirst : first.token ≠ .comment) :
    m.spliced = (comments ++ [first]).any Lexeme.splices := by
  have hsource := legible_of_ofPieces h
  have hc : (Cursor.start (Piece.ofLexemes (lexemes text))).On (Piece.ofLexemes (lexemes text)) :=
    ⟨rfl, rfl⟩
  obtain ⟨found, hread, rfl⟩ := exists_of_map_eq_ok h
  obtain ⟨t, c, hlook⟩ := exists_look_of_readAll hread
  obtain ⟨between, k, more, hrest, hk, hbetween, hseam, htoken, hcomment, -⟩ :=
    hsource.rest_of_look hc hlook
  obtain ⟨rfl, rfl, -⟩ := hcomments.unique hbetween hfirst (htoken ▸ hcomment)
    (hsplit.symm.trans hrest)
  have hcrosses : Gives crossesSeam c (c.seam || first.splices) c := by
    refine gives_ask ?_
    rw [(hlook.on_of_look hc).pieces_eq, hk, List.map_cons, List.head?_cons, Option.map_some]
    exact congrArg (fun b => some (c.seam || b)) (splices_ofLexeme first)
  have hwhole : Gives (do discard <| look .operand; crossesSeam) _ _ c :=
    hlook.discard.bind hcrosses
  rw [Gives] at hwhole
  simp only [hwhole]
  rw [hseam, List.any_append, List.any_cons, List.any_nil, Bool.or_false]
  rfl

/-- The functions and classes of a source are documented as the scopes of its definitions are. -/
theorem docstrings_of_definitions {found : Definitions} (hfound : definitions text = .ok found) :
    found.docstring = (m.docstring? (lexemes text)).map String.ofList ∧
      found.functions.map (·.docstring) =
        ((Statement.extentsOf m.body).filter Extent.isFunction).map
          (fun e => (e.scope.docstring? (lexemes text)).map String.ofList) ∧
      found.classes.map (·.docstring) =
        ((Statement.extentsOf m.body).filter fun e => !e.isFunction).map
          (fun e => (e.scope.docstring? (lexemes text)).map String.ofList) := by
  rw [definitions_of_ok h] at hfound
  split at hfound
  · cases hfound
  · cases hfound
    exact ⟨rfl, Statement.map_functionsOf (fun _ _ _ _ _ => rfl) _,
      Statement.map_classesOf (fun _ _ _ _ => rfl) _⟩

end Accepted

/-- The scopes of an accepted source are documented by their first statements, and its records say
    what documents them. -/
theorem documented_of_ofPieces {text : List Char} {m : Module}
    (h : Module.ofPieces (Piece.ofLexemes (lexemes text)) = .ok m) :
    (∀ s ∈ m.scopes, Documented (lexemes text) s) ∧
      (∀ comments first rest, Lexeme.unmarked (lexemes text) = comments ++ first :: rest →
        Comments comments → first.token ≠ .comment →
          m.spliced = (comments ++ [first]).any Lexeme.splices) ∧
      (∀ l ∈ Lexeme.unmarked (lexemes text), l.token.startsLiteral = true →
        (l.value?.isSome = true ↔ l.mark? ≠ some '`' ∧ ∀ c ∈ l.letters, c ∉ textlessLetters)) ∧
      ∀ found, definitions text = .ok found →
        found.docstring = (m.docstring? (lexemes text)).map String.ofList ∧
          found.functions.map (·.docstring) =
            ((Statement.extentsOf m.body).filter Extent.isFunction).map
              (fun e => (e.scope.docstring? (lexemes text)).map String.ofList) ∧
          found.classes.map (·.docstring) =
            ((Statement.extentsOf m.body).filter fun e => !e.isFunction).map
              (fun e => (e.scope.docstring? (lexemes text)).map String.ofList) := by
  refine ⟨fun s hs => ?_, fun comments first rest hsplit hcomments hfirst =>
    spliced_of_ofPieces h hsplit hcomments hfirst, fun l hl hstarts => value?_isSome_iff hl hstarts,
    fun found hfound => docstrings_of_definitions h hfound⟩
  obtain ⟨lo, hi, hbuilt⟩ := exists_built_of_mem_scopes h hs
  exact (legible_of_ofPieces h).documented hbuilt

set_option maxRecDepth 8000 in
/-- A joined line directly before a literal hides nothing. -/
example : (definitions "\\\n\"a\"\n".toList).map (·.docstring) = .ok (some "a") := by cbv

/-! ### Samples -/

/-- A parenthesis that opens, behind some blanks. -/
def opens (gap : List Char) : Lexeme := ⟨gap, ['('], .symbol .leftParen⟩

/-- A parenthesis that closes, behind some blanks. -/
def closes (gap : List Char) : Lexeme := ⟨gap, [')'], .symbol .rightParen⟩

/-- A literal without letters, behind some blanks. -/
def quoted (gap text : List Char) : Lexeme := ⟨gap, text, .string true⟩

theorem plain_quoted (gap text : List Char) : (quoted gap text).Plain := ⟨true, rfl⟩

/-- Parentheses with no comment on their inner sides. -/
theorem Enclosed.wrap {inside hidden : Bool} {literals rest : List Lexeme} {n : Nat} {first : Lexeme}
    (h : Enclosed true literals n hidden (first :: rest)) (gap gap' : List Char) :
    Enclosed inside literals (n + 1) (hidden || first.splices || (closes gap').splices)
      (opens gap :: (first :: rest ++ [closes gap'])) := by
  have hwhole : Enclosed inside literals _ _ (opens gap :: ([] ++ first :: (rest ++ ([] ++ _)))) :=
    .parens rfl comments_nil h comments_nil (rfl : (closes gap').token = _)
  simpa using hwhole

/-- The end of a source behind a line end. -/
def lastLine : List Lexeme := [⟨['\n'], [], .finish⟩]

theorem ends_lastLine : Ends false lastLine := .line comments_nil (.inl rfl)

/-- A function with two literals in two pairs of parentheses and a comment between them. -/
def enclosedSample : List Char := "def f():\n    ((\"a\" # c\n     'b'))\n".toList

/-- The body of that function. -/
def enclosedScope : Module :=
  ⟨false, [.expression 5 (.group false (.group false (.literal [.plain 7, .plain 9])))]⟩

/-- That source. -/
def enclosedModule : Module :=
  ⟨false, [.definition [] 0 12 (.function []) ['f'] enclosedScope.body]⟩

/-- The two literals with the comment. -/
def enclosedInside : List Lexeme :=
  [quoted [] "\"a\"".toList, ⟨[' '], "# c".toList, .comment⟩, quoted "\n     ".toList "'b'".toList]

theorem enclosed_sample : Enclosed false
    [quoted [] "\"a\"".toList, quoted "\n     ".toList "'b'".toList] 2 false
    (opens "\n    ".toList :: opens [] :: (enclosedInside ++ [closes [], closes []])) := by
  have hcomment : Joins true [⟨[' '], "# c".toList, .comment⟩]
      (quoted "\n     ".toList "'b'".toList) := List.forall_mem_singleton.mpr rfl
  have hliterals : Adjacent true _ enclosedInside :=
    .more (.plain (plain_quoted ..)) hcomment (.one (.plain (plain_quoted ..)))
  exact ((Enclosed.bare hliterals).wrap [] []).wrap "\n    ".toList []

set_option maxRecDepth 8000 in
/-- The literals side by side document that function. -/
theorem documented_of_ofPieces_enclosed :
    Module.ofPieces (Piece.ofLexemes (lexemes enclosedSample)) = .ok enclosedModule ∧
      (∀ s ∈ enclosedModule.scopes, Documented (lexemes enclosedSample) s) ∧
      enclosedScope ∈ enclosedModule.scopes ∧
      enclosedScope.docstring? (lexemes enclosedSample) = some ['a', 'b'] := by
  have hmodule : Module.ofPieces (Piece.ofLexemes (lexemes enclosedSample)) =
      .ok enclosedModule := by with_unfolding_all rfl
  obtain ⟨hscopes, -⟩ := documented_of_ofPieces hmodule
  have hscope : enclosedScope ∈ enclosedModule.scopes :=
    List.mem_cons_of_mem _ List.mem_cons_self
  have hrest : (Lexeme.unmarked (lexemes enclosedSample)).drop 5 =
      (opens "\n    ".toList :: opens [] :: (enclosedInside ++ [closes [], closes []])) ++
        lastLine := by with_unfolding_all rfl
  refine ⟨hmodule, hscopes, hscope, ?_⟩
  rw [(hscopes _ hscope).literals 5 rfl hrest enclosed_sample ends_lastLine]
  with_unfolding_all rfl

/-- A function with a joined line before the parenthesis that closes behind its literal. -/
def hiddenSample : List Char := "def f():\n    (\"a\" \\\n)\n".toList

/-- The body of that function. -/
def hiddenScope : Module := ⟨false, [.expression 5 (.group true (.literal [.plain 6]))]⟩

set_option maxRecDepth 8000 in
/-- Not all literals in parentheses document a scope. -/
theorem not_forall_docstring?_eq_documentation? :
    ¬ ∀ text m s t literals n hidden run rest,
      Module.ofPieces (Piece.ofLexemes (lexemes text)) = .ok m → s ∈ m.scopes →
      t ∈ (startsOf s.body).head? → (Lexeme.unmarked (lexemes text)).drop t = run ++ rest →
      Enclosed false literals n hidden run → Ends false rest →
        s.docstring? (lexemes text) = documentation? literals := by
  intro h
  have hmodule : Module.ofPieces (Piece.ofLexemes (lexemes hiddenSample)) =
      .ok ⟨false, [.definition [] 0 8 (.function []) ['f'] hiddenScope.body]⟩ := by
    with_unfolding_all rfl
  have hrest : (Lexeme.unmarked (lexemes hiddenSample)).drop 5 =
      (opens "\n    ".toList :: ([quoted [] "\"a\"".toList] ++ [closes " \\\n".toList])) ++
        lastLine := by with_unfolding_all rfl
  have hliteral : Adjacent true _ [quoted [] "\"a\"".toList] := .one (.plain (plain_quoted ..))
  have henclosed : Enclosed false _ 1 true
      (opens "\n    ".toList :: ([quoted [] "\"a\"".toList] ++ [closes " \\\n".toList])) :=
    (Enclosed.bare hliteral).wrap "\n    ".toList " \\\n".toList
  have hfound := h hiddenSample _ hiddenScope 5 _ _ _ _ _ hmodule
    (List.mem_cons_of_mem _ List.mem_cons_self) rfl hrest henclosed ends_lastLine
  cases hfound

end SourceSurvey.Syntax
