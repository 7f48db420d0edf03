import SourceSurvey.Proofs.Splices.Places
import SourceSurvey.Proofs.Splices.Seams
import SourceSurvey.Proofs.Splices.Statements

/-!
One more joined line inside the parentheses of a documentation. The source is accepted as it was,
and as the same statements; the documentation is lost unless that line stands between two literals or
directly before one, and no other documentation changes.
-/

namespace SourceSurvey.Syntax

/-! ### Scopes of the source with the joined line -/

/-- The text of literals does not depend on the blanks before them. -/
theorem documentation?_of_spelling {literals literals' : List Lexeme}
    (h : literals'.map Lexeme.spelling = literals.map Lexeme.spelling) :
    documentation? literals' = documentation? literals := by
  have hvalues : literals'.mapM Lexeme.value? = literals.mapM Lexeme.value? := by
    induction literals generalizing literals' with
    | nil => rw [List.map_eq_nil_iff.mp h]
    | cons l literals ih =>
      obtain ⟨l', rest, rfl, hl, hrest⟩ := List.map_eq_cons_iff.mp h
      have hvalue : l'.value? = l.value? := by
        rw [Lexeme.value?, Lexeme.value?, token_of_spelling hl,
          show l'.text = l.text from congrArg Prod.fst hl]
      rw [List.mapM_cons, List.mapM_cons, hvalue, ih hrest]
  rw [documentation?, documentation?, hvalues]

/-- The documentation of each scope of a source. -/
def Module.docstrings (m : Module) (source : List Lexeme) : List (Option (List Char)) :=
  m.scopes.map (·.docstring? source)

namespace Seam

variable {text : List Char} {m : Module} {t : Nat} (j : Seam text t)
  (hmodule : Module.ofPieces (Piece.ofLexemes (lexemes text)) = .ok m)
  (ht : t ∈ startsOf m.body) (hplain : ∀ l ∈ j.literals, l.Plain)

/-- The place is within the statement. -/
theorem lt_length_run {l : Lexeme} :
    j.before.length < t + ((Lexeme.unmarked j.before).drop t ++ l :: j.behind).length := by
  have hbegun := j.begun
  rw [List.length_append, List.length_drop, length_unmarked, List.length_cons]
  omega

include hmodule hplain

theorem lexemes_joined_of_ofPieces : lexemes j.joined =
    j.before ++ j.lexeme.splice j.offset :: (j.behind ++ j.rest) :=
  j.lexemes_joined (token_ne_invalid_of_ofPieces hmodule) hplain

theorem unmarked_joined : Lexeme.unmarked (lexemes j.joined) =
    Lexeme.unmarked j.before ++ j.lexeme.splice j.offset :: (j.behind ++ j.rest) := by
  rw [j.lexemes_joined_of_ofPieces hmodule hplain, unmarked_append j.before_ne_nil]

theorem drop_joined : (Lexeme.unmarked (lexemes j.joined)).drop t =
    ((Lexeme.unmarked j.before).drop t ++ j.lexeme.splice j.offset :: j.behind) ++ j.rest := by
  rw [j.unmarked_joined hmodule hplain, List.drop_append_of_le_length j.lt_length_unmarked.le,
    List.append_assoc, List.cons_append]

omit hplain in
theorem token_ofLexeme_ne_invalid : (Piece.ofLexeme j.lexeme).token ≠ .invalid := by
  refine token_ne_invalid_of_mem hmodule _ ?_
  rw [ofLexemes_eq, j.unmarked_source]
  exact List.mem_map_of_mem (List.mem_append_right _ List.mem_cons_self)

theorem alike_lexeme :
    (Piece.ofLexeme j.lexeme).Alike (Piece.ofLexeme (j.lexeme.splice j.offset)) := by
  obtain ⟨-, hfinish, hstar, -⟩ := Token.inCode_of_isEnclosed (j.isEnclosed_lexeme hplain)
  exact alike_splice j.blanks hfinish hstar (j.token_ofLexeme_ne_invalid hmodule)

/-- The source with the joined line is read as the same statements. -/
theorem exists_ofPieces_joined : ∃ m',
    Module.ofPieces (Piece.ofLexemes (lexemes j.joined)) = .ok m' ∧
      Statement.AllAlike m.body m'.body := by
  obtain ⟨-, hfinish, hstar, -⟩ := Token.inCode_of_isEnclosed (j.isEnclosed_lexeme hplain)
  have hpieces : List.Forall₂ Piece.Alike (Piece.ofLexemes (lexemes text))
      (Piece.ofLexemes (lexemes j.joined)) := by
    rw [j.lexemes_joined_of_ofPieces hmodule hplain, j.cut]
    exact alike_ofLexemes_splice j.before_ne_nil j.blanks hfinish hstar
      (j.token_ofLexeme_ne_invalid hmodule)
  have halike := ofPieces_of_alike hpieces
  rw [hmodule] at halike
  obtain ⟨m', hm', hbody⟩ := exists_of_map_eq_ok halike.symm
  exact ⟨m', hm', hbody.symm⟩

omit hmodule in
/-- Where literals do not stand on both sides, nothing stands in the way before the joined line. -/
theorem splices_lexeme (hhidden : j.hidden = false) (hbetween : j.between = false) :
    j.lexeme.splices = false := by
  obtain ⟨first, between, hfirst⟩ := j.exists_first
  have henclosed := j.enclosed
  rw [hfirst, hhidden] at henclosed
  have hsame : j.lexeme.spelling = j.lexeme.spelling := rfl
  obtain ⟨literals, hspelling, hsame⟩ :=
    henclosed.splice (.inr (Nat.succ_pos _)) hplain hsame
  have hhere := (henclosed.hidden_eq hplain).trans
    (hsame.hidden_eq (plain_of_spelling hplain hspelling)).symm
  rw [Seam.between, hfirst] at hbetween
  rw [hbetween, Bool.not_false, Bool.and_true] at hhere
  exact hhere.symm

/-- There the joined line stands on its own, unless a literal comes directly behind it. -/
theorem splices_splice (hhidden : j.hidden = false) (hbetween : j.between = false) :
    (j.lexeme.splice j.offset).splices = !j.lexeme.token.startsLiteral := by
  have hsplices := j.splices_lexeme hplain hhidden hbetween
  have hgap : (j.lexeme.splice j.offset).gap.contains '\\' = true := by simp [Lexeme.splice]
  have htoken : (j.lexeme.splice j.offset).token = j.lexeme.token := rfl
  have hnear := near_ofGap_splice (l := j.lexeme) j.blanks
  rw [Lexeme.splices, hgap, htoken, Bool.true_and, ← hnear.blocked]
  cases hstarts : j.lexeme.token.startsLiteral with
  | false => rfl
  | true =>
    obtain ⟨-, hfinish, -⟩ := Token.inCode_of_isEnclosed (j.isEnclosed_lexeme hplain)
    rw [Bool.not_true, Bool.false_or]
    by_contra hblocked
    rw [Bool.not_eq_false] at hblocked
    obtain hmasked | hspliced := masked_or_spliced_of_blocked hblocked
    · have hvalid := j.token_ofLexeme_ne_invalid hmodule
      rw [ofLexeme_of_ne hfinish, hmasked, hstarts] at hvalid
      exact hvalid rfl
    · rw [spliced_ofGap] at hspliced
      rw [Lexeme.splices, hspliced, hblocked, Bool.or_true] at hsplices
      cases hsplices

variable {m' : Module}
  (hmodule' : Module.ofPieces (Piece.ofLexemes (lexemes j.joined)) = .ok m')

include hmodule' in
/-- The joined line does not stand before the first statement of the source. -/
theorem spliced_eq : m.spliced = m'.spliced := by
  obtain ⟨l, hl, hcomment⟩ : ∃ l ∈ Lexeme.unmarked j.before, l.token ≠ .comment := by
    obtain ⟨first, between, hfirst⟩ := j.exists_first
    refine ⟨first, List.mem_of_mem_drop (hfirst ▸ List.mem_cons_self), ?_⟩
    have henclosed := j.enclosed
    rw [hfirst] at henclosed
    exact henclosed.ne_comment
  obtain ⟨first, hfirst⟩ := Option.isSome_iff_exists.mp
    (List.find?_isSome (p := (·.token ≠ .comment)) |>.mpr ⟨l, hl, decide_eq_true hcomment⟩)
  obtain ⟨hfound, comments, more, hsplit, hcomments⟩ := List.find?_eq_some_iff_append.mp hfirst
  replace hcomments : Comments comments := fun k hk => by simpa using hcomments k hk
  have hsource := j.unmarked_source
  have hjoined := j.unmarked_joined hmodule hplain
  rw [hsplit, List.append_assoc] at hsource hjoined
  rw [spliced_of_ofPieces hmodule hsource hcomments (of_decide_eq_true hfound),
    spliced_of_ofPieces hmodule' hjoined hcomments (of_decide_eq_true hfound)]

include ht

/-- No statement begins at the token that the place is before. -/
theorem not_mem_startsOf : j.before.length ∉ startsOf m.body :=
  not_mem_startsOf_of_enclosed hmodule ht j.drop_source j.enclosed hplain j.begun
    j.lt_length_run

/-- Where the check found nothing, it finds nothing in the source with the joined line. -/
theorem violation_joined (hbody : Statement.AllAlike m.body m'.body)
    (hsound : violation (placesOf (lexemes text)) m.body = none) :
    violation (placesOf (lexemes j.joined)) m'.body = none := by
  obtain ⟨-, hfinish, -, hvalid⟩ := Token.inCode_of_isEnclosed (j.isEnclosed_lexeme hplain)
  rw [violation, ← hbody.marksOf, ← violation, j.lexemes_joined_of_ofPieces hmodule hplain]
  exact violation_splice j.cut hfinish hvalid (fun u hu => lt_length_of_mem_startsOf hmodule hu)
    (j.not_mem_startsOf hmodule ht hplain) hsound

variable {s s' : Module}

include hmodule'

omit ht in
/-- The documentation in whose parentheses the line is joined is lost unless that line stands between
    two literals or directly before one. -/
theorem docstring?_here (hs : s ∈ m.scopes) (hs' : s' ∈ m'.scopes)
    (hstart : t ∈ (startsOf s.body).head?) (hstarts : startsOf s.body = startsOf s'.body)
    (hspliced : s.spliced = s'.spliced) (hdocstring : s.docstring? (lexemes text) ≠ none) :
    s'.docstring? (lexemes j.joined) =
      if j.between || j.lexeme.token.startsLiteral then s.docstring? (lexemes text) else none := by
  have hdocumented' := documented_of_mem_scopes hmodule' hs'
  have hdocumented := documented_of_mem_scopes hmodule hs
  have hvalue := hdocumented.literals t hstart j.drop_source j.enclosed j.ends
  obtain ⟨hs, hhidden⟩ : s.spliced = false ∧ j.hidden = false := by
    rw [← Bool.or_eq_false_iff, ← Bool.not_eq_true]
    intro hboth
    rw [hboth] at hvalue
    exact hdocstring hvalue
  obtain ⟨first, between, hfirst⟩ := j.exists_first
  have henclosed := j.enclosed
  rw [hfirst, hhidden] at henclosed
  have hsame : (j.lexeme.splice j.offset).spelling = j.lexeme.spelling := rfl
  obtain ⟨literals, hspelling, hjoined⟩ :=
    henclosed.splice (.inr (Nat.succ_pos _)) hplain hsame
  have hrest := j.drop_joined hmodule hplain
  rw [hfirst, List.cons_append] at hrest
  rw [← hfirst, ← Seam.between] at hjoined
  have hlost : ((j.lexeme.splice j.offset).splices && !j.between) =
      !(j.between || j.lexeme.token.startsLiteral) := by
    cases hbetween : j.between with
    | true => exact Bool.and_false _
    | false =>
      rw [j.splices_splice hmodule hplain hhidden hbetween, Bool.not_false, Bool.and_true,
        Bool.false_or]
  rw [hlost] at hjoined
  rw [hdocumented'.literals t (hstarts ▸ hstart) hrest hjoined j.ends, hvalue, hhidden, ← hspliced,
    hs, documentation?_of_spelling hspelling]
  cases j.between || j.lexeme.token.startsLiteral <;> rfl

include ht

/-- No other documentation changes. -/
theorem docstring?_elsewhere (hbody : startsOf m.body = startsOf m'.body) (hs : s ∈ m.scopes)
    (hs' : s' ∈ m'.scopes) (hstarts : startsOf s.body = startsOf s'.body)
    (hspliced : s.spliced = s'.spliced) (hother : ∀ u ∈ (startsOf s.body).head?, t ≠ u) :
    s'.docstring? (lexemes j.joined) = s.docstring? (lexemes text) := by
  have hsource := j.unmarked_source
  have hjoined := j.unmarked_joined hmodule hplain
  have hplace := j.lt_length_run (l := j.lexeme)
  have hplace' := j.lt_length_run (l := j.lexeme.splice j.offset)
  rw [← length_unmarked] at hplace hplace'
  have hbegun := j.lt_length_unmarked
  have halike := j.alike_lexeme hmodule hplain
  have htoken : j.lexeme.token = (j.lexeme.splice j.offset).token := rfl
  have hbreaks : j.lexeme.breaks = (j.lexeme.splice j.offset).breaks := halike.breaks
  -- either source is the other with the blanks of one token replaced
  have hset : (Lexeme.unmarked (lexemes text)).set (Lexeme.unmarked j.before).length
      (j.lexeme.splice j.offset) = Lexeme.unmarked (lexemes j.joined) := by
    rw [hjoined, hsource, set_length_append]
  have hset' : (Lexeme.unmarked (lexemes j.joined)).set (Lexeme.unmarked j.before).length
      j.lexeme = Lexeme.unmarked (lexemes text) := by
    rw [hjoined, hsource, set_length_append]
  by_cases hnone : s.docstring? (lexemes text) = none
  · by_contra hchanged
    rw [hnone] at hchanged
    have hsame : ((Lexeme.unmarked j.before).drop t ++ j.lexeme.splice j.offset :: j.behind).map
        Lexeme.spelling =
          ((Lexeme.unmarked j.before).drop t ++ j.lexeme :: j.behind).map Lexeme.spelling := by
      rw [List.map_append, List.map_append]
      rfl
    obtain ⟨literals, hidden, henclosed, hspelling⟩ :=
      j.enclosed.of_spelling (.inr (Nat.succ_pos _)) hsame
    have hback := docstring?_eq_of_set hmodule' hmodule (by rw [hjoined, getElem?_length_append])
      hset' htoken hbreaks (hbody ▸ ht)
      (j.drop_joined hmodule hplain) henclosed (plain_of_spelling hplain hspelling) hbegun
      hplace' hs' hs hstarts.symm hspliced.symm (hstarts ▸ hother) hchanged
    exact hchanged (hback.symm.trans hnone)
  · exact docstring?_eq_of_set hmodule hmodule' (by rw [hsource, getElem?_length_append])
      hset htoken.symm hbreaks.symm ht j.drop_source j.enclosed
      hplain hbegun hplace hs hs' hstarts hspliced hother hnone

omit hplain hmodule' ht in
/-- What documents a scope has no interpolations. -/
theorem plain_of_docstring? (hs : s ∈ m.scopes) (hstart : t ∈ (startsOf s.body).head?)
    (hdocstring : s.docstring? (lexemes text) ≠ none) : ∀ l ∈ j.literals, l.Plain := by
  rw [(documented_of_mem_scopes hmodule hs).literals t hstart j.drop_source j.enclosed j.ends]
    at hdocstring
  have hvalues : (j.literals.mapM Lexeme.value?).isSome = true := by
    rw [Option.isSome_iff_ne_none]
    intro hnone
    rw [documentation?, hnone, Option.map_none, ite_self] at hdocstring
    exact hdocstring rfl
  exact fun l hl => l.plain_of_value? (mapM_value?_isSome.mp hvalues l hl)

/-- The documentation of all scopes of the source with the joined line. -/
theorem docstrings_eq_set {i : Nat} (hbody : Statement.AllAlike m.body m'.body)
    (hs : m.scopes[i]? = some s) (hstart : t ∈ (startsOf s.body).head?)
    (hdocstring : s.docstring? (lexemes text) ≠ none) :
    m'.docstrings (lexemes j.joined) = (m.docstrings (lexemes text)).set i
      (if j.between || j.lexeme.token.startsLiteral then s.docstring? (lexemes text) else none) := by
  have hscopes := scopes_of_allAlike hbody (j.spliced_eq hmodule hplain hmodule')
  refine List.ext_getElem? fun k => ?_
  have hk := congrArg (fun list => list[k]?) hscopes
  simp only [List.getElem?_map] at hk
  rw [List.getElem?_set, Module.docstrings, Module.docstrings, List.getElem?_map,
    List.getElem?_map, List.length_map]
  cases hu : m.scopes[k]? with
  | none =>
    rw [hu, Option.map_none, eq_comm, Option.map_eq_none_iff] at hk
    have hlength : m.scopes.length ≤ k := List.getElem?_eq_none_iff.mp hu
    rw [hk]
    split
    · next heq => rw [if_neg (by omega)]; rfl
    · rfl
  | some u =>
    rw [hu, Option.map_some, eq_comm, Option.map_eq_some_iff] at hk
    obtain ⟨u', hu', hsame⟩ := hk
    obtain ⟨hspliced, hall⟩ := Prod.mk.inj hsame
    have hstarts : startsOf u.body = startsOf u'.body := Statement.AllAlike.startsOf hall.symm
    have hmem := List.mem_of_getElem? hu
    have hmem' := List.mem_of_getElem? hu'
    rw [hu', Option.map_some, Option.map_some]
    split
    · next heq =>
      subst heq
      obtain rfl := Option.some.inj (hs.symm.trans hu)
      obtain ⟨hlt, -⟩ := List.getElem?_eq_some_iff.mp hs
      rw [if_pos hlt, j.docstring?_here hmodule hplain hmodule' hmem hmem' hstart hstarts
        hspliced.symm hdocstring]
    · next hne =>
      rw [j.docstring?_elsewhere hmodule ht hplain hmodule' hbody.startsOf hmem hmem' hstarts
        hspliced.symm fun v hv => ne_of_scopes hmodule hs hu hne hstart hv]

end Seam

/-- One more joined line between two tokens inside the parentheses of a documentation leaves an
    accepted source accepted, with the same tokens and the same statements. If that line stands
    between two literals or directly before one, every scope is documented as it was; otherwise that
    documentation is lost, and no other changes. -/
theorem docstrings_joined {text : List Char} {found : Definitions} {m s : Module} {i t : Nat}
    (hfound : definitions text = .ok found)
    (hmodule : Module.ofPieces (Piece.ofLexemes (lexemes text)) = .ok m)
    (hs : m.scopes[i]? = some s) (ht : t ∈ (startsOf s.body).head?)
    (hdocstring : s.docstring? (lexemes text) ≠ none) (j : Seam text t) :
    ∃ found' m', definitions j.joined = .ok found' ∧
      Module.ofPieces (Piece.ofLexemes (lexemes j.joined)) = .ok m' ∧
      lexemes j.joined = j.before ++ j.lexeme.splice j.offset :: (j.behind ++ j.rest) ∧
      Statement.AllAlike m.body m'.body ∧
      m'.docstrings (lexemes j.joined) =
        if j.between || j.lexeme.token.startsLiteral then m.docstrings (lexemes text)
        else (m.docstrings (lexemes text)).set i none := by
  have hmem := List.mem_of_getElem? hs
  have hstart := mem_startsOf_of_mem_scopes hmem ht
  have hplain := j.plain_of_docstring? hmodule hmem ht hdocstring
  have hsound : violation (placesOf (lexemes text)) m.body = none := by
    rw [definitions_of_ok hmodule] at hfound
    split at hfound
    · cases hfound
    · assumption
  obtain ⟨m', hmodule', hbody⟩ := j.exists_ofPieces_joined hmodule hplain
  have hfound' := definitions_of_ok hmodule'
  rw [j.violation_joined hmodule hstart hplain hbody hsound] at hfound'
  have hlexemes := j.lexemes_joined_of_ofPieces hmodule hplain
  refine ⟨_, m', hfound', hmodule', hlexemes, hbody, ?_⟩
  rw [j.docstrings_eq_set hmodule hstart hplain hmodule' hbody hs ht hdocstring]
  cases j.between || j.lexeme.token.startsLiteral with
  | true =>
    refine set_of_getElem? ?_
    rw [Module.docstrings, List.getElem?_map, hs]
    rfl
  | false => rfl

/-! ### Samples -/

/-- The heading of a function without parameters. -/
def plainHeading : List Lexeme :=
  [⟨[], "def".toList, .word "def".toList⟩, ⟨[' '], ['f'], .word ['f']⟩, opens [], closes [],
    ⟨[], [':'], .symbol .colon⟩]

/-- A function with two literals in parentheses. -/
def pairSample : List Char := "def f():\n    (\"a\" 'b')\n".toList

/-- The body of that function. -/
def pairScope : Module := ⟨false, [.expression 5 (.group false (.literal [.plain 6, .plain 7]))]⟩

/-- That source. -/
def pairModule : Module := ⟨false, [.definition [] 0 9 (.function []) ['f'] pairScope.body]⟩

/-- The place behind the blank between the literals. -/
def pairSeam : Seam pairSample 5 where
  before := plainHeading ++ [opens "\n    ".toList, quoted [] "\"a\"".toList]
  lexeme := quoted [' '] "'b'".toList
  behind := [closes []]
  rest := lastLine
  offset := 1
  literals := [quoted [] "\"a\"".toList, quoted [' '] "'b'".toList]
  parentheses := 0
  hidden := false
  cut := by with_unfolding_all rfl
  begun := by decide
  enclosed := by
    have hnothing : Joins true [] (quoted [' '] "'b'".toList) := comments_nil
    have hliterals : Adjacent true _ [quoted [] "\"a\"".toList, quoted [' '] "'b'".toList] :=
      .more (.plain (plain_quoted ..)) hnothing (.one (.plain (plain_quoted ..)))
    exact (Enclosed.bare hliterals).wrap "\n    ".toList []
  ends := ends_lastLine
  blanks := .separator rfl .nil
  clear := nofun

set_option maxRecDepth 8000 in
/-- A joined line between the literals changes nothing. -/
theorem docstrings_joined_pair :
    (∃ found, definitions pairSample = .ok found) ∧
      Module.ofPieces (Piece.ofLexemes (lexemes pairSample)) = .ok pairModule ∧
      pairModule.scopes[1]? = some pairScope ∧ 5 ∈ (startsOf pairScope.body).head? ∧
      pairScope.docstring? (lexemes pairSample) = some ['a', 'b'] ∧
      pairSeam.joined = "def f():\n    (\"a\" \\\n'b')\n".toList ∧
      ∃ found' m', definitions pairSeam.joined = .ok found' ∧
        Module.ofPieces (Piece.ofLexemes (lexemes pairSeam.joined)) = .ok m' ∧
        m'.docstrings (lexemes pairSeam.joined) = [none, some ['a', 'b']] := by
  have hmodule : Module.ofPieces (Piece.ofLexemes (lexemes pairSample)) = .ok pairModule := by
    with_unfolding_all rfl
  have hsound : violation (placesOf (lexemes pairSample)) pairModule.body = none := by
    with_unfolding_all rfl
  have hfound := definitions_of_ok hmodule
  rw [hsound] at hfound
  have hdocstring : pairScope.docstring? (lexemes pairSample) = some ['a', 'b'] := by
    with_unfolding_all rfl
  have hdocstrings : pairModule.docstrings (lexemes pairSample) = [none, some ['a', 'b']] := by
    with_unfolding_all rfl
  have hscope : pairModule.scopes[1]? = some pairScope := rfl
  have hdocumented : pairScope.docstring? (lexemes pairSample) ≠ none := by
    rw [hdocstring]
    exact Option.some_ne_none _
  obtain ⟨found', m', hfound', hmodule', -, -, hjoined⟩ :=
    docstrings_joined hfound hmodule hscope rfl hdocumented pairSeam
  rw [if_pos (by decide), hdocstrings] at hjoined
  exact ⟨⟨_, hfound⟩, hmodule, rfl, rfl, hdocstring, by decide, found', m', hfound', hmodule',
    hjoined⟩

/-- A function with a literal in parentheses, and a blank behind it. -/
def spacedSample : List Char := "def f():\n    (\"a\" )\n".toList

/-- The body of that function, without or with a joined line in the parentheses. -/
def spacedScope (spliced : Bool) : Module :=
  ⟨false, [.expression 5 (.group spliced (.literal [.plain 6]))]⟩

/-- That source, without or with a joined line there. -/
def spacedModule (spliced : Bool) : Module :=
  ⟨false, [.definition [] 0 8 (.function []) ['f'] (spacedScope spliced).body]⟩

/-- The place behind that blank. -/
def spacedSeam : Seam spacedSample 5 where
  before := plainHeading ++ [opens "\n    ".toList, quoted [] "\"a\"".toList]
  lexeme := closes [' ']
  behind := []
  rest := lastLine
  offset := 1
  literals := [quoted [] "\"a\"".toList]
  parentheses := 0
  hidden := false
  cut := by with_unfolding_all rfl
  begun := by decide
  enclosed := by
    have hliteral : Adjacent true _ [quoted [] "\"a\"".toList] := .one (.plain (plain_quoted ..))
    exact (Enclosed.bare hliteral).wrap "\n    ".toList [' ']
  ends := ends_lastLine
  blanks := .separator rfl .nil
  clear := nofun

set_option maxRecDepth 8000 in
/-- A joined line in the parentheses of a documentation may hide it. -/
theorem not_forall_docstrings_joined :
    ¬ ∀ text found m (s : Module) (i t : Nat) (j : Seam text t), definitions text = .ok found →
      Module.ofPieces (Piece.ofLexemes (lexemes text)) = .ok m → m.scopes[i]? = some s →
      t ∈ (startsOf s.body).head? → s.docstring? (lexemes text) ≠ none →
      ∀ m', Module.ofPieces (Piece.ofLexemes (lexemes j.joined)) = .ok m' →
        m'.docstrings (lexemes j.joined) = m.docstrings (lexemes text) := by
  intro h
  have hmodule : Module.ofPieces (Piece.ofLexemes (lexemes spacedSample)) =
      .ok (spacedModule false) := by with_unfolding_all rfl
  have hsound : violation (placesOf (lexemes spacedSample)) (spacedModule false).body = none := by
    with_unfolding_all rfl
  have hfound := definitions_of_ok hmodule
  rw [hsound] at hfound
  have hdocstring : (spacedScope false).docstring? (lexemes spacedSample) = some ['a'] := by
    with_unfolding_all rfl
  have hdocumented : (spacedScope false).docstring? (lexemes spacedSample) ≠ none := by
    rw [hdocstring]
    exact Option.some_ne_none _
  have hjoined : spacedSeam.joined = "def f():\n    (\"a\" \\\n)\n".toList := by decide
  have hmodule' : Module.ofPieces (Piece.ofLexemes (lexemes spacedSeam.joined)) =
      .ok (spacedModule true) := by
    rw [hjoined]
    with_unfolding_all rfl
  have hsame := h spacedSample _ _ (spacedScope false) 1 5 spacedSeam hfound hmodule rfl rfl
    hdocumented _ hmodule'
  have hbefore : (spacedModule false).docstrings (lexemes spacedSample) = [none, some ['a']] := by
    with_unfolding_all rfl
  have hbehind : (spacedModule true).docstrings (lexemes spacedSeam.joined) = [none, none] := by
    rw [hjoined]
    with_unfolding_all rfl
  rw [hbefore, hbehind] at hsame
  cases hsame

end SourceSurvey.Syntax
