import SourceSurvey.Proofs.Documentation.Docstrings
import SourceSurvey.Proofs.Splices.Lines
import SourceSurvey.Proofs.Splices.Runs

/-!
Scopes, and the tokens of what documents them. No statement begins within the parentheses around
literals, so a token there belongs to the documentation of one scope at most: all others are
documented as they are, whatever blanks come before that token.
-/

namespace SourceSurvey.Syntax

/-! ### Statements without marks -/

/-- A definition without the marks of joined lines. -/
def Extent.bare (e : Extent) : Extent := { e with body := Statement.bareAll e.body }

mutual

theorem Statement.marks_bare : ∀ s : Statement, s.bare.marks = s.marks
  | .definition _ _ _ _ _ body => by
    rw [Statement.bare, Statement.marks, Statement.marks, Statement.marksOf_bareAll body]
  | .block _ body => by
    rw [Statement.bare, Statement.marks, Statement.marks, Statement.marksOf_bareAll body]
  | .expression .. | .importing .. | .legacy .. | .plain _ => rfl

theorem Statement.marksOf_bareAll : ∀ body : List Statement,
    Statement.marksOf (Statement.bareAll body) = Statement.marksOf body
  | [] => rfl
  | s :: rest => by
    rw [Statement.bareAll, Statement.marksOf, Statement.marksOf, s.marks_bare,
      Statement.marksOf_bareAll rest]

end

mutual

theorem Statement.extents_bare : ∀ s : Statement, s.bare.extents = s.extents.map Extent.bare
  | .definition _ _ _ _ _ body => by
    rw [Statement.bare, Statement.extents, Statement.extents, List.map_cons,
      Statement.extentsOf_bareAll body]
    rfl
  | .block _ body => by
    rw [Statement.bare, Statement.extents, Statement.extents, Statement.extentsOf_bareAll body]
  | .expression .. | .importing .. | .legacy .. | .plain _ => rfl

theorem Statement.extentsOf_bareAll : ∀ body : List Statement,
    Statement.extentsOf (Statement.bareAll body) = (Statement.extentsOf body).map Extent.bare
  | [] => rfl
  | s :: rest => by
    rw [Statement.bareAll, Statement.extentsOf, Statement.extentsOf, List.map_append,
      s.extents_bare, Statement.extentsOf_bareAll rest]

end

theorem Statement.AllAlike.marksOf {body body' : List Statement}
    (h : Statement.AllAlike body body') : Statement.marksOf body = Statement.marksOf body' := by
  rw [← Statement.marksOf_bareAll, ← Statement.marksOf_bareAll body']
  exact congrArg Statement.marksOf h

theorem Statement.AllAlike.startsOf {body body' : List Statement}
    (h : Statement.AllAlike body body') : Syntax.startsOf body = Syntax.startsOf body' := by
  rw [Syntax.startsOf, Syntax.startsOf, h.marksOf]

/-- Sources that differ in the marks of joined lines have the same scopes but for these marks. -/
theorem scopes_of_allAlike {m m' : Module} (h : Statement.AllAlike m.body m'.body)
    (hspliced : m.spliced = m'.spliced) :
    m.scopes.map (fun s => (s.spliced, Statement.bareAll s.body)) =
      m'.scopes.map fun s => (s.spliced, Statement.bareAll s.body) := by
  have hextents := congrArg Statement.extentsOf h
  rw [Statement.extentsOf_bareAll, Statement.extentsOf_bareAll] at hextents
  have hbodies := congrArg (List.map fun e : Extent => (false, e.body)) hextents
  rw [List.map_map, List.map_map] at hbodies
  rw [Module.scopes, Module.scopes, List.map_cons, List.map_cons, List.map_map, List.map_map,
    hspliced, show Statement.bareAll m.body = Statement.bareAll m'.body from h]
  exact congrArg _ hbodies

/-! ### First tokens of scopes -/

/-- The first tokens of the bodies of some definitions. -/
def headsOf (extents : List Extent) : List Nat :=
  extents.filterMap fun e => (startsOf e.body).head?

theorem headsOf_cons (e : Extent) (rest : List Extent) :
    headsOf (e :: rest) = (startsOf e.body).head?.toList ++ headsOf rest := by
  rw [headsOf, List.filterMap_cons]
  cases (startsOf e.body).head? <;> rfl

/-- The first of some tokens in front of others that come behind it. -/
theorem sublist_head?_append {starts heads : List Nat} (h : heads.Sublist starts.tail) :
    (starts.head?.toList ++ heads).Sublist starts := by
  cases starts with
  | nil => exact h
  | cons t starts => exact h.cons_cons t

theorem sublist_tail_append (first second : List Nat) :
    (first.tail ++ second.tail).Sublist (first ++ second).tail := by
  cases first with
  | nil => exact List.Sublist.refl _
  | cons t first => exact (List.Sublist.refl first).append (List.tail_sublist second)

mutual

theorem Statement.sublist_heads : ∀ s : Statement,
    (headsOf s.extents).Sublist (startsOf [s]).tail
  | .definition decorators start _ _ _ body => by
    rw [Statement.extents, headsOf_cons, startsOf_definition]
    refine (sublist_head?_append (Statement.sublist_headsOf body)).trans ?_
    cases decorators with
    | nil => exact List.Sublist.refl _
    | cons d decorators =>
      exact (List.sublist_cons_self start _).trans (List.sublist_append_right decorators _)
  | .block start body => by
    rw [startsOf_block]
    exact (Statement.sublist_headsOf body).trans (List.tail_sublist _)
  | .expression .. | .importing .. | .legacy .. | .plain _ => List.Sublist.refl _

/-- The bodies of definitions begin with statements behind the first, one behind the other. -/
theorem Statement.sublist_headsOf : ∀ body : List Statement,
    (headsOf (Statement.extentsOf body)).Sublist (startsOf body).tail
  | [] => List.Sublist.refl _
  | s :: rest => by
    rw [Statement.extentsOf, headsOf, List.filterMap_append, startsOf_cons]
    exact (s.sublist_heads.append (Statement.sublist_headsOf rest)).trans
      (sublist_tail_append _ _)

end

theorem sublist_heads_scopes (m : Module) :
    (m.scopes.filterMap fun s => (startsOf s.body).head?).Sublist (startsOf m.body) := by
  have hheads : m.scopes.filterMap (fun s => (startsOf s.body).head?) =
      (startsOf m.body).head?.toList ++ headsOf (Statement.extentsOf m.body) := by
    rw [Module.scopes, List.filterMap_cons, List.filterMap_map]
    cases (startsOf m.body).head? <;> rfl
  rw [hheads]
  exact sublist_head?_append (Statement.sublist_headsOf m.body)

section Accepted

variable {text : List Char} {m s s' : Module} {i j t u : Nat}
  (hmodule : Module.ofPieces (Piece.ofLexemes (lexemes text)) = .ok m)

theorem mem_startsOf_of_mem_scopes (hs : s ∈ m.scopes) (ht : t ∈ (startsOf s.body).head?) :
    t ∈ startsOf m.body :=
  (sublist_heads_scopes m).subset (List.mem_filterMap.mpr ⟨s, hs, ht⟩)

include hmodule

theorem documented_of_mem_scopes (hs : s ∈ m.scopes) : Documented (lexemes text) s := by
  obtain ⟨lo, hi, hbuilt⟩ := exists_built_of_mem_scopes hmodule hs
  exact (legible_of_ofPieces hmodule).documented hbuilt

/-- No two scopes of an accepted source begin with the same statement. -/
theorem ne_of_scopes (hs : m.scopes[i]? = some s) (hs' : m.scopes[j]? = some s') (hne : i ≠ j)
    (ht : t ∈ (startsOf s.body).head?) (hu : u ∈ (startsOf s'.body).head?) : t ≠ u := by
  have hascending := (ascending_startsOf hmodule).sublist (sublist_heads_scopes m)
  rw [List.pairwise_filterMap, List.pairwise_iff_getElem] at hascending
  obtain ⟨hi, rfl⟩ := List.getElem?_eq_some_iff.mp hs
  obtain ⟨hj, rfl⟩ := List.getElem?_eq_some_iff.mp hs'
  obtain hless | hless := Nat.lt_or_gt_of_ne hne
  · exact Nat.ne_of_lt (hascending i j hi hj hless t ht u hu)
  · exact Nat.ne_of_gt (hascending j i hj hi hless u hu t ht)

end Accepted

/-! ### Parentheses -/

theorem nesting_eq_zero {list : List Lexeme} (h : ∀ l ∈ list, l.token.nesting = 0) :
    nesting (list.map Lexeme.token) = 0 := by
  induction list with
  | nil => rfl
  | cons l list ih =>
    obtain ⟨hl, hlist⟩ := List.forall_mem_cons.mp h
    rw [List.map_cons, nesting_cons, hl, ih hlist, Int.add_zero]

theorem Comments.nesting_token {list : List Lexeme} (h : Comments list) :
    ∀ l ∈ list, l.token.nesting = 0 := by
  intro l hl
  rw [h l hl]
  rfl

section Run

variable {inside hidden : Bool} {n : Nat} {literals run : List Lexeme}

theorem Adjacent.nesting_token (h : Adjacent inside literals run)
    (hplain : ∀ l ∈ literals, l.Plain) : ∀ l ∈ run, l.token.nesting = 0 :=
  h.forall_mem hplain (fun l ⟨bare, htoken⟩ => by rw [htoken]; rfl) fun l hl => by rw [hl]; rfl

/-- Literals in parentheses close none that they have not opened, and all but their first and last
    tokens stand within their own. -/
theorem Enclosed.nesting_take (h : Enclosed inside literals n hidden run)
    (hplain : ∀ l ∈ literals, l.Plain) (k : Nat) :
    0 ≤ nesting ((run.take k).map Lexeme.token) ∧
      (0 < n → 0 < k → k < run.length → 1 ≤ nesting ((run.take k).map Lexeme.token)) := by
  induction h generalizing k with
  | bare h =>
    have hzero := nesting_eq_zero fun l hl =>
      h.nesting_token hplain l (List.mem_of_mem_take (i := k) hl)
    exact ⟨Int.le_of_eq hzero.symm, fun hn => absurd hn (Nat.lt_irrefl 0)⟩
  | @parens _ _ _ opening first closing _ before rest after hopening hbefore _ hafter hclosing ih =>
    cases k with
    | zero => exact ⟨Int.le_refl 0, fun _ hk => absurd hk (Nat.lt_irrefl 0)⟩
    | succ k =>
      have hcomments : ∀ {list : List Lexeme}, Comments list → ∀ i,
          nesting ((list.take i).map Lexeme.token) = 0 := fun hlist i =>
        nesting_eq_zero fun l hl => hlist.nesting_token l (List.mem_of_mem_take hl)
      have hone : opening.token.nesting = 1 := by rw [hopening]; rfl
      have hinner := (ih hplain (k - before.length)).1
      have hlast : ∀ i, nesting ((List.take i [closing]).map Lexeme.token) =
          if i = 0 then 0 else -1 := by
        intro i
        cases i with
        | zero => rfl
        | succ i => simp [hclosing, Token.nesting, Symbol.nesting]
      have hrun : first :: (rest ++ (after ++ [closing])) =
        (first :: rest) ++ (after ++ [closing]) := rfl
      rw [hrun, List.take_succ_cons, List.take_append, List.take_append, List.take_append]
      simp only [List.map_cons, List.map_append, nesting_cons, nesting_append, hone,
        hcomments hbefore, hcomments hafter, hlast, List.length_cons, List.length_append,
        List.length_nil]
      constructor
      · split <;> omega
      · intro _ _ hk
        rw [if_pos (by omega)]
        omega

end Run

theorem map_token_unmarked (source : List Lexeme) :
    (Lexeme.unmarked source).map Lexeme.token = source.map Lexeme.token := by
  cases source <;> rfl

section Accepted

variable {text : List Char} {m : Module} {literals literals' run run' rest rest' : List Lexeme}
  {hidden hidden' : Bool} {n n' t u p : Nat}
  (hmodule : Module.ofPieces (Piece.ofLexemes (lexemes text)) = .ok m)

include hmodule

theorem nesting_of_mem_startsOf (ht : t ∈ startsOf m.body) :
    nesting (((Lexeme.unmarked (lexemes text)).take t).map Lexeme.token) = 0 := by
  obtain ⟨l, -, -, -, hzero⟩ := exists_lexeme_of_mem_startsOf hmodule ht
  rw [List.map_take] at hzero ⊢
  rw [map_token_unmarked, hzero]

/-- No statement begins within the parentheses around literals. -/
theorem not_mem_startsOf_of_enclosed (ht : t ∈ startsOf m.body)
    (hrest : (Lexeme.unmarked (lexemes text)).drop t = run ++ rest)
    (henclosed : Enclosed false literals (n + 1) hidden run) (hplain : ∀ l ∈ literals, l.Plain)
    (hlt : t < u) (hu : u < t + run.length) : u ∉ startsOf m.body := by
  intro hmem
  obtain ⟨k, rfl⟩ := Nat.exists_eq_add_of_le hlt.le
  have hzero := nesting_of_mem_startsOf hmodule hmem
  rw [List.take_add, hrest, List.take_append_of_le_length (by omega), List.map_append,
    nesting_append, nesting_of_mem_startsOf hmodule ht, Int.zero_add] at hzero
  have hpositive := (henclosed.nesting_take hplain k).2 (Nat.succ_pos n) (by omega) (by omega)
  omega

/-- A token within the parentheses of one documentation does not belong to another. -/
theorem lt_or_le_of_enclosed (ht : t ∈ startsOf m.body) (hu : u ∈ startsOf m.body) (hne : t ≠ u)
    (hrest : (Lexeme.unmarked (lexemes text)).drop t = run ++ rest)
    (henclosed : Enclosed false literals (n + 1) hidden run) (hplain : ∀ l ∈ literals, l.Plain)
    (hrest' : (Lexeme.unmarked (lexemes text)).drop u = run' ++ rest')
    (henclosed' : Enclosed false literals' n' hidden' run') (hplain' : ∀ l ∈ literals', l.Plain)
    (hlt : t < p) (hp : p < t + run.length) : p < u ∨ u + run'.length ≤ p := by
  by_contra hinside
  rw [not_or, Nat.not_lt, Nat.not_le] at hinside
  obtain ⟨hle, hless⟩ := hinside
  obtain hbefore | hbehind := Nat.lt_or_gt_of_ne hne
  · exact not_mem_startsOf_of_enclosed hmodule ht hrest henclosed hplain hbefore (by omega) hu
  · cases henclosed' with
    | parens hopening hcomments h hafter hclosing =>
      exact not_mem_startsOf_of_enclosed hmodule hu hrest'
        (.parens hopening hcomments h hafter hclosing) hplain' hbehind (by omega) ht
    | bare h =>
      -- the first token of the one is a parenthesis, and the other has none
      obtain ⟨k, rfl⟩ := Nat.exists_eq_add_of_le hbehind.le
      have hfirst : run'[k]? = run[0]? := by
        have hk : ((Lexeme.unmarked (lexemes text)).drop u)[k]? =
            ((Lexeme.unmarked (lexemes text)).drop (u + k))[0]? := by
          rw [List.getElem?_drop, List.getElem?_drop, Nat.add_zero]
        rwa [hrest', hrest, List.getElem?_append_left (by omega),
          List.getElem?_append_left (by omega)] at hk
      cases henclosed with
      | parens hopening =>
        have hzero := h.nesting_token hplain' _ (List.mem_of_getElem? hfirst)
        rw [hopening] at hzero
        cases hzero

end Accepted

/-! ### Documentation elsewhere -/

/-- What ends an expression is told by tokens and by where lines begin. -/
theorem Ends.of_map {inside : Bool} {rest rest' : List Lexeme} (h : Ends inside rest)
    (hsame : rest'.map (fun l => (l.token, l.breaks)) = rest.map fun l => (l.token, l.breaks)) :
    Ends inside rest' := by
  have hcomments : ∀ {list list' : List Lexeme}, Comments list →
      list'.map (fun l => (l.token, l.breaks)) = list.map (fun l => (l.token, l.breaks)) →
        Comments list' := by
    intro list list' hlist heq
    have htokens := congrArg (List.map Prod.fst) heq
    rw [List.map_map, List.map_map] at htokens
    exact comments_of_tokens hlist htokens
  cases h with
  | closing hbefore hclosing =>
    rw [List.map_append, List.map_cons] at hsame
    obtain ⟨before, behind, rfl, hbefore', hbehind⟩ := List.map_eq_append_iff.mp hsame
    obtain ⟨closing, more, rfl, hlast, -⟩ := List.map_eq_cons_iff.mp hbehind
    exact .closing (hcomments hbefore hbefore') ((congrArg Prod.fst hlast).trans hclosing)
  | line hbefore hl =>
    rw [List.map_append, List.map_cons] at hsame
    obtain ⟨before, behind, rfl, hbefore', hbehind⟩ := List.map_eq_append_iff.mp hsame
    obtain ⟨last, more, rfl, hlast, -⟩ := List.map_eq_cons_iff.mp hbehind
    refine .line (hcomments hbefore hbefore') ?_
    rw [show last.token = _ from congrArg Prod.fst hlast,
      show last.breaks = _ from congrArg Prod.snd hlast]
    exact hl

/-- Nothing changes where an entry is replaced by itself. -/
theorem set_of_getElem? {α : Type} {list : List α} {i : Nat} {a : α} (h : list[i]? = some a) :
    list.set i a = list := by
  obtain ⟨hlt, rfl⟩ := List.getElem?_eq_some_iff.mp h
  exact List.set_getElem_self hlt

/-- Some tokens and what ends them are left as they are when a token elsewhere is replaced by the
    same token with other blanks. -/
theorem exists_run_set {list run rest : List Lexeme} {l l' : Lexeme} {p t : Nat}
    (hl : list[p]? = some l) (htoken : l'.token = l.token) (hbreaks : l'.breaks = l.breaks)
    (hrest : list.drop t = run ++ rest) (hends : Ends false rest)
    (hp : p < t ∨ t + run.length ≤ p) :
    ∃ rest', (list.set p l').drop t = run ++ rest' ∧ Ends false rest' := by
  by_cases hless : p < t
  · exact ⟨rest, by rw [List.drop_set_of_lt hless, hrest], hends⟩
  · obtain ⟨k, rfl⟩ := Nat.exists_eq_add_of_le (hp.resolve_left hless)
    have hk : rest[k]? = some l := by
      rw [Nat.add_assoc, ← List.getElem?_drop, hrest,
        List.getElem?_append_right (Nat.le_add_right _ _), Nat.add_sub_cancel_left] at hl
      exact hl
    refine ⟨rest.set k l', ?_, hends.of_map ?_⟩
    · rw [List.drop_set, if_neg hless, hrest, Nat.add_assoc, Nat.add_sub_cancel_left,
        List.set_append_right _ _ (Nat.le_add_right _ _), Nat.add_sub_cancel_left]
    · obtain ⟨hlt, rfl⟩ := List.getElem?_eq_some_iff.mp hk
      rw [List.map_set, htoken, hbreaks]
      exact set_of_getElem? (by rw [List.getElem?_map, List.getElem?_eq_getElem hlt]; rfl)

/-- A documented scope is documented as it was in another source in which its documentation stands
    as it did. -/
theorem docstring?_eq_of_run {source source' : List Lexeme} {s s' : Module}
    (hs : Documented source s) (hs' : Documented source' s')
    (hstarts : startsOf s.body = startsOf s'.body) (hspliced : s.spliced = s'.spliced)
    (hrun : ∀ t ∈ (startsOf s.body).head?, ∀ {literals n run rest},
      (Lexeme.unmarked source).drop t = run ++ rest → Enclosed false literals n false run →
        (∀ l ∈ literals, l.Plain) → Ends false rest →
          ∃ rest', (Lexeme.unmarked source').drop t = run ++ rest' ∧ Ends false rest')
    (h : s.docstring? source ≠ none) : s'.docstring? source' = s.docstring? source := by
  obtain ⟨-, t, ht, literals, n, run, rest, hrest, henclosed, hends, hvalues⟩ := hs.only h
  have hplain : ∀ l ∈ literals, l.Plain := fun l hl => l.plain_of_value? (hvalues l hl)
  obtain ⟨rest', hrest', hends'⟩ := hrun t ht hrest henclosed hplain hends
  rw [hs.literals t ht hrest henclosed hends,
    hs'.literals t (hstarts ▸ ht) hrest' henclosed hends', hspliced]

/-- A scope that is documented elsewhere is documented as it was in a source in which a token inside
    the parentheses of some documentation is the same token with other blanks. -/
theorem docstring?_eq_of_set {text text' : List Char} {m m' s s' : Module} {l l' : Lexeme}
    {literals run rest : List Lexeme} {n p t : Nat} {hidden : Bool}
    (hmodule : Module.ofPieces (Piece.ofLexemes (lexemes text)) = .ok m)
    (hmodule' : Module.ofPieces (Piece.ofLexemes (lexemes text')) = .ok m')
    (hl : (Lexeme.unmarked (lexemes text))[p]? = some l)
    (hset : (Lexeme.unmarked (lexemes text)).set p l' = Lexeme.unmarked (lexemes text'))
    (htoken : l'.token = l.token) (hbreaks : l'.breaks = l.breaks) (ht : t ∈ startsOf m.body)
    (hrest : (Lexeme.unmarked (lexemes text)).drop t = run ++ rest)
    (henclosed : Enclosed false literals (n + 1) hidden run) (hplain : ∀ l ∈ literals, l.Plain)
    (hlt : t < p) (hp : p < t + run.length) (hs : s ∈ m.scopes) (hs' : s' ∈ m'.scopes)
    (hstarts : startsOf s.body = startsOf s'.body) (hspliced : s.spliced = s'.spliced)
    (hother : ∀ u ∈ (startsOf s.body).head?, t ≠ u) (h : s.docstring? (lexemes text) ≠ none) :
    s'.docstring? (lexemes text') = s.docstring? (lexemes text) := by
  refine docstring?_eq_of_run (documented_of_mem_scopes hmodule hs)
    (documented_of_mem_scopes hmodule' hs') hstarts hspliced ?_ h
  intro u hu _ _ _ _ hrest' henclosed' hplain' hends
  rw [← hset]
  refine exists_run_set hl htoken hbreaks hrest' hends ?_
  exact lt_or_le_of_enclosed hmodule ht (mem_startsOf_of_mem_scopes hs hu) (hother u hu) hrest
    henclosed hplain hrest' henclosed' hplain' hlt hp

end SourceSurvey.Syntax
