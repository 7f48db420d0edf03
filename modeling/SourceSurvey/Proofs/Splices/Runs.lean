import SourceSurvey.Proofs.Documentation.Literals
import SourceSurvey.Syntax.Survey

/-!
Joined lines among the tokens of a documentation. What hides it is a joined line before one of its
tokens that does not stand between two of its literals; what the literals say does not depend on the
blanks between them.
-/

namespace SourceSurvey.Syntax

/-! ### Joined lines outside the literals -/

/-- Whether a joined line stands on its own before one of some lexemes that does not stand between two
    literals. There may be others before and behind them. -/
def outside (left right : Bool) : List Lexeme → Bool
  | [] => false
  | l :: rest =>
    l.splices && !(left && ((l :: rest).any (·.token.startsLiteral) || right)) ||
      outside (left || l.token.startsLiteral) right rest

theorem outside_append (left right : Bool) (first second : List Lexeme) :
    outside left right (first ++ second) =
      (outside left (second.any (·.token.startsLiteral) || right) first ||
        outside (left || first.any (·.token.startsLiteral)) right second) := by
  induction first generalizing left with
  | nil => simp [outside]
  | cons l first ih =>
    rw [List.cons_append, outside, outside, ih]
    simp [Bool.or_assoc]

/-- Before all literals every joined line is outside. -/
theorem outside_before {list : List Lexeme} (h : list.any (·.token.startsLiteral) = false)
    (right : Bool) : outside false right list = list.any Lexeme.splices := by
  induction list with
  | nil => rfl
  | cons l list ih =>
    rw [List.any_cons, Bool.or_eq_false_iff] at h
    rw [outside, h.1, List.any_cons, Bool.false_or, ih h.2]
    simp

/-- Behind all literals, too. -/
theorem outside_behind {list : List Lexeme} (h : list.any (·.token.startsLiteral) = false)
    (left : Bool) : outside left false list = list.any Lexeme.splices := by
  induction list generalizing left with
  | nil => rfl
  | cons l list ih =>
    have hrest := h
    rw [List.any_cons, Bool.or_eq_false_iff] at hrest
    rw [outside, h, List.any_cons, ih hrest.2]
    simp

/-- Between two literals no joined line is. -/
theorem outside_between (list : List Lexeme) : outside true true list = false := by
  induction list with
  | nil => rfl
  | cons l list ih => rw [outside, Bool.true_or, ih]; simp

/-- One more joined line, where there was none outside, is outside if it stands on its own and not
    between two literals. -/
theorem outside_splice {left right : Bool} {before after : List Lexeme} {l l' : Lexeme}
    (h : outside left right (before ++ l :: after) = false) (htoken : l'.token = l.token) :
    outside left right (before ++ l' :: after) =
      (l'.splices && !((left || before.any (·.token.startsLiteral)) &&
        ((l :: after).any (·.token.startsLiteral) || right))) := by
  have hany : (l' :: after).any (·.token.startsLiteral) =
      (l :: after).any (·.token.startsLiteral) := by
    rw [List.any_cons, List.any_cons, htoken]
  rw [outside_append, Bool.or_eq_false_iff, outside, Bool.or_eq_false_iff] at h
  obtain ⟨hbefore, -, hafter⟩ := h
  rw [outside_append, hany, hbefore, outside, hany, htoken, hafter, Bool.false_or, Bool.or_false]

theorem Comments.any_startsLiteral {list : List Lexeme} (h : Comments list) :
    list.any (·.token.startsLiteral) = false := by
  refine List.any_eq_false.mpr fun l hl => ?_
  rw [h l hl]
  nofun

section Run

variable {inside hidden : Bool} {n : Nat} {first : Lexeme} {literals run rest : List Lexeme}

theorem Joins.comments {between : List Lexeme} {next : Lexeme} (h : Joins inside between next) :
    Comments between := by
  cases inside with
  | true => exact h
  | false =>
    obtain ⟨rfl, -⟩ : between = [] ∧ next.breaks = false := h
    exact comments_nil

/-- What holds of literals without interpolations and of comments holds of all that stands from the
    first of some literals to the last. -/
theorem Adjacent.forall_mem {p : Lexeme → Prop} (h : Adjacent inside literals run)
    (hplain : ∀ l ∈ literals, l.Plain) (hliteral : ∀ l, l.Plain → p l)
    (hcomment : ∀ l, l.token = .comment → p l) : ∀ l ∈ run, p l := by
  induction h with
  | one h =>
    have hfirst := hplain _ List.mem_cons_self
    rw [h.eq_singleton hfirst]
    exact List.forall_mem_singleton.mpr (hliteral _ hfirst)
  | more h hbetween _ ih =>
    obtain ⟨hfirst, hothers⟩ := List.forall_mem_cons.mp hplain
    rw [h.eq_singleton hfirst]
    exact List.forall_mem_append.mpr ⟨List.forall_mem_singleton.mpr (hliteral _ hfirst),
      List.forall_mem_append.mpr ⟨fun l hl => hcomment l (hbetween.comments l hl), ih hothers⟩⟩

/-- Between adjacent literals no joined line is outside. -/
theorem Adjacent.outside_eq_false (h : Adjacent inside literals (first :: rest))
    (hplain : ∀ l ∈ literals, l.Plain) : outside true false rest = false := by
  generalize hrun : first :: rest = run at h
  induction h generalizing first rest with
  | one h =>
    rw [h.eq_singleton (hplain _ List.mem_cons_self)] at hrun
    cases hrun
    rfl
  | @more l next run between tail literals h hbetween hmore ih =>
    obtain ⟨hone, hothers⟩ := List.forall_mem_cons.mp hplain
    rw [h.eq_singleton hone] at hrun
    obtain ⟨-, hrest⟩ := List.cons.inj hrun
    replace hrest : rest = between ++ next :: tail := hrest
    have hnext := hmore.startsLiteral
    have htail : outside true false (next :: tail) = false := by
      rw [outside, List.any_cons, hnext, Bool.true_or, Bool.or_true, ih hothers rfl]
      simp
    rw [hrest, outside_append, List.any_cons, hnext, Bool.true_or, Bool.true_or, Bool.true_or, htail,
      Bool.or_false]
    exact outside_between between

/-- Literals in parentheses are hidden by the joined lines that are not between two of them. The one
    before their first token does not count. -/
theorem Enclosed.hidden_eq (h : Enclosed inside literals n hidden (first :: rest))
    (hplain : ∀ l ∈ literals, l.Plain) :
    hidden = outside first.token.startsLiteral false rest := by
  generalize hrun : first :: rest = run at h
  induction h generalizing first rest with
  | bare h =>
    subst hrun
    rw [h.startsLiteral, h.outside_eq_false hplain]
  | @parens _ hidden n _ inner closing literals before tail after hopening hbefore h hafter
      hclosing ih =>
    obtain ⟨rfl, rfl⟩ := List.cons.inj hrun
    have hends : (after ++ [closing]).any (·.token.startsLiteral) = false := by
      rw [List.any_append, hafter.any_startsLiteral, List.any_cons, hclosing]
      rfl
    have hinner : outside false false (inner :: (tail ++ (after ++ [closing]))) =
        (inner.splices || hidden || (after ++ [closing]).any Lexeme.splices) := by
      rw [← List.cons_append, outside_append, hends, outside_behind hends, outside, Bool.or_false,
        Bool.false_and, Bool.not_false, Bool.and_true, Bool.false_or, ← ih hplain rfl]
    have hstart : first.token.startsLiteral = false := by rw [hopening]; rfl
    rw [hstart, outside_append, outside_before hbefore.any_startsLiteral,
      hbefore.any_startsLiteral, Bool.false_or, hinner]
    generalize (after ++ [closing]).any Lexeme.splices = last
    rw [List.any_append, List.any_cons, List.any_nil, Bool.or_false]
    ac_rfl

/-! ### Other blanks -/

/-- What a lexeme is but for the blanks before it. -/
def Lexeme.spelling (l : Lexeme) : List Char × Token := (l.text, l.token)

theorem comments_of_tokens {list list' : List Lexeme} (h : Comments list)
    (hsame : list'.map Lexeme.token = list.map Lexeme.token) : Comments list' := by
  intro l hl
  have hmem : l.token ∈ list.map Lexeme.token := hsame ▸ List.mem_map_of_mem hl
  obtain ⟨k, hk, hkl⟩ := List.mem_map.mp hmem
  exact hkl.symm.trans (h k hk)

theorem comments_of_spelling {list list' : List Lexeme} (h : Comments list)
    (hsame : list'.map Lexeme.spelling = list.map Lexeme.spelling) : Comments list' := by
  have htokens := congrArg (List.map Prod.snd) hsame
  rw [List.map_map, List.map_map] at htokens
  exact comments_of_tokens h htokens

theorem token_of_spelling {l l' : Lexeme} (h : l'.spelling = l.spelling) : l'.token = l.token :=
  congrArg Prod.snd h

theorem plain_of_spelling {literals literals' : List Lexeme} (h : ∀ l ∈ literals, l.Plain)
    (hsame : literals'.map Lexeme.spelling = literals.map Lexeme.spelling) :
    ∀ l ∈ literals', l.Plain := by
  intro l' hl'
  have hmem : l'.spelling ∈ literals.map Lexeme.spelling := hsame ▸ List.mem_map_of_mem hl'
  obtain ⟨l, hl, hspelling⟩ := List.mem_map.mp hmem
  obtain ⟨bare, htoken⟩ := h l hl
  exact ⟨bare, (token_of_spelling hspelling).symm.trans htoken⟩

theorem Literal.of_spelling {l : Lexeme} {run' : List Lexeme} (h : Literal l run)
    (hsame : run'.map Lexeme.spelling = run.map Lexeme.spelling) :
    ∃ l', Literal l' run' ∧ l'.spelling = l.spelling := by
  cases h with
  | plain hplain =>
    obtain ⟨l', rfl, hl'⟩ := List.map_eq_singleton_iff.mp hsame
    refine ⟨l', .plain ?_, hl'⟩
    obtain ⟨bare, htoken⟩ := hplain
    exact ⟨bare, (token_of_spelling hl').trans htoken⟩
  | formatted hstart hend =>
    rw [List.map_cons, List.map_append] at hsame
    obtain ⟨l', tail, rfl, hl', htail⟩ := List.map_eq_cons_iff.mp hsame
    obtain ⟨inside', last, rfl, -, hlast⟩ := List.map_eq_append_iff.mp htail
    obtain ⟨last', rfl, hlast'⟩ := List.map_eq_singleton_iff.mp hlast
    exact ⟨l', .formatted ((token_of_spelling hl').trans hstart)
      ((token_of_spelling hlast').trans hend), hl'⟩

/-- Adjacent literals in parentheses stay such with other blanks between the tokens. -/
theorem Adjacent.of_spelling {run' : List Lexeme} (h : Adjacent true literals run)
    (hsame : run'.map Lexeme.spelling = run.map Lexeme.spelling) :
    ∃ literals', Adjacent true literals' run' ∧
      literals'.map Lexeme.spelling = literals.map Lexeme.spelling := by
  induction h generalizing run' with
  | one h =>
    obtain ⟨l', hl', hspelling⟩ := h.of_spelling hsame
    exact ⟨[l'], .one hl', congrArg (fun s => [s]) hspelling⟩
  | more h hbetween hmore ih =>
    rw [List.map_append, List.map_append] at hsame
    obtain ⟨first, behind, rfl, hfirst, hbehind⟩ := List.map_eq_append_iff.mp hsame
    obtain ⟨between', tail, rfl, hbetween', htail⟩ := List.map_eq_append_iff.mp hbehind
    obtain ⟨l', hl', hspelling⟩ := h.of_spelling hfirst
    obtain ⟨literals', hliterals, hspellings⟩ := ih htail
    obtain ⟨next, rest, rfl, -⟩ := hliterals.head
    refine ⟨l' :: literals', .more hl' (comments_of_spelling hbetween hbetween') hliterals, ?_⟩
    rw [List.map_cons, List.map_cons, hspelling, hspellings]

/-- So do literals in any number of parentheses, with what hides them elsewhere. -/
theorem Enclosed.of_spelling {run' : List Lexeme} (h : Enclosed inside literals n hidden run)
    (hinside : inside = true ∨ 0 < n)
    (hsame : run'.map Lexeme.spelling = run.map Lexeme.spelling) :
    ∃ literals' hidden', Enclosed inside literals' n hidden' run' ∧
      literals'.map Lexeme.spelling = literals.map Lexeme.spelling := by
  induction h generalizing run' with
  | bare h =>
    obtain rfl := hinside.resolve_right (Nat.lt_irrefl 0)
    obtain ⟨literals', hliterals, hspellings⟩ := h.of_spelling hsame
    exact ⟨literals', false, .bare hliterals, hspellings⟩
  | @parens _ _ _ opening inner closing _ before tail after hopening hbefore _ hafter hclosing ih =>
    replace hsame : run'.map Lexeme.spelling =
        (opening :: (before ++ ((inner :: tail) ++ (after ++ [closing])))).map Lexeme.spelling := hsame
    rw [List.map_cons, List.map_append, List.map_append, List.map_append] at hsame
    obtain ⟨opening, behind, rfl, hopening', hbehind⟩ := List.map_eq_cons_iff.mp hsame
    obtain ⟨before, behind, rfl, hbefore', hbehind⟩ := List.map_eq_append_iff.mp hbehind
    obtain ⟨inner, behind, rfl, hinner, hbehind⟩ := List.map_eq_append_iff.mp hbehind
    obtain ⟨after, last, rfl, hafter', hlast⟩ := List.map_eq_append_iff.mp hbehind
    obtain ⟨closing, rfl, hclosing'⟩ := List.map_eq_singleton_iff.mp hlast
    obtain ⟨literals', hidden', henclosed, hspellings⟩ := ih (.inl rfl) hinner
    obtain ⟨first, rest, rfl, -⟩ := henclosed.head
    exact ⟨literals', _, .parens ((token_of_spelling hopening').trans hopening)
      (comments_of_spelling hbefore hbefore') henclosed (comments_of_spelling hafter hafter')
      ((token_of_spelling hclosing').trans hclosing), hspellings⟩

/-- With one more joined line before one of their tokens, literals in parentheses that were not hidden
    are hidden if that line stands on its own and not between two of them. -/
theorem Enclosed.splice {before after : List Lexeme} {l l' : Lexeme}
    (h : Enclosed inside literals n false (first :: (before ++ l :: after)))
    (hinside : inside = true ∨ 0 < n) (hplain : ∀ l ∈ literals, l.Plain)
    (hspelling : l'.spelling = l.spelling) :
    ∃ literals', literals'.map Lexeme.spelling = literals.map Lexeme.spelling ∧
      Enclosed inside literals' n
        (l'.splices && !((first :: before).any (·.token.startsLiteral) &&
          (l :: after).any (·.token.startsLiteral)))
        (first :: (before ++ l' :: after)) := by
  have hsame : (first :: (before ++ l' :: after)).map Lexeme.spelling =
      (first :: (before ++ l :: after)).map Lexeme.spelling := by
    simp only [List.map_cons, List.map_append, hspelling]
  obtain ⟨literals', hidden', henclosed, hspellings⟩ := h.of_spelling hinside hsame
  have hhidden := henclosed.hidden_eq (plain_of_spelling hplain hspellings)
  rw [outside_splice (h.hidden_eq hplain).symm (token_of_spelling hspelling), Bool.or_false]
    at hhidden
  rw [List.any_cons]
  exact ⟨literals', hspellings, hhidden ▸ henclosed⟩

end Run

end SourceSurvey.Syntax
