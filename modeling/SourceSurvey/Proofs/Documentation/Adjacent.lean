import SourceSurvey.Proofs.Blocks.Simple
import SourceSurvey.Proofs.Documentation.Reading
import SourceSurvey.Proofs.Syntax.RuleParts

/-!
Literals side by side. Reading some of them gives their parts one by one, and goes on to the next
token that starts no literal.
-/

namespace SourceSurvey.Syntax

open SourceSurvey.Syntax.Parser

/-- A part of an expression is a literal of the source. -/
inductive Stands (source : List Lexeme) : LiteralPart → Lexeme → Prop
  | plain {index : Nat} {l : Lexeme} (hl : (Lexeme.unmarked source)[index]? = some l)
    (hplain : l.Plain) : Stands source (.plain index) l
  | formatted {l : Lexeme} (hstart : l.token = .formatStart) : Stands source .formatted l

/-- The parts of an expression are literals of the source, one by one. -/
abbrev Parts (source : List Lexeme) (parts : List LiteralPart) (literals : List Lexeme) : Prop :=
  List.Forall₂ (Stands source) parts literals

/-- One literal of several side by side. -/
def literalsStep (inner : Phrases) (f : Follow) (parts : List LiteralPart) :
    Parser (List LiteralPart ⊕ Shape) := do
  let index ← position
  match ← head with
  | .string _ => do
    discard take
    literalsEnd f (.plain index :: parts)
  | .formatStart => do
    formatLiteral inner
    literalsEnd f (.formatted :: parts)
  | _ => failure

theorem literals_eq (inner : Phrases) (f : Follow) :
    literals inner f = loop (literalsStep inner f) [] := by
  refine congrArg (loop · []) (funext fun parts => ?_)
  refine congrArg (position >>= ·) (funext fun index => congrArg (head >>= ·) (funext fun t => ?_))
  cases t <;> rfl

section Legible

variable {source : List Lexeme} {c d : Cursor} {e : Expected} {f : Follow} {inner : Phrases}
  (hsource : Legible source)

include hsource

/-- A literal with interpolations is passed from its start to its end. -/
theorem Legible.rest_of_interpolated {body : Parser Unit} {u : Unit}
    (hc : c.On (Piece.ofLexemes source)) (h : Gives (interpolated body) c u d) :
    ∃ l run, l.token = .formatStart ∧ Literal l run ∧ c.rest source = run ++ d.rest source ∧
      d.seam = false := by
  obtain ⟨layout, rest, inner, layout', behind, hpieces, hbody, hpieces', rfl⟩ := h.of_interpolated
  obtain ⟨passed, hpasses, -⟩ := hbody.reaches.passes
  have hwhole := ((Cursor.passes_pass hpieces true).trans hpasses).trans
    (Cursor.passes_pass hpieces' false)
  obtain ⟨list, hrest, hlist⟩ := hc.exists_of_passes hwhole
  obtain ⟨before, more, rfl, hbefore, hlast⟩ := List.map_eq_append_iff.mp hlist
  obtain ⟨last, rfl, hend⟩ := List.map_eq_singleton_iff.mp hlast
  obtain ⟨first, inside, rfl, hstart, -⟩ := List.map_eq_cons_iff.mp hbefore
  have htoken : ∀ k ∈ first :: inside ++ [last], (Piece.ofLexeme k).token = k.token :=
    fun k hk => hsource.token_eq_of_rest (c := c) (hrest ▸ List.mem_append_left _ hk)
  have hfirst : first.token = .formatStart := by
    rw [← htoken first (by simp), hstart]
  refine ⟨first, _, hfirst, .formatted hfirst ?_, hrest, rfl⟩
  rw [← htoken last (by simp), hend]

/-- Behind a literal, either another goes on with it or none does. -/
theorem Legible.literalsEnd_cases {c₀ : Cursor} {run : List Lexeme} {parts : List LiteralPart}
    {r : List LiteralPart ⊕ Shape} (hc : c.On (Piece.ofLexemes source))
    (hrest : c₀.rest source = run ++ c.rest source) (hseam : c.seam = false)
    (h : Gives (literalsEnd f parts) c r d) :
    c₀.Trails source run d ∧
      ((r = .inl parts ∧ ∃ between next more, c.rest source = between ++ next :: more ∧
          d.rest source = next :: more ∧ Joins (!f.lineEnd) between next) ∨
        r = .inr (.literal parts.reverse) ∧ Stops (!f.lineEnd) (c.rest source)) := by
  obtain ⟨l, d', hlook, h⟩ := gives_bind_iff.mp h
  have htrails := Cursor.trails_of_settles hrest hseam (hsource.settles_of_look hc hlook)
  split at h
  · next t =>
    obtain ⟨between, next, more, hfound, hd, hbetween, -, rfl, hnext, hline⟩ :=
      hsource.rest_of_look hc hlook
    have hjoins : Joins (!f.lineEnd) between next := by
      cases hlineEnd : f.lineEnd with
      | false => exact hbetween
      | true => exact hline hlineEnd
    split at h
    · obtain ⟨rfl, rfl⟩ := gives_pure_iff.mp h
      exact ⟨htrails, .inl ⟨rfl, between, next, more, hfound, hd, hjoins⟩⟩
    · next hstarts =>
      obtain ⟨rfl, rfl⟩ := gives_pure_iff.mp h
      refine ⟨htrails, .inr ⟨rfl, fun between' next' more' heq hjoins' => ?_⟩⟩
      refine Bool.eq_false_iff.mpr fun hstarts' => hstarts ?_
      obtain ⟨-, rfl, -⟩ := hjoins.unique hjoins' hnext (ne_comment_of_startsLiteral hstarts')
        (hfound.symm.trans heq)
      exact hstarts'
  · next l hl =>
    obtain ⟨rfl, rfl⟩ := gives_pure_iff.mp h
    refine ⟨htrails, .inr ⟨rfl, fun between next more heq hjoins => ?_⟩⟩
    refine Bool.eq_false_iff.mpr fun hstarts => ?_
    have hnext := ne_comment_of_startsLiteral hstarts
    obtain ⟨-, hlineEnd, comments, k, rest, hfound, hcomments, hk⟩ :=
      hsource.breaks_of_look hc hlook rfl rfl hl
    have hlineEnd : f.lineEnd = true := hlineEnd
    rw [hlineEnd] at hjoins
    have hends : Ends false (c.rest source) := hfound ▸ .line hcomments (.inl hk)
    have hfollows := hends.stops between next more heq hjoins
    rw [hstarts] at hfollows
    cases hfollows

/-- One literal is read, and either another goes on with it or none does. -/
theorem Legible.literalsStep_cases {parts : List LiteralPart} {r : List LiteralPart ⊕ Shape}
    (hc : c.On (Piece.ofLexemes source)) (h : Gives (literalsStep inner f parts) c r d) :
    ∃ part l run behind, Stands source part l ∧ Literal l run ∧
      c.rest source = run ++ behind ∧ c.Trails source run d ∧
      ((r = .inl (part :: parts) ∧ ∃ between next more, behind = between ++ next :: more ∧
          d.rest source = next :: more ∧ Joins (!f.lineEnd) between next) ∨
        r = .inr (.literal (part :: parts).reverse) ∧ Stops (!f.lineEnd) behind) := by
  replace h := gives_position_bind_iff.mp h
  obtain ⟨t, c', hhead, h⟩ := gives_bind_iff.mp h
  obtain ⟨hfound, rfl⟩ := gives_head_iff.mp hhead
  obtain ⟨k, more, hk, htoken⟩ := hsource.rest_of_head hc hfound
  split at h
  · next bare =>
    obtain ⟨u, c₁, htake, h⟩ := gives_bind_iff.mp h
    obtain ⟨t, htake⟩ := gives_discard_iff.mp htake
    obtain ⟨k', hk', -, hseam⟩ := hsource.rest_of_take hc htake
    obtain ⟨rfl, -⟩ := List.cons.inj (hk.symm.trans hk')
    have hone : c.rest source = [k] ++ c₁.rest source := hk'
    have hplain : k.Plain := ⟨bare, htoken⟩
    have hindex : (Lexeme.unmarked source)[c.index]? = some k := by
      have hfirst : (c.rest source)[0]? = some k := by rw [hk]; rfl
      rwa [Cursor.rest, List.getElem?_drop] at hfirst
    obtain ⟨htrails, hend⟩ :=
      hsource.literalsEnd_cases (hc.of_reaches htake.reaches) hone hseam h
    exact ⟨_, k, [k], _, .plain hindex hplain, .plain hplain, hone, htrails, hend⟩
  · obtain ⟨u, c₁, hformat, h⟩ := gives_bind_iff.mp h
    obtain ⟨l, run, hstart, hliteral, hrest, hseam⟩ := hsource.rest_of_interpolated hc hformat
    obtain ⟨htrails, hend⟩ :=
      hsource.literalsEnd_cases (hc.of_reaches hformat.reaches) hrest hseam h
    exact ⟨_, l, run, _, .formatted hstart, hliteral, hrest, htrails, hend⟩
  · exact absurd h not_gives_failure

/-- Literals side by side are read up to where no other goes on with them. -/
theorem Legible.rest_of_literals {shape : Shape} (hc : c.On (Piece.ofLexemes source))
    (h : Gives (literals inner f) c shape d) :
    ∃ parts literals run behind, shape = .literal parts ∧ Parts source parts literals ∧
      Adjacent (!f.lineEnd) literals run ∧ c.rest source = run ++ behind ∧
      Stops (!f.lineEnd) behind ∧ c.Trails source run d := by
  rw [literals_eq] at h
  obtain ⟨rounds, c', hbudget, hrounds⟩ := gives_bind_iff.mp h
  obtain ⟨-, rfl⟩ := gives_ask_iff.mp hbudget
  suffices hall : ∀ before : List LiteralPart,
      Gives (iterate (literalsStep inner f) rounds before) c shape d →
      ∃ parts literals run behind, shape = .literal (before.reverse ++ parts) ∧
        Parts source parts literals ∧ Adjacent (!f.lineEnd) literals run ∧
        c.rest source = run ++ behind ∧ Stops (!f.lineEnd) behind ∧ c.Trails source run d by
    exact hall [] hrounds
  clear h hbudget hrounds
  induction rounds generalizing c with
  | zero => exact fun _ h => absurd h not_gives_failure
  | succ rounds ih =>
    intro before h
    obtain ⟨r, c₁, hstep, h⟩ := gives_bind_iff.mp h
    obtain ⟨part, l, run, behind, hpart, hliteral, hrest, htrails, hend⟩ :=
      hsource.literalsStep_cases hc hstep
    obtain ⟨rfl, between, next, more, rfl, hnext, hjoins⟩ | ⟨rfl, hstops⟩ := hend
    · obtain ⟨parts, literals, run', behind, rfl, hparts, hadjacent, hrest', hstops, htrails'⟩ :=
        ih (hc.of_reaches hstep.reaches) _ h
      obtain ⟨first, tail, rfl, -⟩ := hadjacent.head
      obtain ⟨rfl, rfl⟩ := List.cons.inj (hnext.symm.trans hrest')
      refine ⟨part :: parts, l :: literals, run ++ (between ++ next :: tail), behind, by simp,
        .cons hpart hparts, .more hliteral hjoins hadjacent, ?_, hstops, ?_⟩
      · rw [hrest]
        simp
      · obtain ⟨comments, hbehind, hcomments, hseam⟩ := htrails'
        refine ⟨comments, ?_, hcomments, hseam⟩
        rw [hrest', List.append_cancel_left_eq] at hbehind
        rw [hrest, hbehind]
        simp
    · obtain ⟨rfl, rfl⟩ := gives_pure_iff.mp h
      exact ⟨[part], [l], run, behind, by simp, .cons hpart .nil, .one hliteral, hrest, hstops,
        htrails⟩

end Legible

end SourceSurvey.Syntax
