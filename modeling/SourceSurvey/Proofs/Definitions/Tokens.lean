import SourceSurvey.Proofs.Documentation.Reading

/-!
What a reader passes when comments are left out. Every step of a rule passes one token or finds one,
so what a whole rule passes is put together from its steps.
-/

namespace SourceSurvey.Syntax

open SourceSurvey.Syntax.Parser

/-- Lexemes without the comments among them. -/
def Lexeme.bare (list : List Lexeme) : List Lexeme := list.filter fun l => l.token ≠ .comment

/-- The tokens of a source from a position on, without comments. -/
def tokensFrom (source : List Lexeme) (i : Nat) : List Token :=
  (Lexeme.bare (source.drop i)).map Lexeme.token

/-- The lexemes that are left to read at a cursor, without comments. -/
def Cursor.bare (source : List Lexeme) (c : Cursor) : List Lexeme := Lexeme.bare (c.rest source)

theorem Comments.bare_eq_nil {list : List Lexeme} (h : Comments list) : Lexeme.bare list = [] :=
  List.filter_eq_nil_iff.mpr fun l hl => by simp [h l hl]

theorem Lexeme.bare_append (first second : List Lexeme) :
    Lexeme.bare (first ++ second) = Lexeme.bare first ++ Lexeme.bare second :=
  List.filter_append ..

theorem Lexeme.bare_cons {l : Lexeme} (hl : l.token ≠ .comment) (rest : List Lexeme) :
    Lexeme.bare (l :: rest) = l :: Lexeme.bare rest :=
  List.filter_cons_of_pos (by simpa using hl)

/-- A byte order mark is no token. -/
theorem map_token_bare_rest (source : List Lexeme) (c : Cursor) :
    (c.bare source).map Lexeme.token = tokensFrom source c.index := by
  have htokens : ∀ list : List Lexeme, (Lexeme.bare list).map Lexeme.token =
      (list.map Lexeme.token).filter (· ≠ .comment) := by
    intro list
    rw [List.filter_map]
    rfl
  have hunmarked : (Lexeme.unmarked source).map Lexeme.token = source.map Lexeme.token := by
    cases source with
    | nil => rfl
    | cons first rest => rfl
  rw [tokensFrom, Cursor.bare, Cursor.rest, htokens, htokens, List.map_drop, hunmarked,
    List.map_drop]

theorem mem_of_mem_tokensFrom {source : List Lexeme} {i : Nat} {t : Token}
    (h : t ∈ tokensFrom source i) : ∃ l ∈ source, l.token = t := by
  obtain ⟨l, hl, rfl⟩ := List.mem_map.mp h
  exact ⟨l, List.mem_of_mem_drop (List.mem_of_mem_filter hl), rfl⟩

/-- Entries with a comma behind each, and one more. -/
theorem join_comma_concat (entries : List (List Token)) (entry : List Token) :
    Text.join [.symbol .comma] (entries ++ [entry]) =
      entries.flatMap (· ++ [.symbol .comma]) ++ entry := by
  induction entries with
  | nil => simp [Text.join, List.intercalate]
  | cons first entries ih =>
    obtain ⟨next, more, hnext⟩ : ∃ next more, entries ++ [entry] = next :: more :=
      List.exists_cons_of_ne_nil (by simp)
    have hjoin : Text.join [.symbol .comma] (first :: next :: more) =
        first ++ [.symbol .comma] ++ Text.join [.symbol .comma] (next :: more) := by
      simp [Text.join, List.intercalate]
    rw [List.cons_append, hnext, hjoin, ← hnext, ih, List.flatMap_cons, ← List.append_assoc]

/-- A run of lexemes is passed from one cursor to another, with comments anywhere among them. -/
structure Cursor.Runs (source : List Lexeme) (c : Cursor) (run : List Lexeme) (d : Cursor) : Prop where
  bare : c.bare source = run ++ d.bare source
  on : d.On (Piece.ofLexemes source)

namespace Cursor.Runs

variable {source : List Lexeme} {c d e : Cursor} {run more : List Lexeme}

theorem refl (hc : c.On (Piece.ofLexemes source)) : c.Runs source [] c := ⟨rfl, hc⟩

theorem trans (h : c.Runs source run d) (h' : d.Runs source more e) :
    c.Runs source (run ++ more) e :=
  ⟨by rw [h.bare, h'.bare, List.append_assoc], h'.on⟩

end Cursor.Runs

section Legible

variable {source : List Lexeme} {c c' d : Cursor} {e : Expected} {t u : Token}
  (hsource : Legible source) (hc : c.On (Piece.ofLexemes source))

include hc

/-- Where a reader comes to, it has passed some run. -/
theorem Cursor.On.exists_runs (h : c.Reaches d) : ∃ run, c.Runs source run d := by
  obtain ⟨passed, hpasses, -⟩ := h.passes
  obtain ⟨list, hrest, -⟩ := hc.exists_of_passes hpasses
  refine ⟨Lexeme.bare list, ?_, hc.of_reaches h⟩
  rw [Cursor.bare, hrest, Lexeme.bare_append, Cursor.bare]

include hsource

theorem Legible.runs_of_look {l : Look} (h : Gives (look e) c l d) : c.Runs source [] d := by
  obtain ⟨comments, hrest, hcomments, -⟩ := hsource.settles_of_look hc h
  refine ⟨?_, h.on_of_look hc⟩
  rw [Cursor.bare, hrest, Lexeme.bare_append, hcomments.bare_eq_nil]
  rfl

/-- A token that is found is left to read. Where a line might end, none has ended before it. -/
theorem Legible.bare_of_look (h : Gives (look e) c (.token t) d) :
    ∃ k more, d.bare source = k :: more ∧ k.token = t ∧ t ≠ .comment ∧
      (e.lineEnd = true → k.breaks = false) := by
  obtain ⟨_, k, more, -, hrest, -, -, hk, hcomment, hline⟩ := hsource.rest_of_look hc h
  refine ⟨k, Lexeme.bare more, ?_, hk, hcomment, fun hlineEnd => (hline hlineEnd).2⟩
  rw [Cursor.bare, hrest, Lexeme.bare_cons (hk ▸ hcomment)]

/-- A token is passed that is no comment. -/
theorem Legible.runs_of_take (h : Gives take c t d) (ht : t ≠ .comment) :
    ∃ k, c.Runs source [k] d ∧ k.token = t := by
  obtain ⟨k, hrest, hk, -⟩ := hsource.rest_of_take hc h
  refine ⟨k, ⟨?_, hc.of_reaches h.reaches⟩, hk⟩
  rw [Cursor.bare, hrest, Lexeme.bare_cons (hk ▸ ht)]
  rfl

/-- The token at the cursor is passed. -/
theorem Legible.runs_of_pass {v : Unit} (hu : c.Shows (some u)) (hcomment : u ≠ .comment)
    (h : Gives (discard take) c v d) : ∃ k, c.Runs source [k] d ∧ k.token = u := by
  obtain ⟨v, htake⟩ := gives_discard_iff.mp h
  obtain ⟨hv, -⟩ := nesting_of_take htake
  rw [Cursor.shows_some.mp hu] at hv
  cases hv
  exact hsource.runs_of_take hc htake hcomment

/-- The token at the cursor is passed, and another is found behind it. -/
theorem Legible.runs_of_advance (hu : c.Shows (some u)) (hcomment : u ≠ .comment)
    (h : Gives (advance e) c t d) : ∃ k, c.Runs source [k] d ∧ k.token = u := by
  obtain ⟨v, c', hpass, hnext⟩ := gives_bind_iff.mp h
  obtain ⟨k, hruns, hk⟩ := hsource.runs_of_pass hc hu hcomment hpass
  exact ⟨k, hruns.trans (hsource.runs_of_look hruns.on (gives_next_iff.mp hnext)), hk⟩

/-- A token that is found is passed. Where a line might end, none has ended before it. -/
theorem Legible.runs_of_found {u : Unit} (hlook : Gives (look e) c (.token t) c')
    (hpass : Gives (discard take) c' u d) :
    ∃ k, c.Runs source [k] d ∧ k.token = t ∧ (e.lineEnd = true → k.breaks = false) := by
  obtain ⟨k, more, hbare, -, hcomment, hline⟩ := hsource.bare_of_look hc hlook
  have hfound := hsource.runs_of_look hc hlook
  obtain ⟨k', hruns, hk'⟩ :=
    hsource.runs_of_pass hfound.on (nesting_of_look hlook).2 hcomment hpass
  obtain ⟨rfl, -⟩ := List.cons.inj (hbare.symm.trans hruns.bare)
  exact ⟨k, hfound.trans hruns, hk', hline⟩

/-- A token that is expected is passed. -/
theorem Legible.runs_of_expect {v : Unit} (h : Gives (expect e t) c v d) :
    ∃ k, c.Runs source [k] d ∧ k.token = t := by
  obtain ⟨v, c', hnext, hpass⟩ := gives_bind_iff.mp h
  split at hpass
  · next hv =>
    subst hv
    obtain ⟨k, hruns, hk, -⟩ := hsource.runs_of_found hc (gives_next_iff.mp hnext) hpass
    exact ⟨k, hruns, hk⟩
  · exact absurd hpass not_gives_failure

theorem Legible.runs_of_expectWord {w : Word} (h : Gives (expectWord e) c w d) :
    ∃ k, c.Runs source [k] d ∧ k.token = .word w := by
  obtain ⟨v, c', hnext, hrest⟩ := gives_bind_iff.mp h
  split at hrest
  · obtain ⟨x, c₁, hpass, hrest⟩ := gives_bind_iff.mp hrest
    obtain ⟨rfl, rfl⟩ := gives_pure_iff.mp hrest
    obtain ⟨k, hruns, hk, -⟩ := hsource.runs_of_found hc (gives_next_iff.mp hnext) hpass
    exact ⟨k, hruns, hk⟩
  · exact absurd hrest not_gives_failure

end Legible

/-! ### Headings -/

section Headings

variable {rules : Rules} {c d : Cursor} {name : Word} {parameters : List Parameter}

/-- The steps of a function's heading up to the parenthesis that closes its parameters. -/
theorem of_functionHeading (h : Gives (functionHeading rules) c (name, parameters) d) :
    ∃ c₁ c₂ c₃ c₄ c₅ c₆, Gives (discard take) c () c₁ ∧ Gives (expectWord .token) c₁ name c₂ ∧
      Gives (typeParameters rules) c₂ () c₃ ∧
      Gives (expect .token (.symbol .leftParen)) c₃ () c₄ ∧
      Gives (parameterList rules.phrases .bracketed (some (rules.types true .bracketed))
        .rightParen) c₄ parameters c₅ ∧
      Gives (expect Follow.bracketed.expected (.symbol .rightParen)) c₅ () c₆ := by
  obtain ⟨_, c₁, hpass, h⟩ := gives_bind_iff.mp h
  obtain ⟨w, c₂, hname, h⟩ := gives_bind_iff.mp h
  obtain ⟨_, c₃, htyped, h⟩ := gives_bind_iff.mp h
  obtain ⟨_, c₄, hopen, h⟩ := gives_bind_iff.mp h
  obtain ⟨list, c₅, hlist, h⟩ := gives_bind_iff.mp h
  obtain ⟨_, c₆, hclose, h⟩ := gives_bind_iff.mp h
  obtain ⟨t, c₇, -, h⟩ := gives_bind_iff.mp h
  obtain ⟨rfl, rfl⟩ : w = name ∧ list = parameters := by
    split at h
    · obtain ⟨_, c₈, -, h⟩ := gives_bind_iff.mp h
      obtain ⟨_, c₉, -, h⟩ := gives_bind_iff.mp h
      exact Prod.mk.inj (gives_pure_iff.mp h).1
    · exact Prod.mk.inj (gives_pure_iff.mp h).1
  exact ⟨c₁, c₂, c₃, c₄, c₅, c₆, hpass, hname, htyped, hopen, hlist, hclose⟩

/-- The steps of a class's heading up to its name. -/
theorem of_classHeading (h : Gives (classHeading rules) c name d) :
    ∃ c₁ c₂, Gives (discard take) c () c₁ ∧ Gives (expectWord .token) c₁ name c₂ := by
  obtain ⟨_, c₁, hpass, h⟩ := gives_bind_iff.mp h
  obtain ⟨w, c₂, hname, h⟩ := gives_bind_iff.mp h
  obtain ⟨_, c₃, -, h⟩ := gives_bind_iff.mp h
  obtain ⟨t, c₄, -, h⟩ := gives_bind_iff.mp h
  obtain rfl : w = name := by
    split at h
    · obtain ⟨_, c₅, -, h⟩ := gives_bind_iff.mp h
      exact (gives_pure_iff.mp h).1
    · exact (gives_pure_iff.mp h).1
  exact ⟨c₁, c₂, hpass, hname⟩

end Headings

end SourceSurvey.Syntax
