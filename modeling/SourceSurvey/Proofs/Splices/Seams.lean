import SourceSurvey.Proofs.Splices.Pieces
import SourceSurvey.Proofs.Splices.Scopes

/-!
Places for a joined line inside the parentheses of a documentation. The tokens there are recognised
alike in all code, and none of them ends in a brace, so that joining a line before one of them changes
no lexeme but the blanks of the next one.
-/

namespace SourceSurvey.Syntax

/-! ### Tokens in parentheses -/

/-- Comments, parentheses and literals without interpolations. -/
def Token.isEnclosed : Token → Bool
  | .comment | .string _ | .symbol .leftParen | .symbol .rightParen => true
  | _ => false

theorem Token.isUniform_of_isEnclosed {t : Token} (h : t.isEnclosed = true) :
    t.isUniform = true := by
  unfold Token.isEnclosed at h
  split at h
  all_goals first | rfl | cases h

theorem Comments.isEnclosed {list : List Lexeme} (h : Comments list) :
    ∀ l ∈ list, l.token.isEnclosed = true := by
  intro l hl
  rw [h l hl]
  rfl

section Run

variable {inside hidden : Bool} {n : Nat} {literals run : List Lexeme}

theorem Adjacent.isEnclosed (h : Adjacent inside literals run) (hplain : ∀ l ∈ literals, l.Plain) :
    ∀ l ∈ run, l.token.isEnclosed = true :=
  h.forall_mem hplain (fun l ⟨bare, htoken⟩ => by rw [htoken]; rfl) fun l hl => by rw [hl]; rfl

theorem Enclosed.isEnclosed (h : Enclosed inside literals n hidden run)
    (hplain : ∀ l ∈ literals, l.Plain) : ∀ l ∈ run, l.token.isEnclosed = true := by
  induction h with
  | bare h => exact h.isEnclosed hplain
  | @parens _ _ _ opening first closing _ before rest after hopening hbefore _ hafter hclosing ih =>
    have hlast : ∀ l ∈ [closing], l.token.isEnclosed = true :=
      List.forall_mem_singleton.mpr (by rw [hclosing]; rfl)
    have hinner := List.forall_mem_append.mpr
      ⟨ih hplain, List.forall_mem_append.mpr ⟨hafter.isEnclosed, hlast⟩⟩
    exact List.forall_mem_cons.mpr ⟨by rw [hopening]; rfl,
      List.forall_mem_append.mpr ⟨hbefore.isEnclosed, hinner⟩⟩

end Run

/-- The last stretch of a literal ends with its quotation mark. -/
theorem Quotation.getLast?_of_stretch {q : Quotation} {begun : Bool} {text : List Char} {n : Nat}
    (h : q.stretch begun text = some (.closed, n)) : (text.take n).getLast? = some q.mark := by
  fun_induction q.stretch begun text generalizing n with
  | case1 => cases h
  | case2 => cases h
  | case3 begun c rest s m hmove =>
    cases h
    unfold Quotation.move at hmove
    split_ifs at hmove with _ _ _ _ _ _ _ hmark _ hmarks
    · cases hmove
    · cases hmove
      exact congrArg some hmark
    · cases hmove
      obtain ⟨more, rfl⟩ := List.isPrefixOf_iff_prefix.mp hmarks
      rfl
  | case4 begun c rest begun' more hmove ih =>
    obtain ⟨⟨s, m⟩, hrest, heq⟩ := Option.map_eq_some_iff.mp h
    cases heq
    have horder : m + 1 + more = more + m + 1 := by omega
    rw [horder, List.take_succ_cons, List.take_add, List.getLast?_cons, List.getLast?_append,
      ih hrest]
    rfl

/-- The text of a parenthesis is the parenthesis. -/
theorem Symbol.getLast?_of_ofText? {text : List Char} {s : Symbol} {n : Nat}
    (h : Symbol.ofText? text = some (s, n)) (hs : (Token.symbol s).isEnclosed = true) :
    0 < n ∧ ∃ d ∈ (text.take n).getLast?, d ≠ '\x7b' := by
  obtain ⟨entry, hentry, heq⟩ := Option.map_eq_some_iff.mp h
  cases heq
  have hall : (Symbol.spellings.all fun e => !(Token.symbol e.2).isEnclosed ||
      e.1.getLast?.any (· != '\x7b')) = true := by decide
  have hlast := List.all_eq_true.mp hall entry (List.mem_of_find?_eq_some hentry)
  rw [hs, Bool.not_true, Bool.false_or, Option.any_eq_true] at hlast
  obtain ⟨d, hd, hne⟩ := hlast
  have hbegins : entry.1.isPrefixOf text = true := by simpa using List.find?_some hentry
  obtain ⟨more, rfl⟩ := List.isPrefixOf_iff_prefix.mp hbegins
  refine ⟨List.length_pos_iff.mpr fun hnil => ?_, d, ?_, by simpa using hne⟩
  · rw [hnil] at hd
    cases hd
  · rw [List.take_left]
    exact hd

/-- A literal ends with its quotation mark, and a parenthesis is one. -/
theorem getLast?_of_recogniseCode {frames : List Frame} {c : Char} {rest : List Char}
    (h : (recogniseCode frames c rest).token.isEnclosed = true)
    (hcomment : (recogniseCode frames c rest).token ≠ .comment) :
    ∃ d ∈ (c :: rest.take (recogniseCode frames c rest).more).getLast?, d ≠ '\x7b' := by
  cases hopening : Quotation.ofText? (c :: rest) with
  | some found =>
    obtain ⟨q, opening⟩ := found
    have hone := (Quotation.opening_spec hopening).1
    simp only [recogniseCode, hopening] at h ⊢
    split
    · next hformat =>
      rw [if_pos hformat] at h
      cases h
    · next hformat =>
      rw [if_neg hformat] at h
      split at h
      · next n hstretch =>
        have horder : opening - 1 + n + 1 = opening + n := by omega
        refine ⟨q.mark, ?_, fun heq => ?_⟩
        · rw [← List.take_succ_cons, horder, List.take_add, List.getLast?_append,
            Quotation.getLast?_of_stretch hstretch]
          rfl
        · have hmark := q.isMark
          rw [heq] at hmark
          cases hmark
      · cases h
  | none =>
    simp only [recogniseCode, hopening] at h hcomment ⊢
    repeat' split at h
    all_goals try cases h
    · next hident hnumber hhash =>
      refine absurd ?_ hcomment
      rw [if_neg hident, if_neg hnumber, if_pos hhash]
    · next hident hnumber hhash _ s n hsymbol =>
      obtain ⟨hn, hlast⟩ := Symbol.getLast?_of_ofText? hsymbol h
      rw [if_neg hident, if_neg hnumber, if_neg hhash]
      simp only
      rwa [← List.take_succ_cons, Nat.sub_add_cancel hn]

theorem getLast?_of_recognise {frames : List Frame} {c : Char} {rest : List Char}
    (h : (recognise frames c rest).token.isEnclosed = true)
    (hcomment : (recognise frames c rest).token ≠ .comment) :
    ∃ d ∈ (c :: rest.take (recognise frames c rest).more).getLast?, d ≠ '\x7b' := by
  obtain ⟨behind, -, heq⟩ := recognise_eq_code (Token.isUniform_of_isEnclosed h)
  rw [heq] at h hcomment ⊢
  exact getLast?_of_recogniseCode h hcomment

/-- No literal and no parenthesis around literals ends with a brace. -/
theorem getLast?_text {frames : List Frame} {source : List Char} :
    ∀ l ∈ lexemesFrom frames source, l.token.isEnclosed = true → l.token ≠ .comment →
      ∃ d ∈ l.text.getLast?, d ≠ '\x7b' :=
  forall_mem_lexemesFrom (fun _ => nofun)
    (fun _ _ _ _ _ henclosed hcomment => getLast?_of_recognise henclosed hcomment) frames source

/-! ### Places for a joined line -/

theorem length_unmarked (list : List Lexeme) : (Lexeme.unmarked list).length = list.length := by
  cases list <;> rfl

theorem getElem?_length_append {α : Type} (first second : List α) (a : α) :
    (first ++ a :: second)[first.length]? = some a := by simp

theorem set_length_append {α : Type} (first second : List α) (a b : α) :
    (first ++ a :: second).set first.length b = first ++ b :: second := by simp

theorem Token.inCode_of_isEnclosed {t : Token} (h : t.isEnclosed = true) :
    t.inCode = true ∧ t ≠ .finish ∧ t ≠ .symbol .star ∧ t ≠ .invalid := by
  cases t with
  | comment => exact ⟨rfl, nofun, nofun, nofun⟩
  | string bare => exact ⟨rfl, nofun, nofun, nofun⟩
  | symbol s =>
    cases s with
    | leftParen => exact ⟨rfl, nofun, nofun, nofun⟩
    | rightParen => exact ⟨rfl, nofun, nofun, nofun⟩
    | _ => cases h
  | _ => cases h

theorem Blanks.ne_brace {gap : List Char} (h : Blanks gap) : ∀ c ∈ gap, c ≠ '\x7b' := by
  induction h with
  | nil => exact nofun
  | separator hc _ ih =>
    refine List.forall_mem_cons.mpr ⟨?_, ih⟩
    rintro rfl
    cases hc
  | joined _ ih => simpa using ih
  | joinedReturn _ ih => simpa using ih

/-- A place inside the parentheses around the literals that the statement at some token consists of:
    before one of the tokens but the first, behind so many characters of its blanks. A backslash
    there joins two lines, for the place divides no joined line and is not at the end of a
    comment. -/
structure Seam (text : List Char) (t : Nat) where
  before : List Lexeme
  lexeme : Lexeme
  behind : List Lexeme
  rest : List Lexeme
  offset : Nat
  literals : List Lexeme
  parentheses : Nat
  hidden : Bool
  cut : lexemes text = before ++ lexeme :: (behind ++ rest)
  begun : t < before.length
  enclosed : Enclosed false literals (parentheses + 1) hidden
    ((Lexeme.unmarked before).drop t ++ lexeme :: behind)
  ends : Ends false rest
  blanks : Blanks (lexeme.gap.take offset)
  clear : lexeme.gap.take offset = [] → ∀ l ∈ before.getLast?, l.token ≠ .comment

namespace Seam

variable {text : List Char} {t : Nat} (j : Seam text t)

/-- The source with a joined line at that place. -/
def joined : List Char :=
  Lexeme.joined (j.before ++ j.lexeme.splice j.offset :: (j.behind ++ j.rest))

/-- Whether literals stand both before and behind the place. -/
def between : Bool :=
  ((Lexeme.unmarked j.before).drop t).any (·.token.startsLiteral) &&
    (j.lexeme :: j.behind).any (·.token.startsLiteral)

theorem before_ne_nil : j.before ≠ [] := List.ne_nil_of_length_pos (Nat.zero_lt_of_lt j.begun)

theorem lt_length_unmarked : t < (Lexeme.unmarked j.before).length := by
  rw [length_unmarked]
  exact j.begun

/-- What comes before the place in the statement begins with its first token. -/
theorem exists_first : ∃ first between, (Lexeme.unmarked j.before).drop t = first :: between :=
  List.exists_cons_of_ne_nil
    (List.drop_eq_nil_iff.not.mpr (Nat.not_le_of_lt j.lt_length_unmarked))

theorem unmarked_source : Lexeme.unmarked (lexemes text) =
    Lexeme.unmarked j.before ++ j.lexeme :: (j.behind ++ j.rest) := by
  rw [j.cut, unmarked_append j.before_ne_nil]

theorem drop_source : (Lexeme.unmarked (lexemes text)).drop t =
    ((Lexeme.unmarked j.before).drop t ++ j.lexeme :: j.behind) ++ j.rest := by
  rw [j.unmarked_source, List.drop_append_of_le_length j.lt_length_unmarked.le, List.append_assoc,
    List.cons_append]

variable (hvalid : ∀ l ∈ lexemes text, l.token ≠ .invalid) (hplain : ∀ l ∈ j.literals, l.Plain)

include hplain

theorem isEnclosed_lexeme : j.lexeme.token.isEnclosed = true :=
  j.enclosed.isEnclosed hplain _ (List.mem_append_right _ List.mem_cons_self)

/-- The token before the place is one of the documentation, too. -/
theorem isEnclosed_getLast? : ∀ l ∈ j.before.getLast?, l.token.isEnclosed = true := by
  intro l hl
  obtain ⟨first, between, hfirst⟩ := j.exists_first
  have hlast : ((Lexeme.unmarked j.before).drop t).getLast?.map Lexeme.token = some l.token := by
    rw [List.getLast?_drop, if_neg (Nat.not_le_of_lt j.lt_length_unmarked), ← List.getLast?_map,
      map_token_unmarked, List.getLast?_map, Option.mem_def.mp hl]
    rfl
  obtain ⟨k, hk, hkl⟩ := Option.map_eq_some_iff.mp hlast
  rw [← hkl]
  exact j.enclosed.isEnclosed hplain k (List.mem_append_left _ (List.mem_of_getLast? hk))

/-- The character before the place is no brace. -/
theorem getLast?_ne_brace :
    (Lexeme.joined j.before ++ j.lexeme.gap.take j.offset).getLast? ≠ some '\x7b' := by
  intro hlast
  rw [List.getLast?_append] at hlast
  cases hgap : (j.lexeme.gap.take j.offset).getLast? with
  | some c =>
    rw [hgap] at hlast
    cases hlast
    exact j.blanks.ne_brace _ (List.mem_of_getLast? hgap) rfl
  | none =>
    obtain ⟨l, hl⟩ := Option.isSome_iff_exists.mp (List.getLast?_isSome.mpr j.before_ne_nil)
    obtain ⟨more, hbefore⟩ := List.getLast?_eq_some_iff.mp hl
    have hmem : l ∈ lexemes text := by
      rw [j.cut]
      exact List.mem_append_left _ (List.mem_of_getLast? hl)
    obtain ⟨d, hd, hne⟩ := getLast?_text l hmem (j.isEnclosed_getLast? hplain l hl)
      (j.clear (List.getLast?_eq_none_iff.mp hgap) l hl)
    rw [hgap, hbefore, Lexeme.joined_append, joined_cons, joined_nil, List.append_nil,
      List.getLast?_append, List.getLast?_append, Option.mem_def.mp hd] at hlast
    exact hne (Option.some.inj hlast)

include hvalid

/-- A joined line there leaves all tokens as they are. -/
theorem lexemes_joined : lexemes j.joined =
    j.before ++ j.lexeme.splice j.offset :: (j.behind ++ j.rest) := by
  refine lexemesFrom_splice j.cut (fun l hl => hvalid l ?_)
    (Token.inCode_of_isEnclosed (j.isEnclosed_lexeme hplain)).1 j.blanks j.clear
    (j.getLast?_ne_brace hplain)
  rw [j.cut]
  exact List.mem_append_left _ hl

end Seam

end SourceSurvey.Syntax
