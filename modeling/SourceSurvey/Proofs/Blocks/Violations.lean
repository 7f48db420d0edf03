import Mathlib.Algebra.GroupWithZero.Nat
import SourceSurvey.Proofs.Blocks.Built
import SourceSurvey.Proofs.Blocks.LogicalLines

/-!
What the check of a source reports is what is wrong first. Statements lie one behind the other and
around what they contain, so their marks are met in the order of the source; the check looks at a
line once, and stops at the first statement of the older edition or the first line that does not
pass.
-/

namespace SourceSurvey.Syntax

open SourceSurvey.Syntax.Parser

/-- Statements between two tokens, one behind the other, each around what it contains. What a
    statement contains comes behind its first token, and a statement of the older edition begins
    with its keyword. -/
inductive Spans (lexemes : List Lexeme) : Nat → List Statement → Nat → Prop
  | nil {lo hi : Nat} (hle : lo ≤ hi) : Spans lexemes lo [] hi
  | expression {lo start hi : Nat} {shape : Shape} {rest : List Statement} (hlo : lo ≤ start)
    (hrest : Spans lexemes (start + 1) rest hi) :
    Spans lexemes lo (.expression start shape :: rest) hi
  | importing {lo start hi : Nat} {what : Import} {rest : List Statement} (hlo : lo ≤ start)
    (hrest : Spans lexemes (start + 1) rest hi) :
    Spans lexemes lo (.importing start what :: rest) hi
  | plain {lo start hi : Nat} {rest : List Statement} (hlo : lo ≤ start)
    (hrest : Spans lexemes (start + 1) rest hi) : Spans lexemes lo (.plain start :: rest) hi
  | legacy {lo start hi : Nat} {keyword : Legacy} {rest : List Statement} (hlo : lo ≤ start)
    (hkeyword : lexemes[start]?.map Lexeme.text = some keyword.spelling.toList)
    (hrest : Spans lexemes (start + 1) rest hi) :
    Spans lexemes lo (.legacy start keyword :: rest) hi
  | block {lo start middle hi : Nat} {body rest : List Statement} (hlo : lo ≤ start)
    (hbody : Spans lexemes (start + 1) body middle) (hrest : Spans lexemes middle rest hi) :
    Spans lexemes lo (.block start body :: rest) hi
  | definition {lo start stop hi : Nat} {decorators : List Nat} {kind : DefinitionKind}
    {name : Word} {body rest : List Statement} (hlo : ∀ t ∈ decorators ++ [start], lo ≤ t)
    (hascending : (decorators ++ [start]).Pairwise (· < ·))
    (hbody : Spans lexemes (start + 1) body stop) (hrest : Spans lexemes stop rest hi) :
    Spans lexemes lo (.definition decorators start stop kind name body :: rest) hi

/-! ### The order of marks -/

/-- Tokens between two others, one behind the other. -/
structure Between (lo : Nat) (tokens : List Nat) (hi : Nat) : Prop where
  le : lo ≤ hi
  ascending : tokens.Pairwise (· < ·)
  bounds : ∀ t ∈ tokens, lo ≤ t ∧ t < hi

namespace Between

variable {lo lo' middle hi t : Nat} {first second : List Nat}

theorem nil (hle : lo ≤ hi) : Between lo [] hi := ⟨hle, .nil, nofun⟩

theorem mono (h : Between lo first hi) (hlo : lo' ≤ lo) : Between lo' first hi where
  le := Nat.le_trans hlo h.le
  ascending := h.ascending
  bounds t ht := ⟨Nat.le_trans hlo (h.bounds t ht).1, (h.bounds t ht).2⟩

theorem append (h : Between lo first middle) (h' : Between middle second hi) :
    Between lo (first ++ second) hi where
  le := Nat.le_trans h.le h'.le
  ascending := List.pairwise_append.mpr ⟨h.ascending, h'.ascending, fun t ht u hu =>
    Nat.lt_of_lt_of_le (h.bounds t ht).2 (h'.bounds u hu).1⟩
  bounds := List.forall_mem_append.mpr
    ⟨fun t ht => ⟨(h.bounds t ht).1, Nat.lt_of_lt_of_le (h.bounds t ht).2 h'.le⟩,
      fun t ht => ⟨Nat.le_trans h.le (h'.bounds t ht).1, (h'.bounds t ht).2⟩⟩

theorem cons (hlo : lo ≤ t) (h : Between (t + 1) second hi) : Between lo (t :: second) hi := by
  have hone : Between lo [t] (t + 1) := ⟨Nat.le_succ_of_le hlo, List.pairwise_singleton _ _,
    List.forall_mem_singleton.mpr ⟨hlo, Nat.lt_succ_self t⟩⟩
  exact hone.append h

end Between

theorem Spans.between {lexemes : List Lexeme} {lo hi : Nat} {body : List Statement}
    (h : Spans lexemes lo body hi) : Between lo (startsOf body) hi := by
  induction h with
  | nil hle => exact .nil hle
  | expression hlo _ ih => exact .cons hlo ih
  | importing hlo _ ih => exact .cons hlo ih
  | plain hlo _ ih => exact .cons hlo ih
  | legacy hlo _ _ ih => exact .cons hlo ih
  | block hlo _ _ ih ih' =>
    rw [startsOf_cons, startsOf_block]
    exact .append (.cons hlo ih) ih'
  | @definition lo start stop hi decorators kind name body rest hlo hascending _ _ ih ih' =>
    have hstart := hlo start (List.mem_append_right _ (List.mem_singleton.mpr rfl))
    have hheader : Between lo (decorators ++ [start]) (start + 1) := by
      refine ⟨Nat.le_succ_of_le hstart, hascending, fun t ht => ⟨hlo t ht, ?_⟩⟩
      obtain ht | ht := List.mem_append.mp ht
      · exact Nat.lt_succ_of_lt ((List.pairwise_append.mp hascending).2.2 t ht start
          (List.mem_singleton.mpr rfl))
      · exact Nat.lt_succ_of_le (Nat.le_of_eq (List.mem_singleton.mp ht))
    rw [startsOf_cons, startsOf_definition, List.append_cons]
    exact (hheader.append ih).append ih'

theorem Spans.keyword {lexemes : List Lexeme} {lo hi t : Nat} {body : List Statement}
    {keyword : Legacy} (h : Spans lexemes lo body hi)
    (hmark : .legacy t keyword ∈ Statement.marksOf body) :
    lexemes[t]?.map Lexeme.text = some keyword.spelling.toList := by
  induction h with
  | nil => cases hmark
  | legacy hlo hkeyword _ ih =>
    obtain hmark | hmark := List.mem_cons.mp hmark
    · cases hmark
      exact hkeyword
    · exact ih hmark
  | expression _ _ ih | importing _ _ ih | plain _ _ ih =>
    obtain hmark | hmark := List.mem_cons.mp hmark
    · cases hmark
    · exact ih hmark
  | block _ _ _ ih ih' =>
    obtain hmark | hmark := List.mem_append.mp hmark
    · obtain hmark | hmark := List.mem_cons.mp hmark
      · cases hmark
      · exact ih hmark
    · exact ih' hmark
  | definition _ _ _ _ ih ih' =>
    obtain hmark | hmark := List.mem_append.mp hmark
    · obtain hmark | hmark := List.mem_append.mp hmark
      · obtain ⟨u, -, hmark⟩ := List.mem_map.mp hmark
        cases hmark
      · obtain hmark | hmark := List.mem_cons.mp hmark
        · cases hmark
        · exact ih hmark
    · exact ih' hmark

/-! ### Accepted sources -/

section Spans

variable {lexemes : List Lexeme} {lo lo' middle hi hi' : Nat} {first second body : List Statement}

theorem Spans.mono (h : Spans lexemes lo body hi) (hlo : lo' ≤ lo) (hhi : hi ≤ hi') :
    Spans lexemes lo' body hi' := by
  induction h generalizing lo' with
  | nil hle => exact .nil (Nat.le_trans hlo (Nat.le_trans hle hhi))
  | expression hle _ ih => exact .expression (Nat.le_trans hlo hle) (ih (Nat.le_refl _) hhi)
  | importing hle _ ih => exact .importing (Nat.le_trans hlo hle) (ih (Nat.le_refl _) hhi)
  | plain hle _ ih => exact .plain (Nat.le_trans hlo hle) (ih (Nat.le_refl _) hhi)
  | legacy hle hkeyword _ ih =>
    exact .legacy (Nat.le_trans hlo hle) hkeyword (ih (Nat.le_refl _) hhi)
  | block hle hbody _ _ ih =>
    exact .block (Nat.le_trans hlo hle) hbody (ih (Nat.le_refl _) hhi)
  | definition hle hascending hbody _ _ ih =>
    exact .definition (fun t ht => Nat.le_trans hlo (hle t ht)) hascending hbody
      (ih (Nat.le_refl _) hhi)

theorem Spans.append (h : Spans lexemes lo first middle) (h' : Spans lexemes middle second hi) :
    Spans lexemes lo (first ++ second) hi := by
  induction h with
  | nil hle => exact h'.mono hle (Nat.le_refl _)
  | expression hle _ ih => exact .expression hle (ih h')
  | importing hle _ ih => exact .importing hle (ih h')
  | plain hle _ ih => exact .plain hle (ih h')
  | legacy hle hkeyword _ ih => exact .legacy hle hkeyword (ih h')
  | block hle hbody _ _ ih => exact .block hle hbody (ih h')
  | definition hle hascending hbody _ _ ih => exact .definition hle hascending hbody (ih h')

end Spans

/-! ### Keywords -/

theorem text_of_recogniseCode_word {frames : List Frame} {c : Char} {rest : List Char} {w : Word}
    (h : (recogniseCode frames c rest).token = .word w) :
    c :: rest.take (recogniseCode frames c rest).more = w := by
  unfold recogniseCode at h ⊢
  repeat' split at h
  all_goals try cases h
  next hident =>
    rw [if_pos hident, Quotation.take_length_takeWhile]

theorem text_of_recognise_word {frames : List Frame} {c : Char} {rest : List Char} {w : Word}
    (h : (recognise frames c rest).token = .word w) :
    c :: rest.take (recognise frames c rest).more = w := by
  obtain ⟨behind, -, heq⟩ := recognise_eq_code (by rw [h]; rfl)
  rw [heq] at h ⊢
  exact text_of_recogniseCode_word h

/-- The text of a word is the word. -/
theorem text_of_word {frames : List Frame} {source : List Char} :
    ∀ l ∈ lexemesFrom frames source, ∀ w, l.token = .word w → l.text = w :=
  forall_mem_lexemesFrom (fun _ _ => nofun)
    (fun _ _ _ _ _ _ hword => text_of_recognise_word hword) frames source

section Accepted

variable {text : List Char} {m : Module}
  (hvalid : ∀ p ∈ Piece.ofLexemes (lexemes text), p.token ≠ .invalid)

include hvalid

/-- A word that the grammar sees is the text of its lexeme. -/
theorem text_of_piece {t : Nat} {p : Piece} {w : Word}
    (hp : (Piece.ofLexemes (lexemes text))[t]? = some p) (hword : p.token = .word w) :
    (lexemes text)[t]?.map Lexeme.text = some w := by
  have htokens := congrArg (fun tokens => tokens[t]?) (map_token_ofLexemes hvalid)
  simp only [List.getElem?_map, hp] at htokens
  obtain ⟨l, hl, htoken⟩ := Option.map_eq_some_iff.mp htokens.symm
  rw [hl, Option.map_some,
    text_of_word l (List.mem_of_getElem? hl) w (htoken.trans hword)]

variable {c d : Cursor}

theorem spans_of_single {s : Statement} (hc : c.On (Piece.ofLexemes (lexemes text)))
    (hsingle : s.Single c) (hlt : c.index < d.index) :
    Spans (lexemes text) c.index [s] d.index := by
  have hnil : Spans (lexemes text) (c.index + 1) [] d.index := .nil hlt
  cases hsingle with
  | expression shape => exact .expression (Nat.le_refl _) hnil
  | importing what => exact .importing (Nat.le_refl _) hnil
  | plain => exact .plain (Nat.le_refl _) hnil
  | legacy hword =>
    obtain ⟨p, hp, htoken⟩ := Option.map_eq_some_iff.mp hword
    obtain ⟨rest, hpieces⟩ := List.head?_eq_some_iff.mp hp
    exact .legacy (Nat.le_refl _) (text_of_piece hvalid (hc.getElem? [] hpieces) htoken) hnil

theorem spans_of_statementLine {depth : Nat} {statements : List Statement}
    (hc : c.On (Piece.ofLexemes (lexemes text)))
    (h : Gives (statementLine (Rules.upTo depth)) c statements d) :
    Spans (lexemes text) c.index statements d.index := by
  refine Gives.of_loop
    (fun (before : List Statement) d => d.On (Piece.ofLexemes (lexemes text)) ∧
      Spans (lexemes text) c.index before.reverse d.index)
    (fun statements d => Spans (lexemes text) c.index statements d.index) ?_ h
    ⟨hc, .nil (Nat.le_refl _)⟩
  rintro before d r d' ⟨hd, hbefore⟩ hround
  obtain ⟨s, d₁, hs, hround⟩ := gives_bind_iff.mp hround
  have hone := spans_of_single hvalid hd (single_of_simpleStatement hs)
    (advances_simpleStatement depth hs)
  have hd₁ := hd.of_reaches hs.reaches
  have hall := hbefore.append hone
  rw [← List.reverse_cons] at hall
  obtain ⟨l, d₂, hlook, hround⟩ := gives_bind_iff.mp hround
  have hle := hlook.reaches.index_le
  split at hround
  · obtain ⟨rfl, rfl⟩ := gives_pure_iff.mp hround
    exact hall.mono (Nat.le_refl _) hle
  · obtain ⟨l, d₃, hbehind, hround⟩ := gives_bind_iff.mp hround
    have hle' := Nat.le_trans hle hbehind.reaches.index_le
    split at hround
    · obtain ⟨rfl, rfl⟩ := gives_pure_iff.mp hround
      exact hall.mono (Nat.le_refl _) hle'
    · obtain ⟨rfl, rfl⟩ := gives_pure_iff.mp hround
      exact ⟨hd₁.of_reaches (hlook.reaches.trans hbehind.reaches),
        hall.mono (Nat.le_refl _) hle'⟩
  · exact absurd hround not_gives_failure

theorem spans_of_built {lo hi : Nat} {body : List Statement}
    (h : Built (Piece.ofLexemes (lexemes text)) lo body hi) : Spans (lexemes text) lo body hi := by
  induction h with
  | nil hle => exact .nil hle
  | line hlo hc hread hhi => exact (spans_of_statementLine hvalid hc hread).mono hlo hhi
  | block hlo _ _ ih => exact .block hlo ih (.nil (Nat.le_refl _))
  | definition hlo hascending _ _ _ hhi ih => exact .definition hlo hascending ih (.nil hhi)
  | append _ _ ih ih' => exact ih.append ih'

end Accepted

/-- The statements of an accepted source lie one behind the other. -/
theorem spans_of_ofPieces {text : List Char} {m : Module}
    (hmodule : Module.ofPieces (Piece.ofLexemes (lexemes text)) = .ok m) :
    Spans (lexemes text) 0 m.body (lexemes text).length := by
  rw [← length_ofLexemes]
  exact spans_of_built (token_ne_invalid_of_mem hmodule) (built_of_ofPieces hmodule)

/-! ### Lines that are looked at -/

section Marks

variable {places : Array Place} {last : Option Nat} {marks : List Mark} {stack : IndentStack}

theorem line_mem_of_mem_linesAt {t : Nat} (h : t ∈ linesAt places last marks) :
    .line t ∈ marks := by
  fun_induction linesAt places last marks with
  | case1 => cases h
  | case2 last u keyword rest ih => exact List.mem_cons_of_mem _ (ih h)
  | case3 last u rest place hline ih =>
    obtain rfl | h := List.mem_cons.mp h
    · exact List.mem_cons_self
    · exact List.mem_cons_of_mem _ (ih h)
  | case4 last u rest place hline ih => exact List.mem_cons_of_mem _ (ih h)

/-- The leading blanks of the line that a token is on. -/
def leading (places : Array Place) (t : Nat) : List Char := (placeAt places t).margin.reverse

/-- The check ends at a mark: at a statement of the older edition, or at a line that is looked at
    and does not pass. -/
inductive EndsAt (places : Array Place) (last : Option Nat) (stack : IndentStack) :
    Mark → Problem → Prop
  | legacy (t : Nat) (keyword : Legacy) : EndsAt places last stack (.legacy t keyword)
    (.legacy keyword (placeAt places t).line (placeAt places t).column)
  | line {t : Nat} {problem : IndentProblem}
    (hline : ((placeAt places t).margin.all isIndentChar &&
      last ≠ some (placeAt places t).marginStart) = true)
    (hfails : stack.check (leading places t) = .error problem) :
    EndsAt places last stack (.line t) (.indentation problem (placeAt places t).line)

/-- What is found is found at a mark before which there are only lines, and all those that are
    looked at pass. -/
theorem exists_of_violationAt {problem : Problem}
    (h : violationAt places stack last marks = some problem) :
    ∃ early mark late last' final, marks = early ++ mark :: late ∧
      (∀ mark ∈ early, mark = .line mark.token) ∧
      ((linesAt places last early).map (leading places)).foldlM IndentStack.check stack =
        .ok final ∧
      linesAt places last marks =
        linesAt places last early ++ linesAt places last' (mark :: late) ∧
      EndsAt places last' final mark problem := by
  induction marks generalizing stack last with
  | nil => cases h
  | cons mark rest ih =>
    cases mark with
    | legacy t keyword =>
      cases h
      exact ⟨[], _, rest, last, stack, rfl, nofun, rfl, rfl, .legacy t keyword⟩
    | line u =>
      have hfirst : ∀ {early : List Mark}, (∀ mark ∈ early, mark = .line mark.token) →
          ∀ mark ∈ Mark.line u :: early, mark = .line mark.token := fun hearly =>
        List.forall_mem_cons.mpr ⟨rfl, hearly⟩
      rw [violationAt_line] at h
      split at h
      · next hline =>
        split at h
        · next next haccept =>
          obtain ⟨early, mark, late, last', final, rfl, hearly, hrun, hlines, hends⟩ := ih h
          refine ⟨.line u :: early, mark, late, last', final, rfl, hfirst hearly, ?_, ?_, hends⟩
          · rw [linesAt, if_pos hline, List.map_cons, List.foldlM_cons]
            exact (congrArg (· >>= _) haccept).trans hrun
          · rw [linesAt, if_pos hline, linesAt, if_pos hline, hlines]
            rfl
        · next hfails =>
          cases h
          exact ⟨[], _, rest, last, stack, rfl, nofun, rfl, rfl, .line hline hfails⟩
      · next hline =>
        obtain ⟨early, mark, late, last', final, rfl, hearly, hrun, hlines, hends⟩ := ih h
        refine ⟨.line u :: early, mark, late, last', final, rfl, hfirst hearly, ?_, ?_, hends⟩
        · rw [linesAt, if_neg hline]
          exact hrun
        · rw [linesAt, if_neg hline, linesAt, if_neg hline, hlines]

end Marks

/-! ### Places -/

theorem Place.marginStart_le_over {p : Place} (h : p.marginStart ≤ p.offset) (text : List Char) :
    p.marginStart ≤ (p.over text).marginStart := by
  induction text generalizing p with
  | nil => exact Nat.le_refl _
  | cons c text ih =>
    have hafter : p.marginStart ≤ (p.after c).marginStart ∧
        (p.after c).marginStart ≤ (p.after c).offset := by
      simp only [Place.after]
      split <;> omega
    rw [Place.over_cons]
    exact Nat.le_trans hafter.1 (ih hafter.2)

/-- The line of a place is the number of line feeds before it. -/
theorem Place.line_start_over (text : List Char) :
    (Place.start.over text).line = text.count '\n' := by
  induction text using List.reverseRecOn with
  | nil => rfl
  | append_singleton text c ih =>
    rw [Place.over_concat, List.count_append, ← ih, List.count_singleton]
    simp only [Place.after]
    split
    · next hc =>
      subst hc
      rfl
    · next hc => simp [hc]

/-- The column of a place is the number of bytes since the last line feed. -/
theorem Place.column_start_over (text : List Char) :
    (Place.start.over text).column =
      ((text.reverse.takeWhile (· ≠ '\n')).map Char.utf8Size).sum := by
  induction text using List.reverseRecOn with
  | nil => rfl
  | append_singleton text c ih =>
    rw [Place.over_concat, List.reverse_concat]
    simp only [Place.after]
    split
    · next hc =>
      subst hc
      rfl
    · next hc =>
      rw [List.takeWhile_cons_of_pos (by simpa using hc), List.map_cons, List.sum_cons, ← ih,
        Nat.add_comm]

/-- The text of a source around one of its tokens. -/
theorem text_split {text : List Char} {t : Nat} {l : Lexeme} (hl : (lexemes text)[t]? = some l) :
    text = Lexeme.joined ((lexemes text).take t) ++ l.gap ++ l.text ++
      Lexeme.joined ((lexemes text).drop (t + 1)) := by
  have htext : Lexeme.joined (lexemes text) = text := joined_lexemesFrom [] text
  obtain ⟨hlt, hget⟩ := List.getElem?_eq_some_iff.mp hl
  conv_lhs => rw [← htext, ← List.take_append_drop t (lexemes text), List.drop_eq_getElem_cons hlt,
    hget, Lexeme.joined_append, joined_cons]
  rw [← List.append_assoc, ← List.append_assoc]

/-! ### The first problem -/

/-- A problem that is first in the source. -/
inductive FoundFirst (text : List Char) (body : List Statement) : Problem → Prop
  /-- No other statement of the older edition begins before this one, the lines before it pass, and
      its keyword stands at the place that is reported. -/
  | legacy {t : Nat} {keyword : Legacy} {stack : IndentStack} {before after : List Char}
    (hmark : .legacy t keyword ∈ Statement.marksOf body)
    (hfirst : ∀ u other, .legacy u other ∈ Statement.marksOf body → t ≤ u)
    (hpass : (((linesOf (lexemes text) body).filter (· < t)).map
      (leading (placesOf (lexemes text)))).foldlM IndentStack.check .base = .ok stack)
    (htext : text = before ++ keyword.spelling.toList ++ after)
    (hoffset : (placeAt (placesOf (lexemes text)) t).offset = before.length) :
    FoundFirst text body (.legacy keyword (before.count '\n')
      ((before.reverse.takeWhile (· ≠ '\n')).map Char.utf8Size).sum)
  /-- The lines before this one pass, and no statement of the older edition begins before it or with
      it. -/
  | indentation {t : Nat} {early late : List Nat} {stack : IndentStack} {problem : IndentProblem}
    (hlines : linesOf (lexemes text) body = early ++ t :: late)
    (hmodern : ∀ u keyword, .legacy u keyword ∈ Statement.marksOf body → t < u)
    (hpass : (early.map (leading (placesOf (lexemes text)))).foldlM IndentStack.check .base =
      .ok stack)
    (hfails : stack.check (leading (placesOf (lexemes text)) t) = .error problem) :
    FoundFirst text body (.indentation problem (placeAt (placesOf (lexemes text)) t).line)

section Tree

variable {text : List Char} {body : List Statement} {t u : Nat}
  (hvalid : ∀ l ∈ lexemes text, l.token ≠ .invalid)

include hvalid

/-- A token with only indentation before it is on a later line than all tokens before it. -/
theorem marginStart_lt_of_indented (ht : t < (lexemes text).length)
    (hmargin : (placeAt (placesOf (lexemes text)) t).margin.all isIndentChar = true) (hu : u < t) :
    (placeAt (placesOf (lexemes text)) u).marginStart <
      (placeAt (placesOf (lexemes text)) t).marginStart := by
  have hblank : (placeAt (placesOf (lexemes text)) t).margin.all isSeparator = true :=
    List.all_eq_true.mpr fun c hc =>
      isSeparator_of_isIndentChar (List.all_eq_true.mp hmargin c hc)
  refine Nat.lt_of_le_of_ne ?_ (marginStart_ne_of_blank hvalid ht hblank hu)
  have hl := List.getElem?_eq_getElem ht
  have hk := List.getElem?_eq_getElem (Nat.lt_trans hu ht)
  obtain ⟨rest, hbefore⟩ := joined_take_of_lt hk hu
  have hplace := placeAt_placesOf hk
  rw [← Place.over_append] at hplace
  rw [placeAt_placesOf hl, hbefore, Place.over_append, ← Place.over_append, ← hplace]
  refine Place.marginStart_le_over ?_ _
  rw [hplace, Place.offset_start_over]
  exact Place.marginStart_le _

variable (hspans : Spans (lexemes text) 0 body (lexemes text).length)

include hspans

/-- The lines that are looked at are those that a statement, a clause or a decorator begins with
    nothing but indentation before it. -/
theorem mem_linesOf_iff_line : t ∈ linesOf (lexemes text) body ↔
    .line t ∈ Statement.marksOf body ∧
      (placeAt (placesOf (lexemes text)) t).margin.all isIndentChar = true := by
  refine ⟨fun ht => ⟨line_mem_of_mem_linesAt ht, margin_of_mem_linesAt ht⟩, ?_⟩
  rintro ⟨hmark, hmargin⟩
  have hlt := (hspans.between.bounds t (List.mem_map_of_mem hmark)).2
  refine mem_linesAt hspans.between.ascending hmark hmargin nofun fun u hu => ?_
  exact Nat.ne_of_lt (marginStart_lt_of_indented hvalid hlt hmargin hu)

omit hvalid in
theorem ascending_linesOf : (linesOf (lexemes text) body).Pairwise (· < ·) :=
  hspans.between.ascending.sublist (sublist_linesOf _ _)

/-- Lines are looked at once, in the order of the source. -/
theorem marginStart_lt_of_mem_linesOf : (linesOf (lexemes text) body).Pairwise fun t u =>
    (placeAt (placesOf (lexemes text)) t).marginStart <
      (placeAt (placesOf (lexemes text)) u).marginStart := by
  refine (ascending_linesOf hspans).imp_of_mem fun {t u} _ hu hless => ?_
  have hlt := (hspans.between.bounds u ((sublist_linesOf _ _).subset hu)).2
  exact marginStart_lt_of_indented hvalid hlt (margin_of_mem_linesAt hu) hless

/-- The line that a statement of the older edition begins is not looked at. -/
theorem marginStart_ne_of_legacy {keyword : Legacy}
    (hmark : .legacy t keyword ∈ Statement.marksOf body)
    (hmargin : (placeAt (placesOf (lexemes text)) t).margin.all isIndentChar = true)
    (hu : u ∈ linesOf (lexemes text) body) :
    (placeAt (placesOf (lexemes text)) u).marginStart ≠
      (placeAt (placesOf (lexemes text)) t).marginStart := by
  have ht := (hspans.between.bounds t (List.mem_map_of_mem hmark)).2
  have hbound := (hspans.between.bounds u ((sublist_linesOf _ _).subset hu)).2
  obtain hless | rfl | hless := Nat.lt_trichotomy u t
  · exact Nat.ne_of_lt (marginStart_lt_of_indented hvalid ht hmargin hless)
  · have hline := line_mem_of_mem_linesAt hu
    have hsame := List.inj_on_of_nodup_map
      (hspans.between.ascending.imp Nat.ne_of_lt : (startsOf body).Nodup) hline hmark rfl
    cases hsame
  · exact Nat.ne_of_gt (marginStart_lt_of_indented hvalid hbound (margin_of_mem_linesAt hu) hless)

omit hvalid hspans in
theorem violation_eq_none_iff : violation (placesOf (lexemes text)) body = none ↔
    (∀ t keyword, .legacy t keyword ∉ Statement.marksOf body) ∧
      ∃ stack, ((linesOf (lexemes text) body).map (leading (placesOf (lexemes text)))).foldlM
        IndentStack.check .base = .ok stack := by
  constructor
  · intro h
    refine ⟨fun t keyword hmark => ?_, ?_⟩
    · cases line_of_violationAt h _ hmark
    · obtain ⟨stack, hrun⟩ := run_of_violationAt h
      rw [List.foldlM_map] at hrun ⊢
      exact ⟨stack, hrun⟩
  · rintro ⟨hmodern, stack, hrun⟩
    have hfound : violation (placesOf (lexemes text)) body = _ := violationAt_eq_problemOf hmodern
    rw [hfound, ← linesOf, foldlM_pass_of_ok]
    · rfl
    · rw [List.map_map]
      exact hrun

omit hvalid in
theorem foundFirst_of_violation {problem : Problem}
    (h : violation (placesOf (lexemes text)) body = some problem) :
    FoundFirst text body problem := by
  obtain ⟨early, mark, late, last', final, hmarks, hearly, hrun, hlines, hends⟩ :=
    exists_of_violationAt h
  rw [← linesOf] at hlines
  have hascending : ((early ++ mark :: late).map Mark.token).Pairwise (· < ·) :=
    hmarks ▸ hspans.between.ascending
  rw [List.map_append, List.map_cons, List.pairwise_append, List.pairwise_cons] at hascending
  obtain ⟨-, ⟨hlate, -⟩, hacross⟩ := hascending
  have hbehind : ∀ u other, .legacy u other ∈ Statement.marksOf body →
      .legacy u other = mark ∨ mark.token < u := by
    intro u other hu
    rw [hmarks] at hu
    obtain hu | hu := List.mem_append.mp hu
    · cases hearly _ hu
    · obtain hu | hu := List.mem_cons.mp hu
      · exact .inl hu
      · exact .inr (hlate u (List.mem_map_of_mem hu))
  cases hends with
  | legacy t keyword =>
    have hmark : .legacy t keyword ∈ Statement.marksOf body :=
      hmarks ▸ List.mem_append_right _ List.mem_cons_self
    obtain ⟨l, hl, hkeyword⟩ := Option.map_eq_some_iff.mp (hspans.keyword hmark)
    have hplace := placeAt_placesOf hl
    rw [← Place.over_append] at hplace
    have hpassed : (linesOf (lexemes text) body).filter (· < t) =
        linesAt (placesOf (lexemes text)) none early := by
      rw [hlines, List.filter_append, List.filter_eq_self.mpr, List.filter_eq_nil_iff.mpr,
        List.append_nil]
      · intro u hu
        have hu := sublist_linesAt.subset hu
        obtain rfl | hu := List.mem_cons.mp hu
        · simp
        · have hless : t < u := hlate u hu
          simpa using Nat.le_of_lt hless
      · intro u hu
        exact decide_eq_true (hacross u (sublist_linesAt.subset hu) t List.mem_cons_self)
    have hfirst : ∀ u other, .legacy u other ∈ Statement.marksOf body → t ≤ u := by
      intro u other hu
      obtain heq | hless := hbehind u other hu
      · cases heq
        exact Nat.le_refl _
      · exact Nat.le_of_lt hless
    rw [hplace, Place.line_start_over, Place.column_start_over]
    refine .legacy hmark hfirst (hpassed ▸ hrun) (hkeyword ▸ text_split hl) ?_
    rw [hplace, Place.offset_start_over]
  | line hline hfails =>
    next t problem =>
    rw [linesAt, if_pos hline] at hlines
    refine .indentation hlines (fun u keyword hu => ?_) hrun hfails
    obtain heq | hless := hbehind u keyword hu
    · cases heq
    · exact hless

end Tree

/-- The check of a source refuses it for what comes first in it, and for nothing else. -/
structure RefusesFirst (text : List Char) (body : List Statement) : Prop where
  none_iff : violation (placesOf (lexemes text)) body = none ↔
    (∀ t keyword, .legacy t keyword ∉ Statement.marksOf body) ∧
      ∃ stack, ((linesOf (lexemes text) body).map (leading (placesOf (lexemes text)))).foldlM
        IndentStack.check .base = .ok stack
  first : ∀ problem, violation (placesOf (lexemes text)) body = some problem →
    FoundFirst text body problem
  /-- No line is looked at twice, or behind a later one. -/
  once : (linesOf (lexemes text) body).Pairwise fun t u =>
    (placeAt (placesOf (lexemes text)) t).marginStart <
      (placeAt (placesOf (lexemes text)) u).marginStart
  /-- The lines that are looked at are those that a statement, a clause or a decorator begins with
      nothing but indentation before it. -/
  looked_iff : ∀ t, t ∈ linesOf (lexemes text) body ↔ .line t ∈ Statement.marksOf body ∧
    (placeAt (placesOf (lexemes text)) t).margin.all isIndentChar = true
  /-- The line that a statement of the older edition begins is not looked at. -/
  unlooked : ∀ t keyword, .legacy t keyword ∈ Statement.marksOf body →
    (placeAt (placesOf (lexemes text)) t).margin.all isIndentChar = true →
      ∀ u ∈ linesOf (lexemes text) body, (placeAt (placesOf (lexemes text)) u).marginStart ≠
        (placeAt (placesOf (lexemes text)) t).marginStart

/-- The statements of an accepted source lie one behind the other, each around what it contains, and
    wherever statements do, the check finds what is wrong first. -/
theorem violation_refusesFirst :
    (∀ text m, Module.ofPieces (Piece.ofLexemes (lexemes text)) = .ok m →
      (∀ l ∈ lexemes text, l.token ≠ .invalid) ∧
        Spans (lexemes text) 0 m.body (lexemes text).length) ∧
      ∀ text body, (∀ l ∈ lexemes text, l.token ≠ .invalid) →
        Spans (lexemes text) 0 body (lexemes text).length → RefusesFirst text body := by
  constructor
  · intro text m hmodule
    exact ⟨token_ne_invalid_of_ofPieces hmodule, spans_of_ofPieces hmodule⟩
  · intro text body hvalid hspans
    exact {
      none_iff := violation_eq_none_iff
      first := fun _ h => foundFirst_of_violation hspans h
      once := marginStart_lt_of_mem_linesOf hvalid hspans
      looked_iff := fun _ => mem_linesOf_iff_line hvalid hspans
      unlooked := fun _ _ hmark hmargin _ hu =>
        marginStart_ne_of_legacy hvalid hspans hmark hmargin hu }

/-- A source with a statement of the older edition inside a block. -/
def olderSample : List Char := "if a:\n    b\n    print c\n".toList

set_option maxRecDepth 8000 in
/-- The lines before that statement pass, so the statement is what is found. -/
theorem violation_refusesFirst_older :
    Module.ofPieces (Piece.ofLexemes (lexemes olderSample)) =
        .ok ⟨false, [.block 0 [.expression 3 .name, .legacy 4 .print]]⟩ ∧
      violation (placesOf (lexemes olderSample))
        [.block 0 [.expression 3 .name, .legacy 4 .print]] = some (.legacy .print 2 4) ∧
      RefusesFirst olderSample [.block 0 [.expression 3 .name, .legacy 4 .print]] := by
  have hmodule : Module.ofPieces (Piece.ofLexemes (lexemes olderSample)) =
      .ok ⟨false, [.block 0 [.expression 3 .name, .legacy 4 .print]]⟩ := by with_unfolding_all rfl
  obtain ⟨hvalid, hspans⟩ := violation_refusesFirst.1 olderSample _ hmodule
  exact ⟨hmodule, by with_unfolding_all rfl, violation_refusesFirst.2 olderSample _ hvalid hspans⟩

/-- A source with a statement of the older edition behind another one, on a line that does not
    pass. -/
def behindSample : List Char := "if a:\n    b\n  c; print d\n".toList

set_option maxRecDepth 8000 in
/-- A statement of the older edition comes before the indentation of its line only where it begins
    the line. -/
theorem not_forall_line_ne_of_legacy :
    ¬ ∀ text m problem line t keyword,
      Module.ofPieces (Piece.ofLexemes (lexemes text)) = .ok m →
      violation (placesOf (lexemes text)) m.body = some (.indentation problem line) →
      .legacy t keyword ∈ Statement.marksOf m.body →
        (placeAt (placesOf (lexemes text)) t).line ≠ line := by
  intro h
  have hmodule : Module.ofPieces (Piece.ofLexemes (lexemes behindSample)) =
      .ok ⟨false, [.block 0 [.expression 3 .name], .expression 4 .name, .legacy 6 .print]⟩ := by
    with_unfolding_all rfl
  have hfound : violation (placesOf (lexemes behindSample))
      [.block 0 [.expression 3 .name], .expression 4 .name, .legacy 6 .print] =
        some (.indentation .unmatched 2) := by with_unfolding_all rfl
  have hmark : .legacy 6 .print ∈ Statement.marksOf
      [.block 0 [.expression 3 .name], .expression 4 .name, .legacy 6 .print] := by
    simp [Statement.marksOf, Statement.marks]
  have hline : (placeAt (placesOf (lexemes behindSample)) 6).line = 2 := by with_unfolding_all rfl
  exact h behindSample _ _ _ 6 .print hmodule hfound hmark hline

end SourceSurvey.Syntax
