import SourceSurvey.Proofs.LineEnds.Tokens
import SourceSurvey.Syntax.Survey

/-!
The lexemes of a source and of the same source with its line ends written in the other way. Unless a
literal of the source spills over a line end, there are as many lexemes in both, with the same tokens
and the same layout, and literals have the same values.
-/

namespace SourceSurvey.Syntax

open SourceSurvey.Text

/-- Whether a literal of a source, from some point on, spills over a line end. -/
def spillsFrom (frames : List Frame) (source : List Char) : Bool :=
  match _hrest : source.drop (gapLengthIn frames source) with
  | [] => false
  | c :: rest =>
    let r := recognise frames c rest
    spillsAt frames (c :: rest) || spillsFrom r.frames (rest.drop r.more)
termination_by source.length
decreasing_by
  have hlen := congrArg List.length _hrest
  simp only [List.length_drop, List.length_cons] at hlen ⊢
  omega

/-- Whether a source has a literal on single marks that runs over a line end which nothing shields. -/
def spills (source : List Char) : Bool := spillsFrom [] source

/-- The lexemes of a source and of the source with its line ends written in the other way. When the
    comment before them took a carriage return, that is missing from the first blanks. -/
inductive Rewritten : Bool → List Lexeme → List Lexeme → Prop
  | nil : Rewritten false [] []
  | cons {early late : Bool} {gap gap' text text' : List Char} {token : Token}
      {rest rest' : List Lexeme} (hreturn : '\r' ∉ gap) (hgap : taken early ++ gap' = crlf gap)
      (htext : text' = crlf text ++ taken late) (hcomment : late = true → token = .comment)
      (hvalue : ∀ bare, token = .string bare → literalValue? text' = literalValue? text)
      (hrest : Rewritten late rest rest') :
      Rewritten early (⟨gap, text, token⟩ :: rest) (⟨gap', text', token⟩ :: rest')

/-- The end of the source, with the blanks before it. -/
theorem Rewritten.last {early : Bool} {gap gap' : List Char} {token : Token}
    (hreturn : '\r' ∉ gap) (hgap : taken early ++ gap' = crlf gap)
    (htoken : ∀ bare, token ≠ .string bare) :
    Rewritten early [⟨gap, [], token⟩] [⟨gap', [], token⟩] := by
  have htext : [] = crlf [] ++ taken false := rfl
  exact .cons hreturn hgap htext nofun (fun bare h => absurd h (htoken bare)) .nil

/-- A text from which the first carriage return is missing. -/
theorem exists_of_return_cons {text text' : List Char} (hreturn : '\r' ∉ text)
    (htext : '\r' :: text' = crlf text) : ∃ rest, text = '\n' :: rest ∧ text' = '\n' :: crlf rest := by
  cases text with
  | nil => cases htext
  | cons c rest =>
    by_cases hc : c = '\n'
    · subst hc
      exact ⟨rest, rfl, (List.cons.inj htext).2⟩
    · rw [crlf_cons hc] at htext
      obtain ⟨rfl, -⟩ := List.cons.inj htext
      exact absurd List.mem_cons_self hreturn

/-- Blanks reach up to the same token in both texts. -/
theorem gap_crlf {frames : List Frame} {early : Bool} {source source' : List Char}
    (hreturn : '\r' ∉ source) (hsource : taken early ++ source' = crlf source)
    (hearly : early = true → ∀ source, gapLengthIn frames source = gapLength source) :
    taken early ++ source'.take (gapLengthIn frames source') =
        crlf (source.take (gapLengthIn frames source)) ∧
      source'.drop (gapLengthIn frames source') =
        crlf (source.drop (gapLengthIn frames source)) := by
  cases early with
  | false =>
    have hsource : source' = crlf source := hsource
    subst hsource
    have hlength : gapLengthIn frames (crlf source) =
        (crlf (source.take (gapLengthIn frames source))).length := by
      match frames with
      | [] => exact gapLength_crlf hreturn
      | .hole _ _ _ :: _ => exact gapLength_crlf hreturn
      | .text _ :: _ => rfl
      | .format :: _ => rfl
    rw [hlength]
    exact ⟨take_crlf source _, drop_crlf source _⟩
  | true =>
    obtain ⟨rest, rfl, rfl⟩ := exists_of_return_cons hreturn hsource
    have hrest := gapLength_crlf (List.not_mem_of_not_mem_cons hreturn)
    have hblank : ∀ more, gapLengthIn frames ('\n' :: more) = gapLength more + 1 := by
      intro more
      rw [hearly rfl, gapLength_cons (by decide), if_pos (by decide)]
    rw [hblank, hblank, hrest, List.take_succ_cons, List.take_succ_cons, List.drop_succ_cons,
      List.drop_succ_cons, take_crlf, drop_crlf]
    exact ⟨rfl, rfl⟩

section Token

variable {frames : List Frame} {source rest : List Char} {c : Char}

theorem lexemesFrom_of_drop (h : source.drop (gapLengthIn frames source) = c :: rest) :
    lexemesFrom frames source =
      ⟨source.take (gapLengthIn frames source), c :: rest.take (recognise frames c rest).more,
        (recognise frames c rest).token⟩ ::
        lexemesFrom (recognise frames c rest).frames
          (rest.drop (recognise frames c rest).more) := by
  rw [lexemesFrom]
  split
  · next hnil =>
    rw [h] at hnil
    cases hnil
  · next hcons =>
    rw [h] at hcons
    cases hcons
    rfl

theorem spillsFrom_of_drop (h : source.drop (gapLengthIn frames source) = c :: rest) :
    spillsFrom frames source = (spillsAt frames (c :: rest) ||
      spillsFrom (recognise frames c rest).frames (rest.drop (recognise frames c rest).more)) := by
  rw [spillsFrom]
  split
  · next hnil =>
    rw [h] at hnil
    cases hnil
  · next hcons =>
    rw [h] at hcons
    cases hcons
    rfl

/-- A literal without interpolations is recognised from its opening to its closing marks. -/
theorem recogniseCode_string {bare : Bool} (htoken : (recogniseCode [] c rest).token = .string bare) :
    ∃ q opening inside,
      Quotation.ofText? ((c :: rest).take ((recogniseCode [] c rest).more + 1)) = some (q, opening) ∧
      ((c :: rest).take ((recogniseCode [] c rest).more + 1)).drop opening =
        inside ++ List.replicate q.width q.mark := by
  cases hopening : Quotation.ofText? (c :: rest) with
  | none =>
    simp only [recogniseCode, hopening] at htoken
    repeat' split at htoken
    all_goals cases htoken
  | some found =>
    obtain ⟨q, opening⟩ := found
    have hone := (Quotation.opening_spec hopening).1
    simp only [recogniseCode, hopening] at htoken ⊢
    split_ifs at htoken with hformat
    simp only [hformat]
    cases hstretch : q.stretch false ((c :: rest).drop opening) with
    | none =>
      rw [hstretch] at htoken
      cases htoken
    | some stretch =>
      rw [hstretch] at htoken
      obtain ⟨ends, n⟩ := stretch
      cases ends with
      | hole => cases htoken
      | closed =>
        obtain ⟨inside, hinside⟩ := Quotation.exists_take_of_stretch_closed hstretch
        have hmore : opening - 1 + n + 1 = opening + n := by omega
        refine ⟨q, opening, inside, ?_, ?_⟩
        · simp only [hmore, Bool.false_eq_true, if_false]
          exact Quotation.ofText?_take hopening (Nat.le_add_right _ _)
        · simp only [hmore, Bool.false_eq_true, if_false]
          rw [List.drop_take, Nat.add_sub_cancel_left, hinside]

theorem recogniseHole_string {depth lambdas : Nat} {spot : Spot} {outer : List Frame} {bare : Bool}
    (htoken : (recogniseHole depth lambdas spot outer c rest).token = .string bare) :
    (recogniseCode [] c rest).token = .string bare ∧
      (recogniseHole depth lambdas spot outer c rest).more = (recogniseCode [] c rest).more := by
  unfold recogniseHole at htoken ⊢
  split_ifs at htoken ⊢
  exact ⟨htoken, rfl⟩

/-- A literal has the same value in both texts. -/
theorem literalValue?_of_recognise {bare : Bool} (hreturn : '\r' ∉ c :: rest)
    (htoken : (recognise frames c rest).token = .string bare) :
    literalValue? (crlf ((c :: rest).take ((recognise frames c rest).more + 1))) =
      literalValue? ((c :: rest).take ((recognise frames c rest).more + 1)) := by
  have hcode : (recogniseCode [] c rest).token = .string bare ∧
      (recognise frames c rest).more = (recogniseCode [] c rest).more := by
    match frames with
    | [] => exact ⟨htoken, rfl⟩
    | .hole _ _ _ :: _ => exact recogniseHole_string htoken
    | .text q :: _ =>
      unfold recognise at htoken
      simp only at htoken
      split at htoken <;> cases htoken
    | .format :: _ =>
      unfold recognise at htoken
      simp only at htoken
      split at htoken <;> cases htoken
  obtain ⟨q, opening, inside, hopening, hinside⟩ := recogniseCode_string hcode.1
  rw [hcode.2]
  exact literalValue?_crlf (fun hmem => hreturn (List.mem_of_mem_take hmem)) hopening hinside

theorem lexemesFrom_of_drop_nil (h : source.drop (gapLengthIn frames source) = []) :
    lexemesFrom frames source = [⟨source, [], .finish⟩] := by
  rw [lexemesFrom]
  split
  · rfl
  · next hcons =>
    rw [h] at hcons
    cases hcons

theorem spillsFrom_of_drop_nil (h : source.drop (gapLengthIn frames source) = []) :
    spillsFrom frames source = false := by
  rw [spillsFrom]
  split
  · rfl
  · next hcons =>
    rw [h] at hcons
    cases hcons

end Token

/-- The lexemes of both texts, from some point on. -/
theorem lexemesFrom_crlf (frames : List Frame) (source : List Char) :
    ∀ early {source'}, '\r' ∉ source → taken early ++ source' = crlf source →
      (early = true → ∀ source, gapLengthIn frames source = gapLength source) →
      if spillsFrom frames source then ∃ l ∈ lexemesFrom frames source', l.token = .invalid
      else Rewritten early (lexemesFrom frames source) (lexemesFrom frames source') := by
  fun_induction lexemesFrom frames source
  case case1 frames source gap h =>
    intro early source' hreturn hsource hearly
    have hdrop := (gap_crlf hreturn hsource hearly).2
    rw [h] at hdrop
    rw [spillsFrom_of_drop_nil h, lexemesFrom_of_drop_nil hdrop]
    exact .last hreturn hsource fun _ h => by cases h
  case case2 frames source gap c rest h r ih =>
    intro early source' hreturn hsource hearly
    obtain ⟨hgap, hdrop⟩ := gap_crlf hreturn hsource hearly
    rw [h] at hdrop
    have hrest : '\r' ∉ c :: rest := fun hmem => hreturn (List.mem_of_mem_drop (h ▸ hmem))
    obtain ⟨c', rest', htext⟩ := List.exists_cons_of_ne_nil
      (mt crlf_eq_nil.mp (List.cons_ne_nil c rest))
    have hcode : (∀ source, gapLengthIn frames source = gapLength source) → c ≠ '\n' := by
      intro hframes
      have h : source.drop (gapLengthIn frames source) = c :: rest := h
      rw [hframes] at h
      rintro rfl
      cases isSeparator_of_drop_gapLength h
    have hbecomes := recognise_crlf hrest htext hcode
    rw [htext] at hdrop
    rw [lexemesFrom_of_drop hdrop, spillsFrom_of_drop h]
    cases hspill : spillsAt frames (c :: rest) with
    | true =>
      rw [hspill] at hbecomes
      exact ⟨_, List.mem_cons_self, hbecomes⟩
    | false =>
      rw [hspill] at hbecomes
      obtain ⟨late, hsame⟩ := hbecomes
      have hrecognised := hsame.recognised
      have hbehind := hsame.behind
      rw [htext, List.take_succ_cons, List.take_succ_cons] at hrecognised
      rw [htext, List.drop_succ_cons, List.drop_succ_cons] at hbehind
      have hmore := ih late (fun hmem => hrest (List.mem_cons_of_mem c (List.mem_of_mem_drop hmem)))
        hbehind fun hlate => (hsame.comment hlate).2
      rw [hsame.frames, hsame.token, Bool.false_or]
      split
      · next hspills =>
        rw [if_pos hspills] at hmore
        obtain ⟨l, hl, hinvalid⟩ := hmore
        exact ⟨l, List.mem_cons_of_mem _ hl, hinvalid⟩
      · next hspills =>
        rw [if_neg hspills] at hmore
        refine .cons (fun hmem => hreturn (List.mem_of_mem_take hmem)) hgap hrecognised
          (fun hlate => (hsame.comment hlate).1) (fun bare htoken => ?_) hmore
        have hlate : late = false := by
          cases late with
          | false => rfl
          | true =>
            have hcomment := (hsame.comment rfl).1
            rw [htoken] at hcomment
            cases hcomment
        have hvalue := literalValue?_of_recognise hrest htoken
        rw [List.take_succ_cons] at hvalue
        rw [hrecognised, hlate]
        exact (List.append_nil _).symm ▸ hvalue

end SourceSurvey.Syntax
