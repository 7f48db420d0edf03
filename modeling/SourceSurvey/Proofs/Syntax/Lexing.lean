import Mathlib.Tactic.SplitIfs
import SourceSurvey.Proofs.Outline.Text
import SourceSurvey.Syntax.Lexeme

/-!
How lexemes are cut off a text: blanks, words, delimiters and literals on one line. Each comes with
the blanks before it, and what follows it matters only by its first character.
-/

namespace SourceSurvey.Syntax

/-- Some lexemes are what is cut off their text where some rest follows. -/
def CutsOff (lexemes : List Lexeme) (rest : List Char) : Prop :=
  lexemesFrom [] (Lexeme.joined lexemes ++ rest) = lexemes ++ lexemesFrom [] rest

theorem cutsOff_nil (rest : List Char) : CutsOff [] rest := rfl

theorem CutsOff.append {first second : List Lexeme} {rest : List Char}
    (hfirst : CutsOff first (Lexeme.joined second ++ rest)) (hsecond : CutsOff second rest) :
    CutsOff (first ++ second) rest := by
  rw [CutsOff, Lexeme.joined_append, List.append_assoc, hfirst, hsecond, List.append_assoc]

theorem CutsOff.cons {l : Lexeme} {more : List Lexeme} {rest : List Char}
    (hfirst : CutsOff [l] (Lexeme.joined more ++ rest)) (hmore : CutsOff more rest) :
    CutsOff (l :: more) rest :=
  hfirst.append hmore

/-- Anything but a backslash is a blank or ends the blanks. -/
theorem gapLength_cons {c : Char} (hc : c ≠ '\\') (rest : List Char) :
    gapLength (c :: rest) = if isSeparator c then gapLength rest + 1 else 0 := by
  rw [gapLength.eq_def]
  split
  · rename_i heq
    cases heq
  · rename_i heq
    exact absurd (List.cons.inj heq).1 hc
  · rename_i heq
    exact absurd (List.cons.inj heq).1 hc
  · rename_i heq
    exact absurd (List.cons.inj heq).1 hc
  · rename_i heq
    obtain ⟨rfl, rfl⟩ := List.cons.inj heq
    rfl

theorem ne_backslash_of_isSeparator {c : Char} (hc : isSeparator c = true) : c ≠ '\\' := by
  rintro rfl
  exact absurd hc (by decide)

/-- What follows some blanks is no blank. -/
theorem isSeparator_of_drop_gapLength {source rest : List Char} {c : Char}
    (h : source.drop (gapLength source) = c :: rest) : isSeparator c = false := by
  fun_induction gapLength source with
  | case1 => cases h
  | case2 more ih => exact ih h
  | case3 more ih => exact ih h
  | case4 => cases h
  | case5 d more _ _ _ hseparator ih => exact ih h
  | case6 d more _ _ _ hseparator =>
    obtain ⟨rfl, -⟩ := List.cons.inj h
    simpa using hseparator

/-- Blanks reach up to the first character of a token. -/
theorem gapLength_append {gap : List Char} (hgap : gap.all isSeparator = true) {c : Char}
    (hseparator : isSeparator c = false) (hbackslash : c ≠ '\\') (rest : List Char) :
    gapLength (gap ++ c :: rest) = gap.length := by
  induction gap with
  | nil => rw [List.nil_append, gapLength_cons hbackslash, hseparator]; rfl
  | cons g gap ih =>
    rw [List.all_cons, Bool.and_eq_true] at hgap
    rw [List.cons_append, gapLength_cons (ne_backslash_of_isSeparator hgap.1), if_pos hgap.1,
      ih hgap.2, List.length_cons]

/-! ### Every lexeme of a source -/

/-- What holds of the end of a source, and of whatever is recognised behind some blanks, holds of all
    lexemes. -/
theorem forall_mem_lexemesFrom {p : Lexeme → Prop} (hfinish : ∀ gap, p ⟨gap, [], .finish⟩)
    (hone : ∀ ⦃frames c rest⦄ {source : List Char},
      source.drop (gapLengthIn frames source) = c :: rest →
      p ⟨source.take (gapLengthIn frames source), c :: rest.take (recognise frames c rest).more,
        (recognise frames c rest).token⟩)
    (frames : List Frame) (source : List Char) : ∀ l ∈ lexemesFrom frames source, p l := by
  fun_induction lexemesFrom frames source with
  | case1 frames source gap h => exact List.forall_mem_singleton.mpr (hfinish source)
  | case2 frames source gap c rest h r ih => exact List.forall_mem_cons.mpr ⟨hone h, ih⟩

/-- Whether blanks before a token belong to it: they do, outside the text of literals. -/
def Frame.isCode : List Frame → Bool
  | .text _ :: _ | .format :: _ => false
  | _ => true

theorem gapLengthIn_of_isCode {frames : List Frame} (h : Frame.isCode frames = true)
    (text : List Char) : gapLengthIn frames text = gapLength text := by
  match frames with
  | [] => rfl
  | .hole _ _ _ :: _ => rfl
  | .text _ :: _ => cases h
  | .format :: _ => cases h

/-- The tokens that are the same in interpolated code as in any other. A colon may end such code, and
    so does not count. -/
def Token.isUniform : Token → Bool
  | .word _ | .number | .string _ | .formatStart | .comment => true
  | .symbol s => s != .colon && s != .walrus
  | _ => false

/-- A token of code is recognised in the same way wherever it stands. -/
theorem recognise_eq_code {frames : List Frame} {c : Char} {rest : List Char}
    (h : (recognise frames c rest).token.isUniform = true) :
    ∃ behind, Frame.isCode behind = true ∧ recognise frames c rest =
      { recogniseCode [] c rest with frames := (recogniseCode [] c rest).frames ++ behind } := by
  match frames with
  | [] => exact ⟨[], rfl, by rw [recognise, List.append_nil]⟩
  | .hole depth lambdas spot :: outer =>
    simp only [recognise, recogniseHole] at h ⊢
    split_ifs at h ⊢
    all_goals try cases h
    exact ⟨_, rfl, rfl⟩
  | .text q :: outer =>
    simp only [recognise] at h
    split at h <;> cases h
  | .format :: outer =>
    simp only [recognise] at h
    split at h <;> cases h

/-! ### Lexemes that are cut off -/

/-- A lexeme is cut off if its token is recognised behind its blanks. -/
theorem cutsOff_singleton {gap : List Char} (hgap : gap.all isSeparator = true) {c : Char}
    (hseparator : isSeparator c = false) (hbackslash : c ≠ '\\') {text rest : List Char}
    {token : Token} (htoken : recogniseCode [] c (text ++ rest) = ⟨token, text.length, []⟩) :
    CutsOff [⟨gap, c :: text, token⟩] rest := by
  have hlength : gapLengthIn [] (gap ++ c :: (text ++ rest)) = gap.length :=
    gapLength_append hgap hseparator hbackslash _
  have hjoined : Lexeme.joined [⟨gap, c :: text, token⟩] ++ rest = gap ++ c :: (text ++ rest) := by
    simp [Lexeme.joined]
  have htake : (gap ++ c :: (text ++ rest)).take gap.length = gap := List.take_left
  have hdrop : (gap ++ c :: (text ++ rest)).drop gap.length = c :: (text ++ rest) := List.drop_left
  rw [CutsOff, hjoined, lexemesFrom]
  simp only [hlength, htake]
  split
  · rename_i heq
    rw [hlength, hdrop] at heq
    cases heq
  · rename_i d more heq
    rw [hlength, hdrop] at heq
    obtain ⟨rfl, rfl⟩ := List.cons.inj heq
    rw [recognise, htoken, List.take_left, List.drop_left]
    rfl

/-- What may stand behind a word that is written: a blank, a line end or a delimiter. -/
def endsWord (rest : List Char) : Bool :=
  rest.head?.all fun c => [' ', '\n', '(', ')', ',', ':'].contains c

theorem endsWord_head {rest : List Char} (hrest : endsWord rest = true) :
    ∀ c ∈ rest.head?, Text.isIdentContinue c = false ∧ isLiteralLetter c = false ∧
      isQuotationMark c = false := by
  intro c hc
  rw [endsWord, Option.mem_def.mp hc, Option.all_some, List.contains_iff_mem] at hrest
  have hall : ([' ', '\n', '(', ')', ',', ':'].all fun d =>
      !Text.isIdentContinue d && !isLiteralLetter d && !isQuotationMark d) = true := rfl
  have hc := List.all_eq_true.mp hall c hrest
  simpa [and_assoc] using hc

theorem isAlpha_iff {c : Char} : c.isAlpha = true ↔
    65 ≤ c.toNat ∧ c.toNat ≤ 90 ∨ 97 ≤ c.toNat ∧ c.toNat ≤ 122 := by
  have hcases : c.isAlpha =
      (decide (65 ≤ c.val ∧ c.val ≤ 90) || (decide (97 ≤ c.val) && decide (c.val ≤ 122))) := rfl
  rw [hcases]
  simp only [Bool.or_eq_true, Bool.and_eq_true, decide_eq_true_eq, UInt32.le_iff_toNat_le]
  rfl

theorem isDigit_iff {c : Char} : c.isDigit = true ↔ 48 ≤ c.toNat ∧ c.toNat ≤ 57 := by
  simp only [Char.isDigit, Bool.and_eq_true, decide_eq_true_eq, UInt32.le_iff_toNat_le, ge_iff_le]
  rfl

/-- The basic letters begin identifiers. -/
theorem withinBounds_identStart : ∀ n < 123, (65 ≤ n ∧ n ≤ 90 ∨ 97 ≤ n) →
    Text.withinBounds Text.identStartBounds n = true := by
  decide

/-- The basic letters and digits go on with identifiers. -/
theorem withinBounds_identContinue : ∀ n < 123, (48 ≤ n ∧ n ≤ 57 ∨ 65 ≤ n ∧ n ≤ 90 ∨ 97 ≤ n) →
    Text.withinBounds Text.identContinueBounds n = true := by
  decide

theorem isIdentStart_of_basic {c : Char} (hc : (c.isAlpha || c == '_') = true) :
    Text.isIdentStart c = true := by
  rw [Bool.or_eq_true, isAlpha_iff] at hc
  rw [Text.isIdentStart, Bool.or_eq_true]
  obtain hc | hc := hc
  · exact .inr (withinBounds_identStart c.toNat (by omega) (by omega))
  · exact .inl hc

theorem isIdentContinue_of_basic {c : Char} (hc : (c.isAlphanum || c == '_') = true) :
    Text.isIdentContinue c = true := by
  rw [Bool.or_eq_true, Char.isAlphanum, Bool.or_eq_true, isAlpha_iff, isDigit_iff] at hc
  rw [Text.isIdentContinue, Bool.or_eq_true]
  obtain hc | hc := hc
  · exact .inr (withinBounds_identContinue c.toNat (by omega) (by omega))
  · exact .inl hc

/-- Neither blanks, nor backslashes, nor quotation marks go on with an identifier. -/
theorem plain_of_basic {c : Char} (hc : (c.isAlphanum || c == '_') = true) :
    isSeparator c = false ∧ c ≠ '\\' ∧ isQuotationMark c = false := by
  refine ⟨?_, ?_, ?_⟩
  · rw [← Bool.not_eq_true]
    intro hseparator
    simp only [isSeparator, Bool.or_eq_true, beq_iff_eq] at hseparator
    obtain ((((((((rfl | rfl) | rfl) | rfl) | rfl) | rfl) | rfl) | rfl) | rfl) := hseparator <;>
      exact absurd hc (by decide)
  · rintro rfl
    exact absurd hc (by decide)
  · rw [← Bool.not_eq_true]
    intro hmark
    simp only [isQuotationMark, Bool.or_eq_true, beq_iff_eq] at hmark
    obtain ((rfl | rfl) | rfl) := hmark <;> exact absurd hc (by decide)

theorem drop_length_takeWhile {α : Type} (p : α → Bool) (list : List α) :
    list.drop (list.takeWhile p).length = list.dropWhile p := by
  induction list with
  | nil => rfl
  | cons a list ih =>
    cases ha : p a with
    | true =>
      rw [List.takeWhile_cons_of_pos ha, List.dropWhile_cons_of_pos ha]
      exact ih
    | false =>
      have hna : ¬ p a = true := by simp [ha]
      rw [List.takeWhile_cons_of_neg hna, List.dropWhile_cons_of_neg hna]
      rfl

/-- Letters before a text only matter if a quotation mark comes behind them. -/
theorem ofText?_eq_none {text : List Char}
    (hmark : ∀ c ∈ (text.dropWhile isLiteralLetter).head?, isQuotationMark c = false) :
    Quotation.ofText? text = none := by
  unfold Quotation.ofText?
  simp only [drop_length_takeWhile]
  split
  · rename_i mark rest heq
    rw [heq] at hmark
    rw [dif_neg (Bool.eq_false_iff.mp (hmark mark rfl))]
  · rfl

theorem head_dropWhile_append {w rest : List Char} (hw : ∀ c ∈ w, isQuotationMark c = false)
    (hrest : ∀ c ∈ rest.head?, isLiteralLetter c = false ∧ isQuotationMark c = false) :
    ∀ c ∈ ((w ++ rest).dropWhile isLiteralLetter).head?, isQuotationMark c = false := by
  induction w with
  | nil =>
    intro c hc
    cases rest with
    | nil => cases hc
    | cons d rest =>
      obtain ⟨hletter, hquotation⟩ := hrest d rfl
      rw [List.nil_append, List.dropWhile_cons_of_neg (by simp [hletter])] at hc
      cases hc
      exact hquotation
  | cons d w ih =>
    intro c hc
    obtain ⟨hd, hw⟩ := List.forall_mem_cons.mp hw
    cases hletter : isLiteralLetter d with
    | true =>
      rw [List.cons_append, List.dropWhile_cons_of_pos hletter] at hc
      exact ih hw c hc
    | false =>
      rw [List.cons_append, List.dropWhile_cons_of_neg (by simp [hletter])] at hc
      cases hc
      exact hd

theorem basic_of_isIdentifier {w : Word} (hw : isIdentifier w = true) :
    ∀ c ∈ w, (c.isAlphanum || c == '_') = true := by
  cases w with
  | nil => cases hw
  | cons c w =>
    rw [isIdentifier, Bool.and_eq_true] at hw
    refine List.forall_mem_cons.mpr ⟨?_, List.all_eq_true.mp hw.2⟩
    rw [Char.isAlphanum]
    rw [Bool.or_eq_true] at hw
    obtain hc | hc := hw.1 <;> simp [hc]

/-- A word ends in front of what may stand behind it. -/
theorem recogniseCode_word {c : Char} {w rest : List Char} (hw : isIdentifier (c :: w) = true)
    (hrest : endsWord rest = true) :
    recogniseCode [] c (w ++ rest) = ⟨.word (c :: w), w.length, []⟩ := by
  have hall := basic_of_isIdentifier hw
  rw [isIdentifier, Bool.and_eq_true] at hw
  have hends := endsWord_head hrest
  have hquotation : Quotation.ofText? (c :: (w ++ rest)) = none := by
    refine ofText?_eq_none ?_
    rw [← List.cons_append]
    exact head_dropWhile_append (fun d hd => (plain_of_basic (hall d hd)).2.2)
      fun d hd => (hends d hd).2
  have htake : (w ++ rest).takeWhile Text.isIdentContinue = w := by
    have hw : ∀ d ∈ w, Text.isIdentContinue d = true :=
      fun d hd => isIdentContinue_of_basic (hall d (List.mem_cons_of_mem c hd))
    rw [List.takeWhile_append_of_pos hw]
    cases rest with
    | nil => simp
    | cons d rest => rw [List.takeWhile_cons_of_neg (by simp [(hends d rfl).1]), List.append_nil]
  rw [recogniseCode, hquotation]
  simp only [isIdentStart_of_basic hw.1, if_true, htake]

theorem cutsOff_word {gap : List Char} (hgap : gap.all isSeparator = true) {w rest : List Char}
    (hw : isIdentifier w = true) (hrest : endsWord rest = true) :
    CutsOff [⟨gap, w, .word w⟩] rest := by
  cases w with
  | nil => cases hw
  | cons c w =>
    obtain ⟨hseparator, hbackslash, -⟩ :=
      plain_of_basic (basic_of_isIdentifier hw c List.mem_cons_self)
    exact cutsOff_singleton hgap hseparator hbackslash (recogniseCode_word hw hrest)

/-- The delimiters of an outline are cut off directly behind what they follow. -/
theorem cutsOff_leftParen (rest : List Char) :
    CutsOff [⟨[], ['('], .symbol .leftParen⟩] rest :=
  cutsOff_singleton rfl (by decide) (by decide) rfl

theorem cutsOff_rightParen (rest : List Char) :
    CutsOff [⟨[], [')'], .symbol .rightParen⟩] rest :=
  cutsOff_singleton rfl (by decide) (by decide) rfl

theorem cutsOff_comma (rest : List Char) : CutsOff [⟨[], [','], .symbol .comma⟩] rest :=
  cutsOff_singleton rfl (by decide) (by decide) rfl

theorem cutsOff_colon (rest : List Char) :
    CutsOff [⟨[], [':'], .symbol .colon⟩] ('\n' :: rest) :=
  cutsOff_singleton rfl (by decide) (by decide) rfl

end SourceSurvey.Syntax
