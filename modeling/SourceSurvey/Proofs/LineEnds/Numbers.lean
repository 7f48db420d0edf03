import SourceSurvey.Proofs.LineEnds.Text
import SourceSurvey.Proofs.Syntax.Lexing

/-!
Numbers in a text and in the same text with its line ends written in the other way. A number stays
within a line, so it is as long in both texts.
-/

namespace SourceSurvey.Syntax

open SourceSurvey.Text

/-- A recogniser that stays within a line, whatever way the line ends are written. -/
structure WithinLine (f : List Char → Nat) : Prop where
  crlf : ∀ text : List Char, f (Text.crlf text) = f text
  line : ∀ text : List Char, '\n' ∉ text.take (f text)

namespace WithinLine

variable {f g : List Char → Nat}

/-- What follows the recognised part follows it in both texts. -/
theorem drop (hf : WithinLine f) (text : List Char) :
    (Text.crlf text).drop (f text) = Text.crlf (text.drop (f text)) :=
  drop_crlf_of_line text (hf.line text)

theorem const_zero : WithinLine fun _ => 0 := ⟨fun _ => rfl, fun _ => by simp⟩

/-- One recogniser after the other. -/
theorem seq (hf : WithinLine f) (hg : WithinLine g) :
    WithinLine fun text => f text + g (text.drop (f text)) where
  crlf text := by
    rw [hf.crlf, hf.drop, hg.crlf]
  line text := by
    rw [List.take_add, List.mem_append, not_or]
    exact ⟨hf.line text, hg.line _⟩

/-- A first character that ends no line decides what is recognised behind it. -/
theorem headed {p : Char → Bool} (hfeed : p '\n' = false) (hreturn : p '\r' = false)
    (hf : WithinLine f) :
    WithinLine fun text =>
      match text with
      | c :: rest => if p c then f rest + 1 else 0
      | [] => 0 where
  crlf text := by
    cases text with
    | nil => rfl
    | cons c rest =>
      by_cases hc : c = '\n'
      · subst hc
        simp only [crlf_lineFeed, hfeed, hreturn, Bool.false_eq_true, if_false]
      · simp only [crlf_cons hc, hf.crlf]
  line text := by
    cases text with
    | nil => simp
    | cons c rest =>
      by_cases hp : p c = true
      · have hc : '\n' ≠ c := by
          rintro rfl
          rw [hfeed] at hp
          cases hp
        simp only [hp, if_true, List.take_succ_cons]
        exact List.not_mem_cons_of_ne_of_not_mem hc (hf.line rest)
      · simp [hp]

/-- One recogniser or the other, which does not depend on the line ends either. -/
theorem ite {test : List Char → Prop} [DecidablePred test]
    (htest : ∀ text, test (Text.crlf text) ↔ test text) (hf : WithinLine f) (hg : WithinLine g) :
    WithinLine fun text => if test text then f text else g text where
  crlf text := by simp only [htest, hf.crlf, hg.crlf]
  line text := by
    by_cases h : test text
    · simp only [h, if_true]
      exact hf.line text
    · simp only [h, if_false]
      exact hg.line text

end WithinLine

theorem ne_of_isDigit {c : Char} (hc : c.isDigit = true) : c ≠ '\n' := by
  rintro rfl
  cases hc

theorem decimalLength_of_not_isDigit {c : Char} (hc : ¬ c.isDigit = true) (rest : List Char) :
    decimalLength (c :: rest) = 0 := by
  rw [decimalLength.eq_def]
  split <;> simp_all

theorem radixLength_of_not {isDigit : Char → Bool} {c : Char} (hc : ¬ isDigit c = true)
    (hunderscore : c ≠ '_') (rest : List Char) : radixLength isDigit (c :: rest) = 0 := by
  rw [radixLength.eq_def]
  split <;> simp_all

theorem withinLine_decimalLength : WithinLine decimalLength where
  crlf text := by
    have hother : ∀ c rest, ¬ c.isDigit = true →
        decimalLength (crlf (c :: rest)) = decimalLength (c :: rest) := by
      intro c rest hc
      rw [decimalLength_of_not_isDigit hc]
      by_cases hfeed : c = '\n'
      · subst hfeed
        rfl
      · rw [crlf_cons hfeed, decimalLength_of_not_isDigit hc]
    fun_induction decimalLength text with
    | case1 c rest hc ih =>
      rw [crlf_cons (ne_of_isDigit hc), crlf_cons (by decide), decimalLength, if_pos hc, ih]
    | case2 c rest hc => rw [hother c _ hc, decimalLength_of_not_isDigit hc]
    | case3 c rest hunderscore hc ih =>
      rw [crlf_cons (ne_of_isDigit hc), decimalLength, if_pos hc, ih]
      exact crlf_ne_cons (by decide) hunderscore
    | case4 c rest hunderscore hc => rw [hother c _ hc, decimalLength_of_not_isDigit hc]
    | case5 => rfl
  line text := by
    fun_induction decimalLength text with
    | case1 c rest hc ih => simp [ih, Ne.symm (ne_of_isDigit hc)]
    | case3 c rest hunderscore hc ih => simp [ih, Ne.symm (ne_of_isDigit hc)]
    | _ => simp

theorem withinLine_radixLength {isDigit : Char → Bool} (hfeed : isDigit '\n' = false)
    (hreturn : isDigit '\r' = false) : WithinLine (radixLength isDigit) where
  crlf text := by
    have hdigit : ∀ c, isDigit c = true → c ≠ '\n' := by
      rintro c hc rfl
      rw [hfeed] at hc
      cases hc
    have hbehind : ∀ (c : Char) (rest : List Char),
        (∀ d more, c = '_' → rest = d :: more → False) →
        ∀ d more, c = '_' → crlf rest = d :: more → False := by
      intro c rest hnone d more hc hrest
      cases rest with
      | nil => cases hrest
      | cons e rest => exact hnone e rest hc rfl
    fun_induction radixLength isDigit text with
    | case1 c rest hc ih =>
      rw [crlf_cons (by decide), crlf_cons (hdigit c hc), radixLength, if_pos hc, ih]
    | case2 c rest hc =>
      rw [crlf_cons (by decide)]
      by_cases hline : c = '\n'
      · subst hline
        rw [crlf_lineFeed, radixLength, hreturn]
        rfl
      · rw [crlf_cons hline, radixLength, if_neg hc]
    | case3 c rest hunderscore hc ih =>
      rw [crlf_cons (hdigit c hc), radixLength, if_pos hc, ih]
      exact hbehind c rest hunderscore
    | case4 c rest hunderscore hc =>
      by_cases hline : c = '\n'
      · subst hline
        exact radixLength_of_not (by simp [hreturn]) (by decide) _
      · rw [crlf_cons hline, radixLength, if_neg hc]
        exact hbehind c rest hunderscore
    | case5 => rfl
  line text := by
    have hdigit : ∀ c, isDigit c = true → '\n' ≠ c := by
      rintro c hc rfl
      rw [hfeed] at hc
      cases hc
    fun_induction radixLength isDigit text with
    | case1 c rest hc ih => simp [ih, hdigit c hc]
    | case3 c rest hunderscore hc ih => simp [ih, hdigit c hc]
    | _ => simp

theorem withinLine_lengthOfAny (letters : List Char) (hfeed : '\n' ∉ letters)
    (hreturn : '\r' ∉ letters) : WithinLine (lengthOfAny letters) := by
  have h := WithinLine.headed (p := letters.contains) (by simpa using hfeed) (by simpa using hreturn)
    WithinLine.const_zero
  exact h

theorem withinLine_exponentLength : WithinLine exponentLength := by
  have hsign : WithinLine (lengthOfAny ['+', '-']) :=
    withinLine_lengthOfAny _ (by decide) (by decide)
  constructor
  · intro text
    cases text with
    | nil => rfl
    | cons mark rest =>
      by_cases hline : mark = '\n'
      · subst hline
        rfl
      · simp only [crlf_cons hline, exponentLength, hsign.crlf, hsign.drop,
          withinLine_decimalLength.crlf]
  · intro text
    cases text with
    | nil => simp
    | cons mark rest =>
      rw [exponentLength]
      split
      · next hmark =>
        have hline : '\n' ≠ mark := by
          rintro rfl
          cases hmark
        have hdigits := (hsign.seq withinLine_decimalLength).line rest
        simp only
        split
        · simp
        · exact List.not_mem_cons_of_ne_of_not_mem hline hdigits
      · simp

theorem withinLine_fractionLength : WithinLine fractionLength :=
  (withinLine_decimalLength.seq withinLine_exponentLength).seq
    (withinLine_lengthOfAny _ (by decide) (by decide))

theorem withinLine_magnitudeLength : WithinLine magnitudeLength := by
  have hexponent := withinLine_exponentLength.seq
    (withinLine_lengthOfAny ['j', 'J'] (by decide) (by decide))
  refine .ite (fun text => ?_) (withinLine_lengthOfAny _ (by decide) (by decide)) hexponent
  rw [withinLine_exponentLength.crlf]

theorem withinLine_decimalTailLength : WithinLine decimalTailLength where
  crlf text := by
    fun_cases decimalTailLength text with
    | case1 rest =>
      rw [crlf_cons (by decide), decimalTailLength, withinLine_fractionLength.crlf]
    | case2 text hpoint =>
      rw [decimalTailLength, withinLine_magnitudeLength.crlf]
      exact crlf_ne_cons (by decide) hpoint
  line text := by
    fun_cases decimalTailLength text with
    | case1 rest =>
      exact List.not_mem_cons_of_ne_of_not_mem (by decide) (withinLine_fractionLength.line rest)
    | case2 => exact withinLine_magnitudeLength.line text

theorem withinLine_decimalNumberLength : WithinLine decimalNumberLength :=
  withinLine_decimalLength.seq withinLine_decimalTailLength

/-- No kind of digits has a line end among them. -/
theorem radixOf?_lineEnd {letter : Char} {isDigit : Char → Bool}
    (h : radixOf? letter = some isDigit) :
    letter ≠ '\n' ∧ isDigit '\n' = false ∧ isDigit '\r' = false := by
  have hletter : letter ≠ '\n' := by
    rintro rfl
    cases h
  refine ⟨hletter, ?_⟩
  unfold radixOf? at h
  split at h
  · cases h
    exact ⟨rfl, rfl⟩
  · split at h
    · cases h
      exact ⟨rfl, rfl⟩
    · split at h
      · cases h
        exact ⟨rfl, rfl⟩
      · cases h

/-- The digits of a number of some base, with the letter of a long number. -/
theorem withinLine_based {letter : Char} {isDigit : Char → Bool}
    (h : radixOf? letter = some isDigit) :
    WithinLine fun text =>
      radixLength isDigit text + lengthOfAny ['L', 'l'] (text.drop (radixLength isDigit text)) := by
  obtain ⟨-, hfeed, hreturn⟩ := radixOf?_lineEnd h
  exact (withinLine_radixLength hfeed hreturn).seq (withinLine_lengthOfAny _ (by decide) (by decide))

theorem withinLine_numberLength : WithinLine numberLength where
  crlf text := by
    have hdecimal := withinLine_decimalNumberLength.crlf text
    fun_cases numberLength text with
    | case1 letter rest isDigit h digits hzero =>
      obtain ⟨hletter, hfeed, hreturn⟩ := radixOf?_lineEnd h
      have hdigits := (withinLine_radixLength hfeed hreturn).crlf rest
      rw [crlf_cons (by decide), crlf_cons hletter] at hdecimal ⊢
      simp only [numberLength, h, hdigits]
      rw [if_pos hzero, hdecimal]
    | case2 letter rest isDigit h digits hzero =>
      obtain ⟨hletter, hfeed, hreturn⟩ := radixOf?_lineEnd h
      have hdigits := (withinLine_radixLength hfeed hreturn).crlf rest
      have hbased := (withinLine_based h).crlf rest
      rw [crlf_cons (by decide), crlf_cons hletter]
      simp only [numberLength, h, hdigits] at hbased ⊢
      rw [if_neg hzero, Nat.add_assoc, hbased, ← Nat.add_assoc]
    | case3 letter rest h =>
      rw [crlf_cons (by decide)] at hdecimal ⊢
      by_cases hletter : letter = '\n'
      · subst hletter
        exact hdecimal
      · rw [crlf_cons hletter] at hdecimal ⊢
        simp only [numberLength, h, hdecimal]
    | case4 text hzero =>
      rw [numberLength, hdecimal]
      intro letter rest heq
      match text with
      | [] => cases heq
      | [c] =>
        by_cases hc : c = '\n'
        · subst hc
          cases heq
        · rw [crlf_cons hc] at heq
          cases heq
      | c :: d :: more =>
        refine crlf_ne_cons (by decide) (fun more' h => ?_) (letter :: rest) heq
        cases h
        exact hzero d more rfl
  line text := by
    fun_cases numberLength text with
    | case1 letter rest isDigit h digits hzero => exact withinLine_decimalNumberLength.line _
    | case2 letter rest isDigit h digits hzero =>
      obtain ⟨hletter, -, -⟩ := radixOf?_lineEnd h
      have hbased := (withinLine_based h).line rest
      rw [Nat.add_assoc, Nat.add_comm, List.take_succ_cons, List.take_succ_cons]
      refine List.not_mem_cons_of_ne_of_not_mem (by decide) ?_
      exact List.not_mem_cons_of_ne_of_not_mem (Ne.symm hletter) hbased
    | case3 => exact withinLine_decimalNumberLength.line _
    | case4 => exact withinLine_decimalNumberLength.line _

end SourceSurvey.Syntax
