import SourceSurvey.Proofs.LineEnds.Numbers

/-!
Numbers before a joined line. A backslash goes on with no number, so each is recognised in the same
way when lines are joined behind it.
-/

namespace SourceSurvey.Syntax

open SourceSurvey.Text

/-- A recogniser that a backslash behind the recognised part does not go on with. -/
def Steady (f : List Char → Nat) : Prop :=
  ∀ first second rest, f (first ++ second) ≤ first.length →
    f (first ++ '\\' :: rest) = f (first ++ second)

namespace Steady

variable {f g : List Char → Nat}

/-- One recogniser after the other. -/
theorem seq (hf : Steady f) (hg : Steady g) : Steady fun text => f text + g (text.drop (f text)) := by
  intro first second rest hle
  have hfirst : f (first ++ second) ≤ first.length := Nat.le_of_add_right_le hle
  have hsame := hf first second rest hfirst
  simp only at hle ⊢
  rw [hsame, List.drop_append_of_le_length hfirst]
  rw [List.drop_append_of_le_length hfirst] at hle
  rw [hg _ second rest]
  · rw [List.drop_append_of_le_length hfirst]
  · rw [List.length_drop]
    omega

theorem const_zero : Steady fun _ => 0 := fun _ _ _ _ => rfl

/-- A first character that is no backslash decides what is recognised behind it. -/
theorem headed {p : Char → Bool} (hp : p '\\' = false) (hf : Steady f) :
    Steady fun text =>
      match text with
      | c :: rest => if p c then f rest + 1 else 0
      | [] => 0 := by
  intro first second rest hle
  cases first with
  | nil =>
    have hzero := Nat.le_zero.mp hle
    simp only [List.nil_append, hp, Bool.false_eq_true, if_false] at hzero ⊢
    exact hzero.symm
  | cons c first =>
    simp only [List.cons_append] at hle ⊢
    split
    · next hc =>
      rw [if_pos hc] at hle
      rw [hf first second rest (Nat.le_of_succ_le_succ hle)]
    · rfl

end Steady

/-- What a text does not begin with, it does not begin with before a backslash either. -/
theorem head_ne_of_backslash {first second : List Char} {d : Char} (hd : d ≠ '\\')
    (h : (first ++ second).head? ≠ some d) (rest : List Char) :
    (first ++ '\\' :: rest).head? ≠ some d := by
  cases first with
  | nil => exact fun heq => hd (Option.some.inj heq).symm
  | cons c first => exact h

theorem decimalLength_digit {c : Char} (hc : c.isDigit = true) {text : List Char}
    (htext : text.head? ≠ some '_') : decimalLength (c :: text) = decimalLength text + 1 := by
  rw [decimalLength, if_pos hc]
  rintro rest rfl
  exact htext rfl

theorem exists_cons_cons_of_le {α : Type} {list : List α} {n : Nat} (h : n + 2 ≤ list.length) :
    ∃ a b rest, list = a :: b :: rest := by
  obtain ⟨a, list, rfl⟩ := List.exists_cons_of_length_pos (Nat.lt_of_lt_of_le (by omega) h)
  obtain ⟨b, rest, rfl⟩ := List.exists_cons_of_length_pos (Nat.lt_of_succ_lt_succ
    (Nat.lt_of_lt_of_le (by omega) h))
  exact ⟨a, b, rest, rfl⟩

theorem steady_decimalLength : Steady decimalLength := by
  intro first second rest hle
  have hother : ∀ {first : List Char} {c : Char} {text : List Char}, ¬ c.isDigit = true →
      first ++ second = c :: text → decimalLength (first ++ '\\' :: rest) = 0 := by
    intro first c text hc htext
    cases first with
    | nil => exact decimalLength_of_not_isDigit (by decide) rest
    | cons d first =>
      obtain ⟨rfl, -⟩ := List.cons.inj htext
      exact decimalLength_of_not_isDigit hc _
  generalize htext : first ++ second = text at hle ⊢
  fun_induction decimalLength text generalizing first with
  | case1 c text hc ih =>
    obtain ⟨c', d, first, rfl⟩ := exists_cons_cons_of_le hle
    simp only [List.cons_append, List.cons.injEq] at htext
    obtain ⟨rfl, rfl, htext⟩ := htext
    have hle : decimalLength text ≤ first.length := by
      simp only [List.length_cons] at hle
      omega
    rw [List.cons_append, List.cons_append, decimalLength, if_pos hc, ih first htext hle]
  | case2 c text hc => exact hother hc htext
  | case3 c text hunderscore hc ih =>
    cases first with
    | nil => cases hle
    | cons c' first =>
      simp only [List.cons_append, List.cons.injEq] at htext
      obtain ⟨rfl, rfl⟩ := htext
      have hhead : (first ++ second).head? ≠ some '_' := by
        intro hhead
        obtain ⟨more, hmore⟩ := List.head?_eq_some_iff.mp hhead
        exact hunderscore more hmore
      rw [List.cons_append, decimalLength_digit hc (head_ne_of_backslash (by decide) hhead rest),
        ih first rfl (Nat.le_of_succ_le_succ hle)]
  | case4 c text hunderscore hc => exact hother hc htext
  | case5 =>
    obtain ⟨rfl, rfl⟩ := List.append_eq_nil_iff.mp htext
    exact decimalLength_of_not_isDigit (by decide) rest

theorem radixLength_digit {isDigit : Char → Bool} {c : Char} (hc : isDigit c = true)
    (hunderscore : c ≠ '_') (text : List Char) :
    radixLength isDigit (c :: text) = radixLength isDigit text + 1 := by
  rw [radixLength, if_pos hc]
  rintro d more rfl
  exact absurd rfl hunderscore

theorem steady_radixLength {isDigit : Char → Bool} (hbackslash : isDigit '\\' = false)
    (hunderscore : isDigit '_' = false) : Steady (radixLength isDigit) := by
  intro first second rest hle
  have hnone : radixLength isDigit ('\\' :: rest) = 0 :=
    radixLength_of_not (by simp [hbackslash]) (by decide) rest
  have hunder : radixLength isDigit ('_' :: '\\' :: rest) = 0 := by
    rw [radixLength, hbackslash]
    rfl
  generalize htext : first ++ second = text at hle ⊢
  fun_induction radixLength isDigit text generalizing first with
  | case1 c text hc ih =>
    obtain ⟨d, c', first, rfl⟩ := exists_cons_cons_of_le hle
    simp only [List.cons_append, List.cons.injEq] at htext
    obtain ⟨rfl, rfl, htext⟩ := htext
    have hle : radixLength isDigit text ≤ first.length := by
      simp only [List.length_cons] at hle
      omega
    rw [List.cons_append, List.cons_append, radixLength, if_pos hc, ih first htext hle]
  | case2 c text hc =>
    cases first with
    | nil => exact hnone
    | cons d first =>
      cases first with
      | nil =>
        obtain ⟨rfl, -⟩ := List.cons.inj htext
        exact hunder
      | cons c' first =>
        simp only [List.cons_append, List.cons.injEq] at htext
        obtain ⟨rfl, rfl, -⟩ := htext
        rw [List.cons_append, List.cons_append, radixLength, if_neg hc]
  | case3 c text hbegins hc ih =>
    cases first with
    | nil => cases hle
    | cons c' first =>
      obtain ⟨rfl, rfl⟩ := List.cons.inj htext
      have hc' : c' ≠ '_' := by
        rintro rfl
        rw [hunderscore] at hc
        cases hc
      rw [List.cons_append, radixLength_digit hc hc', ih first rfl (Nat.le_of_succ_le_succ hle)]
  | case4 c text hbegins hc =>
    cases first with
    | nil => exact hnone
    | cons c' first =>
      obtain ⟨rfl, rfl⟩ := List.cons.inj htext
      by_cases hc' : c' = '_'
      · subst hc'
        cases first with
        | nil => exact hunder
        | cons d first => exact absurd rfl (hbegins d _ rfl)
      · exact radixLength_of_not hc hc' _
  | case5 =>
    obtain ⟨rfl, rfl⟩ := List.append_eq_nil_iff.mp htext
    exact hnone

theorem steady_lengthOfAny {letters : List Char} (hletters : '\\' ∉ letters) :
    Steady (lengthOfAny letters) := by
  have h := Steady.headed (p := letters.contains) (by simpa using hletters) Steady.const_zero
  exact h

theorem lengthOfAny_le (letters text : List Char) : lengthOfAny letters text ≤ 1 := by
  cases text with
  | nil => exact Nat.zero_le 1
  | cons c rest =>
    rw [lengthOfAny]
    split <;> omega

theorem steady_exponentLength : Steady exponentLength := by
  intro first second rest hle
  cases first with
  | nil => exact (Nat.le_zero.mp hle).symm
  | cons mark first =>
    simp only [List.cons_append, exponentLength, List.length_cons] at hle ⊢
    split
    · next hmark =>
      rw [if_pos hmark] at hle
      cases first with
      | nil =>
        -- the exponent has no digit before the backslash
        have hzero : decimalLength ('\\' :: rest) = 0 := decimalLength_of_not_isDigit (by decide) rest
        have hsign : lengthOfAny ['+', '-'] ('\\' :: rest) = 0 := rfl
        rw [List.nil_append, hsign, List.drop_zero, hzero, if_pos rfl]
        split at hle
        · next hdigits => exact (if_pos hdigits).symm
        · next hdigits =>
          simp only [List.length_nil] at hle
          omega
      | cons d first =>
        have hsteady : Steady (lengthOfAny ['+', '-']) := steady_lengthOfAny (by decide)
        have hone := lengthOfAny_le ['+', '-'] (d :: first ++ second)
        have hsign : lengthOfAny ['+', '-'] (d :: first ++ second) ≤ (d :: first).length :=
          Nat.le_trans hone (by simp)
        rw [hsteady _ second rest hsign]
        rw [List.drop_append_of_le_length hsign] at hle ⊢
        rw [List.drop_append_of_le_length hsign]
        rw [steady_decimalLength _ second rest]
        rw [List.length_drop]
        split at hle
        · omega
        · omega
    · rfl

theorem steady_fractionLength : Steady fractionLength :=
  (steady_decimalLength.seq steady_exponentLength).seq (steady_lengthOfAny (by decide))

theorem steady_magnitudeLength : Steady magnitudeLength := by
  have hexponent : Steady fun text =>
      exponentLength text + lengthOfAny ['j', 'J'] (text.drop (exponentLength text)) :=
    steady_exponentLength.seq (steady_lengthOfAny (by decide))
  intro first second rest hle
  have hsame : exponentLength (first ++ '\\' :: rest) = exponentLength (first ++ second) := by
    refine steady_exponentLength first second rest ?_
    rw [magnitudeLength] at hle
    split at hle
    · omega
    · omega
  simp only [magnitudeLength, hsame] at hle ⊢
  split
  · next hzero =>
    rw [if_pos hzero] at hle
    exact steady_lengthOfAny (by decide) first second rest hle
  · next hzero =>
    rw [if_neg hzero] at hle
    have h := hexponent first second rest hle
    simp only [hsame] at h
    exact h

theorem decimalTailLength_of_head {text : List Char} (h : text.head? ≠ some '.') :
    decimalTailLength text = magnitudeLength text := by
  rw [decimalTailLength]
  rintro rest rfl
  exact h rfl

theorem steady_decimalTailLength : Steady decimalTailLength := by
  intro first second rest hle
  by_cases hpoint : (first ++ second).head? = some '.'
  · cases first with
    | nil =>
      obtain ⟨more, hmore⟩ := List.head?_eq_some_iff.mp hpoint
      rw [hmore, decimalTailLength] at hle
      cases hle
    | cons c first =>
      obtain rfl : c = '.' := Option.some.inj hpoint
      rw [List.cons_append, decimalTailLength] at hle
      rw [List.cons_append, List.cons_append, decimalTailLength, decimalTailLength,
        steady_fractionLength first second rest (Nat.le_of_succ_le_succ hle)]
  · rw [decimalTailLength_of_head hpoint] at hle ⊢
    rw [decimalTailLength_of_head (head_ne_of_backslash (by decide) hpoint rest)]
    exact steady_magnitudeLength first second rest hle

theorem steady_decimalNumberLength : Steady decimalNumberLength :=
  steady_decimalLength.seq steady_decimalTailLength

theorem radixOf?_backslash {letter : Char} {isDigit : Char → Bool}
    (h : radixOf? letter = some isDigit) : isDigit '\\' = false ∧ isDigit '_' = false := by
  unfold radixOf? at h
  split at h
  · cases h
    exact ⟨rfl, rfl⟩
  · split at h
    · cases h
      exact ⟨rfl, rfl⟩
    · split at h
      · cases h
        exact ⟨rfl, rfl⟩
      · cases h

theorem numberLength_decimal {text : List Char}
    (h : ∀ letter rest, text = '0' :: letter :: rest → radixOf? letter = none) :
    numberLength text = decimalNumberLength text := by
  fun_cases numberLength text with
  | case1 letter rest isDigit hradix => rfl
  | case2 letter rest isDigit hradix =>
    rw [h letter rest rfl] at hradix
    cases hradix
  | case3 => rfl
  | case4 => rfl

theorem numberLength_based {letter : Char} {isDigit : Char → Bool}
    (h : radixOf? letter = some isDigit) (rest : List Char) :
    numberLength ('0' :: letter :: rest) =
      if radixLength isDigit rest = 0 then decimalNumberLength ('0' :: letter :: rest)
      else 2 + (radixLength isDigit rest +
        lengthOfAny ['L', 'l'] (rest.drop (radixLength isDigit rest))) := by
  simp only [numberLength, h, Nat.add_assoc]

theorem steady_numberLength : Steady numberLength := by
  intro first second rest hle
  have hdecimal := steady_decimalNumberLength first second rest
  by_cases hbased : ∃ letter isDigit more, first ++ second = '0' :: letter :: more ∧
      radixOf? letter = some isDigit ∧ 2 ≤ first.length
  · obtain ⟨letter, isDigit, more, htext, hradix, hlength⟩ := hbased
    obtain ⟨hbackslash, hunderscore⟩ := radixOf?_backslash hradix
    match first with
    | c :: d :: first =>
      simp only [List.cons_append, List.cons.injEq] at htext
      obtain ⟨rfl, rfl, rfl⟩ := htext
      simp only [List.cons_append] at hle hdecimal ⊢
      rw [numberLength_based hradix] at hle ⊢
      rw [numberLength_based hradix]
      have hdigits : radixLength isDigit (first ++ second) ≤ first.length →
          radixLength isDigit (first ++ '\\' :: rest) = radixLength isDigit (first ++ second) :=
        steady_radixLength hbackslash hunderscore first second rest
      split at hle
      · next hzero => rw [hdigits (by omega), if_pos hzero, if_pos hzero, hdecimal hle]
      · next hzero =>
        simp only [List.length_cons] at hle
        have hsuffix : Steady (lengthOfAny ['L', 'l']) := steady_lengthOfAny (by decide)
        have h := (steady_radixLength hbackslash hunderscore).seq hsuffix first second rest
        simp only [hdigits (by omega)] at h ⊢
        rw [if_neg hzero, if_neg hzero, h (by omega)]
  · -- no digits of a base are announced within the first part
    have hcut : ∀ letter more, first ++ '\\' :: rest = '0' :: letter :: more →
        radixOf? letter = none := by
      intro letter more htext
      match first with
      | [] => cases htext
      | [c] =>
        simp only [List.cons_append, List.nil_append, List.cons.injEq] at htext
        obtain ⟨-, rfl, -⟩ := htext
        rfl
      | c :: d :: first =>
        simp only [List.cons_append, List.cons.injEq] at htext
        obtain ⟨rfl, rfl, -⟩ := htext
        refine Option.eq_none_iff_forall_ne_some.mpr fun isDigit hradix => hbased ?_
        exact ⟨d, isDigit, _, rfl, hradix, by simp⟩
    have hwhole : numberLength (first ++ second) = decimalNumberLength (first ++ second) := by
      by_cases h : ∃ letter isDigit more, first ++ second = '0' :: letter :: more ∧
          radixOf? letter = some isDigit
      · obtain ⟨letter, isDigit, more, htext, hradix⟩ := h
        rw [htext, numberLength_based hradix] at hle ⊢
        split at hle
        · next hzero => rw [if_pos hzero]
        · exact absurd ⟨letter, isDigit, more, htext, hradix, by omega⟩ hbased
      · refine numberLength_decimal fun letter more htext => ?_
        refine Option.eq_none_iff_forall_ne_some.mpr fun isDigit hradix => ?_
        exact h ⟨letter, isDigit, more, htext, hradix⟩
    rw [hwhole] at hle ⊢
    rw [numberLength_decimal hcut, hdecimal hle]

end SourceSurvey.Syntax
