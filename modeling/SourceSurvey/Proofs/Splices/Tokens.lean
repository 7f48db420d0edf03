import SourceSurvey.Proofs.LineEnds.Lexemes
import SourceSurvey.Proofs.Splices.Literals

/-!
What is recognised before a joined line: each token in the same way as without it, unless it is a
comment that goes on there or the line is joined directly behind an opening brace.
-/

namespace SourceSurvey.Syntax

open SourceSurvey.Text

theorem takeWhile_inside {p : Char → Bool} {first second : List Char}
    (hlt : ((first ++ second).takeWhile p).length < first.length) (rest : List Char) :
    (first ++ rest).takeWhile p = (first ++ second).takeWhile p := by
  rw [List.takeWhile_append] at hlt
  split at hlt
  · rw [List.length_append] at hlt
    omega
  · next hinside => rw [List.takeWhile_append, List.takeWhile_append, if_neg hinside, if_neg hinside]

theorem takeWhile_backslash {p : Char → Bool} (hp : p '\\' = false) {first second : List Char}
    (hle : ((first ++ second).takeWhile p).length ≤ first.length) (rest : List Char) :
    (first ++ '\\' :: rest).takeWhile p = (first ++ second).takeWhile p := by
  rw [List.takeWhile_append] at hle
  rw [List.takeWhile_append, List.takeWhile_append]
  split
  · next hwhole =>
    rw [if_pos hwhole, List.length_append] at hle
    have hnone : second.takeWhile p = [] := List.eq_nil_of_length_eq_zero (by omega)
    rw [hnone, List.takeWhile_cons_of_neg (by simp [hp])]
  · rfl

theorem Symbol.ofText?_backslash {first second : List Char} {s : Symbol} {n : Nat}
    (h : Symbol.ofText? (first ++ second) = some (s, n)) (hn : n ≤ first.length)
    (rest : List Char) : Symbol.ofText? (first ++ '\\' :: rest) = some (s, n) := by
  obtain ⟨entry, hentry, heq⟩ := Option.map_eq_some_iff.mp h
  cases heq
  obtain ⟨hmem, before, after, hlist, hbefore⟩ := List.find?_eq_some_iff_append.mp hentry
  have hspelling : (Symbol.spellings.all fun e => !e.1.contains '\\') = true := by decide
  have hbegins : entry.1 <+: first := by
    refine List.prefix_of_prefix_length_le ?_ (List.prefix_append first second) hn
    exact List.isPrefixOf_iff_prefix.mp hmem
  have hfind : Symbol.spellings.find? (fun entry => entry.1.isPrefixOf (first ++ '\\' :: rest)) =
      some entry := by
    refine List.find?_eq_some_iff_append.mpr ⟨?_, before, after, hlist, fun e he => ?_⟩
    · exact List.isPrefixOf_iff_prefix.mpr (hbegins.trans (List.prefix_append _ _))
    · have hno := hbefore e he
      rw [Bool.not_eq_true', ← Bool.not_eq_true, List.isPrefixOf_iff_prefix] at hno ⊢
      refine fun hwithin => hno ?_
      have hnone := List.all_eq_true.mp hspelling e (hlist ▸ List.mem_append_left _ he)
      exact (prefix_of_backslash (by simpa using hnone) hwithin).trans (List.prefix_append _ _)
  rw [Symbol.ofText?, hfind]
  rfl

theorem one_le_decimalLength {c : Char} (hc : c.isDigit = true) (text : List Char) :
    1 ≤ decimalLength (c :: text) := by
  rw [decimalLength.eq_def]
  split <;> simp_all

/-- A point with a digit behind it is a number of more than one character. -/
theorem two_le_numberLength {text : List Char} (h : (text.headD ' ').isDigit = true) :
    2 ≤ numberLength ('.' :: text) := by
  cases text with
  | nil => cases h
  | cons d text =>
    have hdigit : 1 ≤ decimalLength (d :: text) := one_le_decimalLength h text
    have hpoint : decimalLength ('.' :: d :: text) = 0 := decimalLength_of_not_isDigit (by decide) _
    have hdecimal : ∀ letter rest, '.' :: d :: text = '0' :: letter :: rest →
        radixOf? letter = none := fun _ _ heq => absurd (List.cons.inj heq).1 (by decide)
    rw [numberLength_decimal hdecimal, decimalNumberLength]
    simp only [hpoint, List.drop_zero, decimalTailLength, fractionLength]
    omega

section Recognise

variable {frames : List Frame} {first second rest : List Char} {c : Char}

/-- A token that begins like a literal is one, up to its closing marks or to its first code. -/
theorem recogniseCode_of_ofText? {q : Quotation} {opening : Nat}
    (hopening : Quotation.ofText? (c :: rest) = some (q, opening))
    (hvalid : (recogniseCode frames c rest).token ≠ .invalid) :
    q.format = true ∧ recogniseCode frames c rest = ⟨.formatStart, opening - 1, .text q :: frames⟩ ∨
      q.format = false ∧ ∃ n, q.stretch false ((c :: rest).drop opening) = some (.closed, n) ∧
        recogniseCode frames c rest = ⟨.string (isQuotationMark c), opening - 1 + n, frames⟩ := by
  simp only [recogniseCode, hopening] at hvalid ⊢
  cases hformat : q.format with
  | true => exact .inl ⟨rfl, rfl⟩
  | false =>
    simp only [hformat, Bool.false_eq_true, if_false] at hvalid ⊢
    cases hstretch : q.stretch false ((c :: rest).drop opening) with
    | none =>
      rw [hstretch] at hvalid
      exact absurd rfl hvalid
    | some stretch =>
      rw [hstretch] at hvalid
      obtain ⟨ends, n⟩ := stretch
      cases ends with
      | closed => exact .inr ⟨trivial, n, rfl, rfl⟩
      | hole => exact absurd rfl hvalid

/-- A literal is recognised in the same way before a joined line. -/
theorem recogniseCode_backslash_literal {q : Quotation} {opening : Nat}
    (hopening : Quotation.ofText? (c :: (first ++ second)) = some (q, opening))
    (hlast : (c :: first).getLast? ≠ some '\x7b')
    (hvalid : (recogniseCode frames c (first ++ second)).token ≠ .invalid)
    (hmore : (recogniseCode frames c (first ++ second)).more ≤ first.length) :
    recogniseCode frames c (first ++ '\\' :: '\n' :: second) =
      recogniseCode frames c (first ++ second) := by
  have hone := (Quotation.opening_spec hopening).1
  have hopens : opening ≤ (c :: first).length →
      Quotation.ofText? (c :: (first ++ '\\' :: '\n' :: second)) = some (q, opening) := by
    intro hle
    have hsteady : Quotation.ofText? (c :: first ++ '\\' :: '\n' :: second) =
        Quotation.ofText? (c :: first ++ second) := by
      refine Quotation.ofText?_backslash (fun q' opening' h => ?_) _
      cases hopening.symm.trans h
      exact hle
    exact hsteady.trans hopening
  obtain ⟨hformat, hread⟩ | ⟨hformat, n, hstretch, hread⟩ :=
    recogniseCode_of_ofText? hopening hvalid
  · rw [hread] at hmore ⊢
    have hle : opening ≤ (c :: first).length := by
      simp only [List.length_cons] at hmore ⊢
      omega
    simp only [recogniseCode, hopens hle, hformat, if_true]
  · rw [hread] at hmore ⊢
    have hle : opening + n ≤ (c :: first).length := by
      simp only [List.length_cons] at hmore ⊢
      omega
    have hdrop : ∀ text, (c :: (first ++ text)).drop opening = (c :: first).drop opening ++ text :=
      fun _ => List.drop_append_of_le_length (Nat.le_of_add_right_le hle)
    rw [hdrop] at hstretch
    have hsame := Quotation.stretch_backslash (Quotation.getLast?_ne_of_drop hlast opening) hstretch
      (by rw [List.length_drop]; omega)
    simp only [recogniseCode, hopens (Nat.le_of_add_right_le hle), hformat, hdrop, hsame,
      Bool.false_eq_true, if_false]

/-- A test of the next character comes out the same before a backslash that fails it, unless nothing
    stands between. -/
theorem headD_backslash {p : Char → Bool} {test : Bool} (hp : p '\\' = false)
    (h : test = true → p (second.headD ' ') = true → first ≠ []) :
    (test && p ((first ++ '\\' :: rest).headD ' ')) = (test && p ((first ++ second).headD ' ')) := by
  cases first with
  | nil =>
    cases test with
    | false => rfl
    | true =>
      have hsecond : p (second.headD ' ') = false :=
        Bool.eq_false_iff.mpr fun hsecond => h rfl hsecond rfl
      exact hp.trans hsecond.symm
  | cons d first => rfl

/-- A token of code is recognised in the same way before a joined line, unless it is a comment that
    goes on there. -/
theorem recogniseCode_backslash (hlast : (c :: first).getLast? ≠ some '\x7b')
    (hvalid : (recogniseCode frames c (first ++ second)).token ≠ .invalid)
    (hmore : (recogniseCode frames c (first ++ second)).more ≤ first.length)
    (hcomment : (recogniseCode frames c (first ++ second)).token = .comment →
      (recogniseCode frames c (first ++ second)).more < first.length) :
    recogniseCode frames c (first ++ '\\' :: '\n' :: second) =
      recogniseCode frames c (first ++ second) := by
  cases hopening : Quotation.ofText? (c :: (first ++ second)) with
  | some found => exact recogniseCode_backslash_literal hopening hlast hvalid hmore
  | none =>
    have hnone : Quotation.ofText? (c :: (first ++ '\\' :: '\n' :: second)) = none := by
      have hsteady : Quotation.ofText? (c :: first ++ '\\' :: '\n' :: second) =
          Quotation.ofText? (c :: first ++ second) := by
        refine Quotation.ofText?_backslash (fun q opening h => ?_) _
        cases hopening.symm.trans h
      exact hsteady.trans hopening
    simp only [recogniseCode, hopening, hnone] at hvalid hmore hcomment ⊢
    have hfirst : ¬ (c.isDigit || (c == '.' && ((first ++ second).headD ' ').isDigit)) = true →
        (c == '.') = true → (second.headD ' ').isDigit = true → first ≠ [] := by
      rintro hdigit hc hhead rfl
      exact hdigit (by simp only [List.nil_append, hc, hhead, Bool.and_self, Bool.or_true])
    split_ifs at hvalid hmore hcomment with hstart hdigit hhash
    · rw [if_pos hstart, if_pos hstart, takeWhile_backslash rfl hmore]
    · have hfirst : (c == '.') = true → (second.headD ' ').isDigit = true → first ≠ [] := by
        rintro hc hhead rfl
        obtain rfl := eq_of_beq hc
        have htwo := two_le_numberLength hhead
        simp only [List.nil_append, List.length_nil] at hmore
        omega
      have hlength : numberLength (c :: first ++ second) ≤ (c :: first).length := by
        rw [List.length_cons]
        exact Nat.le_add_of_sub_le hmore
      have hsame : numberLength (c :: (first ++ '\\' :: '\n' :: second)) =
          numberLength (c :: (first ++ second)) := steady_numberLength _ _ _ hlength
      rw [if_neg hstart, if_neg hstart, headD_backslash rfl hfirst, if_pos hdigit, if_pos hdigit,
        hsame]
    · have hsame : (first ++ '\\' :: '\n' :: second).takeWhile isCommentChar =
          (first ++ second).takeWhile isCommentChar := takeWhile_inside (hcomment rfl) _
      rw [if_neg hstart, if_neg hstart, headD_backslash rfl (hfirst hdigit), if_neg hdigit,
        if_neg hdigit, if_pos hhash, if_pos hhash, hsame]
    · rw [if_neg hstart, if_neg hstart, headD_backslash rfl (hfirst hdigit), if_neg hdigit,
        if_neg hdigit, if_neg hhash, if_neg hhash]
      cases hsymbol : Symbol.ofText? (c :: (first ++ second)) with
      | none =>
        rw [hsymbol] at hvalid
        exact absurd rfl hvalid
      | some found =>
        obtain ⟨s, n⟩ := found
        rw [hsymbol] at hmore
        have hlength : n ≤ (c :: first).length := by
          rw [List.length_cons]
          exact Nat.le_add_of_sub_le hmore
        have hsame : Symbol.ofText? (c :: (first ++ '\\' :: '\n' :: second)) = some (s, n) :=
          Symbol.ofText?_backslash hsymbol hlength _
        rw [hsame]

theorem recogniseHole_backslash {depth lambdas : Nat} {spot : Spot} {outer : List Frame}
    (hlast : (c :: first).getLast? ≠ some '\x7b')
    (hvalid : (recogniseHole depth lambdas spot outer c (first ++ second)).token ≠ .invalid)
    (hmore : (recogniseHole depth lambdas spot outer c (first ++ second)).more ≤ first.length)
    (hcomment : (recogniseHole depth lambdas spot outer c (first ++ second)).token = .comment →
      (recogniseHole depth lambdas spot outer c (first ++ second)).more < first.length) :
    recogniseHole depth lambdas spot outer c (first ++ '\\' :: '\n' :: second) =
      recogniseHole depth lambdas spot outer c (first ++ second) := by
  have hequals : (first ++ second).head? ≠ some '=' →
      (first ++ '\\' :: '\n' :: second).head? ≠ some '=' :=
    fun h => head_ne_of_backslash (by decide) h _
  unfold recogniseHole at hvalid hmore hcomment ⊢
  by_cases hclose : (depth = 0 && c == '\x7d') = true
  · rw [if_pos hclose, if_pos hclose]
  rw [if_neg hclose] at hvalid hmore hcomment ⊢
  rw [if_neg hclose]
  by_cases hconversion : (depth = 0 && c == '!' && ((first ++ second).headD ' ').isLower) = true
  · rw [if_pos hconversion] at hmore
    have hfirst : (depth = 0 && c == '!') = true → (second.headD ' ').isLower = true →
        first ≠ [] := by
      rintro - - rfl
      cases hmore
    rw [headD_backslash rfl hfirst, if_pos hconversion, if_pos hconversion]
  have hfirst : (depth = 0 && c == '!') = true → (second.headD ' ').isLower = true →
      first ≠ [] := by
    rintro hmark hlower rfl
    exact hconversion (by rw [hmark, List.nil_append, hlower]; rfl)
  rw [headD_backslash rfl hfirst]
  rw [if_neg hconversion] at hvalid hmore hcomment ⊢
  rw [if_neg hconversion]
  by_cases hcolon : (depth = 0 && c == ':') = true
  · rw [if_pos hcolon] at hmore ⊢
    rw [if_pos hcolon]
    split
    · rfl
    · next hlambdas =>
      rw [if_neg hlambdas] at hmore
      by_cases hname : (spot = .name && (first ++ second).head? = some '=') = true
      · rw [if_pos hname] at hmore ⊢
        cases first with
        | nil => cases hmore
        | cons d first => rw [if_pos (by exact hname)]
      · rw [if_neg hname, if_neg]
        simp only [Bool.and_eq_true, decide_eq_true_eq, not_and] at hname ⊢
        exact fun hspot => hequals (hname hspot)
  rw [if_neg hcolon] at hvalid hmore hcomment ⊢
  rw [if_neg hcolon]
  simp only [recogniseCode_backslash hlast hvalid hmore hcomment]

/-- Text of a literal with interpolations, up to where it stops. -/
theorem recogniseText_backslash {q : Quotation} {outer : List Frame}
    (hlast : (c :: first).getLast? ≠ some '\x7b')
    (hvalid : (recognise (.text q :: outer) c (first ++ second)).token ≠ .invalid)
    (hmore : (recognise (.text q :: outer) c (first ++ second)).more ≤ first.length) :
    recognise (.text q :: outer) c (first ++ '\\' :: '\n' :: second) =
      recognise (.text q :: outer) c (first ++ second) := by
  simp only [recognise] at hvalid hmore ⊢
  cases hstretch : q.stretch false (c :: (first ++ second)) with
  | none =>
    rw [hstretch] at hvalid
    exact absurd rfl hvalid
  | some stretch =>
    obtain ⟨s, n⟩ := stretch
    have hn : n ≤ (c :: first).length := by
      rw [hstretch] at hmore
      rw [List.length_cons]
      cases s with
      | closed => exact Nat.le_add_of_sub_le hmore
      | hole => exact Nat.le_add_of_sub_le hmore
    have hsame : q.stretch false (c :: (first ++ '\\' :: '\n' :: second)) = some (s, n) :=
      Quotation.stretch_backslash hlast hstretch hn
    rw [hsame]
    cases s with
    | closed => rfl
    | hole => rfl

/-- A format stops at the brace that opens a replacement within it or closes it. -/
theorem recogniseFormat_backslash {outer : List Frame}
    (hvalid : (recognise (.format :: outer) c (first ++ second)).token ≠ .invalid)
    (hmore : (recognise (.format :: outer) c (first ++ second)).more ≤ first.length) :
    recognise (.format :: outer) c (first ++ '\\' :: '\n' :: second) =
      recognise (.format :: outer) c (first ++ second) := by
  simp only [recognise] at hvalid hmore ⊢
  have hbrace : ((c :: (first ++ second)).drop
      ((c :: (first ++ second)).takeWhile isFormatChar).length).head? = some '\x7b' ∨
      ((c :: (first ++ second)).drop
        ((c :: (first ++ second)).takeWhile isFormatChar).length).head? = some '\x7d' := by
    split at hvalid
    · next hopen => exact .inl hopen
    · next hclose => exact .inr hclose
    · exact absurd rfl hvalid
  have hlt : ((c :: first ++ second).takeWhile isFormatChar).length < (c :: first).length := by
    obtain hopen | hclose := hbrace
    · rw [hopen] at hmore
      exact Nat.lt_succ_of_le hmore
    · rw [hclose] at hmore
      exact Nat.lt_succ_of_le hmore
  have htail : (c :: first ++ '\\' :: '\n' :: second).takeWhile isFormatChar =
      (c :: first ++ second).takeWhile isFormatChar := takeWhile_inside hlt _
  have hhead : ∀ text, ((c :: (first ++ text)).drop
      ((c :: (first ++ second)).takeWhile isFormatChar).length).head? =
        (c :: first)[((c :: (first ++ second)).takeWhile isFormatChar).length]? := by
    intro text
    rw [List.head?_drop]
    exact List.getElem?_append_left hlt
  rw [hhead] at hbrace
  rw [List.cons_append, List.cons_append] at htail
  rw [htail, hhead, hhead]
  obtain hopen | hclose := hbrace
  · rw [hopen]
    rfl
  · rw [hclose]
    rfl

/-- A token is recognised in the same way before a joined line, unless it is a comment that goes on
    there or that line is joined directly behind an opening brace. -/
theorem recognise_backslash (hlast : (c :: first).getLast? ≠ some '\x7b')
    (hvalid : (recognise frames c (first ++ second)).token ≠ .invalid)
    (hmore : (recognise frames c (first ++ second)).more ≤ first.length)
    (hcomment : (recognise frames c (first ++ second)).token = .comment →
      (recognise frames c (first ++ second)).more < first.length) :
    recognise frames c (first ++ '\\' :: '\n' :: second) = recognise frames c (first ++ second) := by
  cases frames with
  | nil => exact recogniseCode_backslash hlast hvalid hmore hcomment
  | cons frame outer =>
    cases frame with
    | hole depth lambdas spot => exact recogniseHole_backslash hlast hvalid hmore hcomment
    | text q => exact recogniseText_backslash hlast hvalid hmore
    | format => exact recogniseFormat_backslash hvalid hmore

end Recognise

end SourceSurvey.Syntax
