import Mathlib.Tactic.SplitIfs
import SourceSurvey.Proofs.Blocks.Lines
import SourceSurvey.Proofs.LineEnds.Blanks
import SourceSurvey.Proofs.LineEnds.Literals

/-!
The physical lines that tokens stand on. No token is made of blanks only, so no two tokens come first
on the same line.
-/

namespace SourceSurvey.Syntax

/-- The margin is the end of the text before a place. -/
theorem Place.margin_start_over (text : List Char) :
    (Place.start.over text).margin =
      (text.drop (Place.start.over text).marginStart).reverse := by
  induction text using List.reverseRecOn with
  | nil => rfl
  | append_singleton text c ih =>
    have hle := Place.marginStart_le text
    rw [Place.over_concat]
    simp only [Place.after]
    split
    · rw [Place.offset_start_over, List.drop_of_length_le (by simp)]
      rfl
    · rw [ih, List.drop_append_of_le_length hle, List.reverse_append]
      rfl

/-! ### Tokens are no blanks -/

theorem isSeparator_of_isQuotationMark {c : Char} (h : isQuotationMark c = true) :
    isSeparator c = false := by
  simp only [isQuotationMark, Bool.or_eq_true, beq_iff_eq] at h
  obtain (rfl | rfl) | rfl := h <;> decide

/-- A stretch of the text of a literal contains what ends it. -/
theorem exists_mem_take_of_stretch {q : Quotation} {begun : Bool} {text : List Char} {s : Stretch}
    {n : Nat} (h : q.stretch begun text = some (s, n)) :
    ∃ c ∈ text.take n, isSeparator c = false := by
  fun_induction q.stretch begun text generalizing n with
  | case1 => cases h
  | case2 => cases h
  | case3 begun c rest s m hmove =>
    cases h
    refine ⟨c, ?_, ?_⟩
    · have hstretch : q.stretch begun (c :: rest) = some (s, m) := by
        rw [Quotation.stretch, hmove]
      obtain ⟨k, rfl⟩ := Nat.exists_eq_add_of_le' (Quotation.one_le_of_stretch hstretch)
      rw [List.take_succ_cons]
      exact List.mem_cons_self
    · have hmark : c = q.mark → isSeparator c = false := fun heq =>
        isSeparator_of_isQuotationMark (heq ▸ q.isMark)
      unfold Quotation.move at hmove
      split_ifs at hmove with hzero hbrace hdouble hopen hbackslash hraw hletter hquote htriple hlast
      · rw [hopen]
        decide
      · exact hmark hquote
      · exact hmark hquote
  | case4 begun c rest begun' more hmove ih =>
    obtain ⟨⟨s', m⟩, hrest, heq⟩ := Option.map_eq_some_iff.mp h
    cases heq
    obtain ⟨x, hx, hseparator⟩ := ih hrest
    refine ⟨x, ?_, hseparator⟩
    have horder : m + 1 + more = more + 1 + m := by omega
    rw [horder, List.take_add, List.drop_succ_cons]
    exact List.mem_append_right _ hx

theorem exists_mem_of_stretch {q : Quotation} {begun : Bool} {c : Char} {rest : List Char}
    {s : Stretch} {n : Nat} (h : q.stretch begun (c :: rest) = some (s, n)) :
    ∃ x ∈ c :: rest.take (n - 1), isSeparator x = false := by
  have hone := Quotation.one_le_of_stretch h
  have hinside := exists_mem_take_of_stretch h
  rwa [← Nat.sub_add_cancel hone, List.take_succ_cons] at hinside

/-- The format of an interpolated value is read up to a brace. -/
theorem exists_mem_of_format {text : List Char} {b : Char}
    (h : (text.drop (text.takeWhile isFormatChar).length).head? = some b)
    (hb : isSeparator b = false) :
    ∃ x ∈ text.take ((text.takeWhile isFormatChar).length + 1), isSeparator x = false := by
  refine ⟨b, ?_, hb⟩
  rw [List.head?_drop] at h
  rw [List.take_add_one, h]
  exact List.mem_append_right _ List.mem_cons_self

/-- A token that is cut off behind blanks is not made of blanks only. -/
theorem exists_mem_of_recognise {frames : List Frame} {source rest : List Char} {c : Char}
    (h : source.drop (gapLengthIn frames source) = c :: rest)
    (hvalid : (recognise frames c rest).token ≠ .invalid) :
    ∃ x ∈ c :: rest.take (recognise frames c rest).more, isSeparator x = false := by
  match frames with
  | [] => exact ⟨c, List.mem_cons_self, isSeparator_of_drop_gapLength h⟩
  | .hole depth lambdas spot :: outer =>
    exact ⟨c, List.mem_cons_self, isSeparator_of_drop_gapLength h⟩
  | .text q :: outer =>
    simp only [recognise] at hvalid ⊢
    split
    · next n hstretch => exact exists_mem_of_stretch hstretch
    · next n hstretch => exact exists_mem_of_stretch hstretch
    · next hstretch =>
      rw [hstretch] at hvalid
      exact absurd rfl hvalid
  | .format :: outer =>
    simp only [recognise] at hvalid ⊢
    split
    · next hbrace => exact exists_mem_of_format hbrace rfl
    · next hbrace => exact exists_mem_of_format hbrace rfl
    · next hopen hclose =>
      split at hvalid
      · next hbrace => exact absurd hbrace hopen
      · next hbrace => exact absurd hbrace hclose
      · exact absurd rfl hvalid

/-- Every token of a source but its end is more than blanks. -/
theorem exists_mem_text {frames : List Frame} {source : List Char} :
    ∀ l ∈ lexemesFrom frames source, l.token ≠ .finish → l.token ≠ .invalid →
      ∃ c ∈ l.text, isSeparator c = false :=
  forall_mem_lexemesFrom (fun _ hfinish => absurd rfl hfinish)
    (fun _ _ _ _ h _ hvalid => exists_mem_of_recognise h hvalid) frames source

/-! ### First tokens of lines -/

/-- A token stands behind all tokens before it and its own blanks. -/
theorem placeAt_placesOf {lexemes : List Lexeme} {t : Nat} {l : Lexeme} (hl : lexemes[t]? = some l) :
    placeAt (placesOf lexemes) t =
      (Place.start.over (Lexeme.joined (lexemes.take t))).over l.gap := by
  obtain ⟨before, after, rfl, rfl⟩ := exists_append_of_getElem? hl
  rw [placeAt, getElem?_placesOf, Option.getD_some, List.take_left]

/-- What comes before a token contains the text of every token before it. -/
theorem joined_take_of_lt {lexemes : List Lexeme} {t u : Nat} {k : Lexeme}
    (hk : lexemes[u]? = some k) (hu : u < t) :
    ∃ rest, Lexeme.joined (lexemes.take t) =
      Lexeme.joined (lexemes.take u) ++ k.gap ++ (k.text ++ rest) := by
  have hfound : (lexemes.take t)[u]? = some k := by rw [List.getElem?_take_of_lt hu, hk]
  obtain ⟨before, after, hsplit, rfl⟩ := exists_append_of_getElem? hfound
  have hbefore : lexemes.take before.length = before := by
    have htake := congrArg (List.take before.length) hsplit
    rwa [List.take_left, List.take_take, Nat.min_eq_left (Nat.le_of_lt hu)] at htake
  refine ⟨Lexeme.joined after, ?_⟩
  rw [hbefore, hsplit, Lexeme.joined_append, joined_cons, List.append_assoc]

/-- A token with only blanks before it on its line is the first there. -/
theorem marginStart_ne_of_blank {source : List Char} {t u : Nat}
    (hvalid : ∀ l ∈ lexemes source, l.token ≠ .invalid) (ht : t < (lexemes source).length)
    (hmargin : (placeAt (placesOf (lexemes source)) t).margin.all isSeparator = true) (hu : u < t) :
    (placeAt (placesOf (lexemes source)) u).marginStart ≠
      (placeAt (placesOf (lexemes source)) t).marginStart := by
  intro hsame
  have hl := List.getElem?_eq_getElem ht
  have hk := List.getElem?_eq_getElem (Nat.lt_trans hu ht)
  generalize (lexemes source)[t] = l at hl
  generalize (lexemes source)[u] = k at hk
  have hfinish : k.token ≠ .finish := by
    intro hfinish
    have hcount : u + 1 = (lexemes source).length := eq_length_of_finish hk hfinish
    omega
  have hmem := List.mem_of_getElem? hk
  obtain ⟨c, hc, hseparator⟩ := exists_mem_text k hmem hfinish (hvalid k hmem)
  -- the text of the earlier token lies in the margin of the later one
  obtain ⟨rest, hbefore⟩ := joined_take_of_lt hk hu
  have hle := Place.marginStart_le (Lexeme.joined ((lexemes source).take u) ++ k.gap)
  rw [Place.over_append, ← placeAt_placesOf hk, hsame] at hle
  have hwhole := placeAt_placesOf hl
  rw [← Place.over_append, hbefore, List.append_assoc _ _ l.gap] at hwhole
  have hinside : c ∈ (placeAt (placesOf (lexemes source)) t).margin := by
    rw [hwhole, Place.margin_start_over, ← hwhole, List.mem_reverse,
      List.drop_append_of_le_length hle]
    exact List.mem_append_right _ (List.mem_append_left _ (List.mem_append_left _ hc))
  have hblank := List.all_eq_true.mp hmargin c hinside
  rw [hseparator] at hblank
  cases hblank

end SourceSurvey.Syntax
