import Mathlib.Data.List.Basic
import SourceSurvey.Proofs.LineEnds.Lexemes
import SourceSurvey.Proofs.Splices.Tokens
import SourceSurvey.Proofs.Syntax.Places

/-!
Joining one more line between two tokens. The source is cut into the same lexemes but for the blanks
of one of them.
-/

namespace SourceSurvey.Syntax

/-! ### Blanks -/

/-- Blanks between two tokens, none of them cut in two. -/
inductive Blanks : List Char → Prop
  | nil : Blanks []
  | separator {c : Char} {rest : List Char} (hc : isSeparator c = true) (h : Blanks rest) :
    Blanks (c :: rest)
  | joined {rest : List Char} (h : Blanks rest) : Blanks ('\\' :: '\n' :: rest)
  | joinedReturn {rest : List Char} (h : Blanks rest) : Blanks ('\\' :: '\r' :: '\n' :: rest)

/-- A lexeme with one more joined line, so many characters into its blanks. -/
def Lexeme.splice (n : Nat) (l : Lexeme) : Lexeme :=
  { l with gap := l.gap.take n ++ '\\' :: '\n' :: l.gap.drop n }

theorem Blanks.gapLength {gap : List Char} (h : Blanks gap) (rest : List Char) :
    gapLength (gap ++ rest) = gap.length + gapLength rest := by
  induction h with
  | nil => exact (Nat.zero_add _).symm
  | separator hc _ ih =>
    rw [List.cons_append, gapLength_cons (ne_backslash_of_isSeparator hc), if_pos hc, ih,
      List.length_cons, Nat.add_right_comm]
  | joined _ ih =>
    rw [List.cons_append, List.cons_append, Syntax.gapLength, ih, List.length_cons, List.length_cons]
    omega
  | joinedReturn _ ih =>
    rw [List.cons_append, List.cons_append, List.cons_append, Syntax.gapLength, ih, List.length_cons,
      List.length_cons, List.length_cons]
    omega

/-- What stands before a token is blanks. -/
theorem blanks_of_drop {text rest : List Char} {c : Char}
    (h : text.drop (gapLength text) = c :: rest) : Blanks (text.take (gapLength text)) := by
  fun_induction gapLength text with
  | case1 => cases h
  | case2 text ih => exact (ih h).joined
  | case3 text ih => exact (ih h).joinedReturn
  | case4 => cases h
  | case5 d more _ _ _ hseparator ih => exact .separator hseparator (ih h)
  | case6 => exact .nil

theorem gapLength_token {c : Char} (hc : c ≠ '\\') (hseparator : isSeparator c = false)
    (rest : List Char) : gapLength (c :: rest) = 0 := by
  rw [gapLength_cons hc, hseparator]
  rfl

theorem Blanks.of_append {first second : List Char} (hfirst : Blanks first)
    (h : Blanks (first ++ second)) : Blanks second := by
  induction hfirst with
  | nil => exact h
  | @separator c rest hc _ ih =>
    generalize htext : c :: rest ++ second = text at h
    cases h with
    | nil => cases htext
    | separator _ h =>
      cases htext
      exact ih h
    | joined =>
      obtain ⟨rfl, -⟩ := List.cons.inj htext
      cases hc
    | joinedReturn =>
      obtain ⟨rfl, -⟩ := List.cons.inj htext
      cases hc
  | @joined rest _ ih =>
    generalize htext : '\\' :: '\n' :: rest ++ second = text at h
    cases h with
    | nil => cases htext
    | separator hc =>
      obtain ⟨rfl, -⟩ := List.cons.inj htext
      cases hc
    | joined h =>
      cases htext
      exact ih h
    | joinedReturn =>
      obtain ⟨hc, -⟩ := List.cons.inj (List.cons.inj htext).2
      cases hc
  | @joinedReturn rest _ ih =>
    generalize htext : '\\' :: '\r' :: '\n' :: rest ++ second = text at h
    cases h with
    | nil => cases htext
    | separator hc =>
      obtain ⟨rfl, -⟩ := List.cons.inj htext
      cases hc
    | joined =>
      obtain ⟨hc, -⟩ := List.cons.inj (List.cons.inj htext).2
      cases hc
    | joinedReturn h =>
      cases htext
      exact ih h

theorem Blanks.append {first second : List Char} (hfirst : Blanks first)
    (hsecond : Blanks second) : Blanks (first ++ second) := by
  induction hfirst with
  | nil => exact hsecond
  | separator hc _ ih => exact .separator hc ih
  | joined _ ih => exact .joined ih
  | joinedReturn _ ih => exact .joinedReturn ih

/-! ### Tokens of code -/

/-- Tokens that only code has: blanks may stand before them. -/
def Token.inCode : Token → Bool
  | .formatEnd | .holeOpen | .holeClose | .finish | .invalid => false
  | _ => true

/-- A backslash begins no token of code. -/
theorem recogniseCode_of_backslash (frames : List Frame) (rest : List Char) :
    (recogniseCode frames '\\' rest).token = .invalid := by
  have hopening : Quotation.ofText? ('\\' :: rest) = none := by
    rw [Quotation.ofText?]
    simp [isLiteralLetter, isQuotationMark]
  have hsymbol : Symbol.ofText? ('\\' :: rest) = none := by
    have hspellings : (Symbol.spellings.all fun e => !e.1.isPrefixOf ['\\']) = true := by decide
    have hheads : (Symbol.spellings.all fun e => e.1.head?.all (· != '\\')) = true := by decide
    rw [Symbol.ofText?, Option.map_eq_none_iff, List.find?_eq_none]
    rintro ⟨spelling, s⟩ hentry hbegins
    have hempty := List.all_eq_true.mp hspellings _ hentry
    have hhead := List.all_eq_true.mp hheads _ hentry
    cases spelling with
    | nil => cases hempty
    | cons d spelling =>
      simp only [List.isPrefixOf, Bool.and_eq_true, beq_iff_eq] at hbegins
      simp [hbegins.1] at hhead
  have hstart : Text.isIdentStart '\\' = false := by decide +kernel
  simp only [recogniseCode, hopening, hsymbol, hstart]
  rfl

section Frames

variable {frames : List Frame} {c : Char} {rest : List Char}

theorem gapLengthIn_of_not_isCode (h : Frame.isCode frames = false) (text : List Char) :
    gapLengthIn frames text = 0 := by
  match frames with
  | [] => cases h
  | .hole _ _ _ :: _ => cases h
  | .text _ :: _ => rfl
  | .format :: _ => rfl

/-- Inside the text of a literal there are no tokens of code. -/
theorem isCode_of_inCode (h : (recognise frames c rest).token.inCode = true) :
    Frame.isCode frames = true := by
  match frames with
  | [] => rfl
  | .hole _ _ _ :: _ => rfl
  | .text q :: _ =>
    unfold recognise at h
    simp only at h
    split at h <;> cases h
  | .format :: _ =>
    unfold recognise at h
    simp only at h
    split at h <;> cases h

/-- A token of code does not begin with a backslash. -/
theorem ne_backslash_of_recognise (hframes : Frame.isCode frames = true)
    (hvalid : (recognise frames c rest).token ≠ .invalid) : c ≠ '\\' := by
  rintro rfl
  match frames with
  | [] => exact hvalid (recogniseCode_of_backslash [] rest)
  | .hole depth lambdas spot :: _ =>
    refine hvalid ?_
    unfold recognise recogniseHole
    simp [recogniseCode_of_backslash]
  | .text _ :: _ => cases hframes
  | .format :: _ => cases hframes

/-- The blanks before a token end where it begins, whatever it is followed by. -/
theorem gapLengthIn_of_token {text : List Char}
    (h : text.drop (gapLengthIn frames text) = c :: rest)
    (hvalid : (recognise frames c rest).token ≠ .invalid) (rest' : List Char) :
    gapLengthIn frames (text.take (gapLengthIn frames text) ++ c :: rest') =
      (text.take (gapLengthIn frames text)).length := by
  cases hframes : Frame.isCode frames with
  | false => simp only [gapLengthIn_of_not_isCode hframes, List.take_zero, List.length_nil]
  | true =>
    have hc := ne_backslash_of_recognise hframes hvalid
    simp only [gapLengthIn_of_isCode hframes] at h ⊢
    have hblanks := blanks_of_drop h
    have hseparator := isSeparator_of_drop_gapLength h
    rw [hblanks.gapLength, gapLength_token hc hseparator, Nat.add_zero]

end Frames

/-! ### Cutting -/

theorem finish_of_lexemesFrom_nil (frames : List Frame) :
    lexemesFrom frames [] = [⟨[], [], .finish⟩] :=
  lexemesFrom_of_drop_nil List.drop_nil

section Splice

variable {frames : List Frame} {text rest rest' : List Char} {c : Char} {before after : List Lexeme}
  {l : Lexeme} {n : Nat}

/-- A lexeme that is not the last was recognised at its first character. -/
theorem exists_of_lexemesFrom_cons (h : lexemesFrom frames text = l :: after) :
    l.token = .finish ∧ after = [] ∨
      ∃ c rest, text.drop (gapLengthIn frames text) = c :: rest ∧
        l = ⟨text.take (gapLengthIn frames text), c :: rest.take (recognise frames c rest).more,
          (recognise frames c rest).token⟩ ∧
        lexemesFrom (recognise frames c rest).frames (rest.drop (recognise frames c rest).more) =
          after := by
  cases hdrop : text.drop (gapLengthIn frames text) with
  | nil =>
    rw [lexemesFrom_of_drop_nil hdrop] at h
    cases h
    exact .inl ⟨rfl, rfl⟩
  | cons c rest =>
    rw [lexemesFrom_of_drop hdrop] at h
    cases h
    exact .inr ⟨c, rest, rfl, rfl, rfl⟩

/-- A token is cut off as it was where it is recognised as it was. -/
theorem lexemesFrom_of_recognise (h : text.drop (gapLengthIn frames text) = c :: rest)
    (hvalid : (recognise frames c rest).token ≠ .invalid)
    (hsame : recognise frames c rest' = recognise frames c rest) :
    lexemesFrom frames (text.take (gapLengthIn frames text) ++ c :: rest') =
      ⟨text.take (gapLengthIn frames text), c :: rest'.take (recognise frames c rest).more,
        (recognise frames c rest).token⟩ ::
        lexemesFrom (recognise frames c rest).frames
          (rest'.drop (recognise frames c rest).more) := by
  have hlength := gapLengthIn_of_token h hvalid rest'
  rw [lexemesFrom_of_drop (by rw [hlength, List.drop_left]), hlength, List.take_left, hsame]

/-- A lexeme with one more joined line before it is cut off as it was. -/
theorem lexemesFrom_splice_head (hcut : lexemesFrom frames text = l :: after)
    (hcode : l.token.inCode = true) (hgap : Blanks (l.gap.take n)) :
    lexemesFrom frames (Lexeme.joined (l.splice n :: after)) = l.splice n :: after := by
  obtain ⟨hfinish, -⟩ | ⟨c, rest, hdrop, rfl, rfl⟩ := exists_of_lexemesFrom_cons hcut
  · rw [hfinish] at hcode
    cases hcode
  have hframes := isCode_of_inCode hcode
  have hvalid : (recognise frames c rest).token ≠ .invalid := fun h => by
    rw [Lexeme.token, h] at hcode
    cases hcode
  have hc := ne_backslash_of_recognise hframes hvalid
  simp only [gapLengthIn_of_isCode hframes] at hdrop hgap ⊢
  have hblanks := blanks_of_drop hdrop
  have hseparator := isSeparator_of_drop_gapLength hdrop
  generalize text.take (gapLength text) = gap at hgap hblanks ⊢
  have hbehind : Blanks (gap.drop n) := hgap.of_append (by rwa [List.take_append_drop])
  have hwhole : Blanks (gap.take n ++ '\\' :: '\n' :: gap.drop n) := hgap.append hbehind.joined
  have hlength : gapLengthIn frames ((gap.take n ++ '\\' :: '\n' :: gap.drop n) ++ c :: rest) =
      (gap.take n ++ '\\' :: '\n' :: gap.drop n).length := by
    rw [gapLengthIn_of_isCode hframes, hwhole.gapLength, gapLength_token hc hseparator,
      Nat.add_zero]
  rw [joined_cons, joined_lexemesFrom, Lexeme.splice, List.cons_append, List.take_append_drop,
    lexemesFrom_of_drop (by rw [hlength, List.drop_left]), hlength, List.take_left]

/-- The text of a lexeme with one more joined line before it, and of those around it. -/
theorem joined_splice (before after : List Lexeme) (l : Lexeme) (n : Nat) :
    Lexeme.joined (before ++ l.splice n :: after) =
      (Lexeme.joined before ++ l.gap.take n) ++
        '\\' :: '\n' :: (l.gap.drop n ++ (l.text ++ Lexeme.joined after)) := by
  simp [Lexeme.joined_append, Lexeme.splice]

theorem joined_parted (before after : List Lexeme) (l : Lexeme) (n : Nat) :
    Lexeme.joined (before ++ l :: after) =
      (Lexeme.joined before ++ l.gap.take n) ++
        (l.gap.drop n ++ (l.text ++ Lexeme.joined after)) := by
  have hgap : l.gap.take n ++ (l.gap.drop n ++ (l.text ++ Lexeme.joined after)) =
      l.gap ++ (l.text ++ Lexeme.joined after) := by
    rw [← List.append_assoc, List.take_append_drop]
  rw [List.append_assoc, hgap, Lexeme.joined_append, joined_cons]

/-- What is recognised before other lexemes has text. -/
theorem joined_ne_nil_of_lexemesFrom (hcut : lexemesFrom frames text = before ++ l :: after)
    (hbefore : before ≠ []) : Lexeme.joined before ≠ [] := by
  obtain ⟨b, before, rfl⟩ := List.exists_cons_of_ne_nil hbefore
  obtain ⟨-, hnil⟩ | ⟨c, rest, -, rfl, -⟩ := exists_of_lexemesFrom_cons hcut
  · exact absurd hnil (by simp)
  · simp

/-- What is recognised does not reach over a joined line that is put somewhere behind it, unless it is
    a comment that the line goes on with or the line stands directly behind an opening brace. -/
theorem recognise_splice {c : Char} {rest : List Char}
    (hmore : lexemesFrom (recognise frames c rest).frames
      (rest.drop (recognise frames c rest).more) = before ++ l :: after)
    (hvalid : (recognise frames c rest).token ≠ .invalid) (hcode : l.token.inCode = true)
    (hcomment : (recognise frames c rest).token = .comment →
      Lexeme.joined before ++ l.gap.take n ≠ [])
    (hlast : (c :: (rest.take (recognise frames c rest).more ++
      (Lexeme.joined before ++ l.gap.take n))).getLast? ≠ some '\x7b') :
    (rest.take (recognise frames c rest).more).length = (recognise frames c rest).more ∧
      recognise frames c (rest.take (recognise frames c rest).more ++
        Lexeme.joined (before ++ l.splice n :: after)) = recognise frames c rest := by
  let u := rest.take (recognise frames c rest).more
  let first := u ++ (Lexeme.joined before ++ l.gap.take n)
  let second := l.gap.drop n ++ (l.text ++ Lexeme.joined after)
  have hu : u.length = (recognise frames c rest).more := by
    have hlt : (recognise frames c rest).more < rest.length := by
      by_contra hge
      rw [List.drop_eq_nil_of_le (Nat.le_of_not_lt hge), finish_of_lexemesFrom_nil] at hmore
      obtain ⟨rfl, rfl, rfl⟩ : before = [] ∧ l = ⟨[], [], .finish⟩ ∧ after = [] := by
        simpa [List.append_eq_singleton_iff] using hmore.symm
      cases hcode
    rw [List.length_take, Nat.min_eq_left hlt.le]
  have hrest : rest = first ++ second := by
    have hbehind : rest.drop (recognise frames c rest).more =
        Lexeme.joined before ++ l.gap.take n ++ second := by
      rw [← joined_parted, ← hmore, joined_lexemesFrom]
    rw [List.append_assoc, ← hbehind, List.take_append_drop]
  have hlength : first.length = (recognise frames c rest).more +
      (Lexeme.joined before ++ l.gap.take n).length := by
    rw [List.length_append, hu]
  have hsplice : u ++ Lexeme.joined (before ++ l.splice n :: after) =
      first ++ '\\' :: '\n' :: second := by
    rw [joined_splice, ← List.append_assoc]
  refine ⟨hu, ?_⟩
  change recognise frames c (u ++ _) = _
  rw [hsplice]
  rw [hrest] at hvalid hlength hcomment ⊢
  refine recognise_backslash hlast hvalid (by omega) fun htoken => ?_
  have hpos := List.length_pos_iff.mpr (hcomment htoken)
  omega

/-- One more joined line between two tokens leaves all others as they were, unless it goes on with a
    comment or stands directly behind an opening brace. -/
theorem lexemesFrom_splice (hcut : lexemesFrom frames text = before ++ l :: after)
    (hvalid : ∀ b ∈ before, b.token ≠ .invalid) (hcode : l.token.inCode = true)
    (hgap : Blanks (l.gap.take n))
    (hcomment : l.gap.take n = [] → ∀ b ∈ before.getLast?, b.token ≠ .comment)
    (hlast : (Lexeme.joined before ++ l.gap.take n).getLast? ≠ some '\x7b') :
    lexemesFrom frames (Lexeme.joined (before ++ l.splice n :: after)) =
      before ++ l.splice n :: after := by
  induction before generalizing frames text with
  | nil => exact lexemesFrom_splice_head hcut hcode hgap
  | cons b before ih =>
    obtain ⟨-, hnil⟩ | ⟨c, rest, hdrop, rfl, hmore⟩ := exists_of_lexemesFrom_cons hcut
    · exact absurd hnil (by simp)
    replace hmore : lexemesFrom (recognise frames c rest).frames
        (rest.drop (recognise frames c rest).more) = before ++ l :: after := hmore
    obtain ⟨hvalidb, hvalid⟩ := List.forall_mem_cons.mp hvalid
    have hbetween : (recognise frames c rest).token = .comment →
        Lexeme.joined before ++ l.gap.take n ≠ [] := by
      intro htoken hempty
      obtain ⟨hbefore, htake⟩ := List.append_eq_nil_iff.mp hempty
      by_cases hnil : before = []
      · subst hnil
        exact hcomment htake _ rfl htoken
      · exact joined_ne_nil_of_lexemesFrom hmore hnil hbefore
    obtain ⟨hu, hsame⟩ := recognise_splice hmore hvalidb hcode hbetween (by simpa using hlast)
    have hcomments : l.gap.take n = [] → ∀ b ∈ before.getLast?, b.token ≠ .comment :=
      fun htake b hb => hcomment htake b (List.mem_getLast?_cons hb)
    have hlasts : (Lexeme.joined before ++ l.gap.take n).getLast? ≠ some '\x7b' := by
      intro h
      rw [joined_cons, List.append_assoc, List.append_assoc, List.getLast?_append,
        List.getLast?_append, h] at hlast
      exact hlast rfl
    have htext := lexemesFrom_of_recognise hdrop hvalidb hsame
    rw [List.take_left' hu, List.drop_left' hu, ih hmore hvalid hcomments hlasts] at htext
    simpa using htext

end Splice

end SourceSurvey.Syntax
