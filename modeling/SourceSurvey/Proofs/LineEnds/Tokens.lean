import SourceSurvey.Proofs.LineEnds.Blanks
import SourceSurvey.Proofs.LineEnds.Literals
import SourceSurvey.Proofs.LineEnds.Numbers

/-!
The token that begins a text, and the one that begins the same text with its line ends written in the
other way. Unless it is a literal that is broken off it is the same token, and has the same text but
for its line ends. Only a comment takes the carriage return of the line end behind it.
-/

namespace SourceSurvey.Syntax

open SourceSurvey.Text

/-- The text of a literal without interpolations that begins a text, from behind its opening. -/
def wholeLiteral? (text : List Char) : Option (Quotation × List Char) :=
  (Quotation.ofText? text).bind fun (q, opening) =>
    if q.format then none else some (q, text.drop opening)

/-- The text of the literal that the next token reads, if it reads one: that of a whole literal, or
    that of a literal with interpolations from its opening or the last interpolation on. -/
def literalText? : List Frame → List Char → Option (Quotation × List Char)
  | .text q :: _, text => some (q, text)
  | .format :: _, _ => none
  | _, text => wholeLiteral? text

/-- Whether the literal that the next token reads spills over a line end. -/
def spillsAt (frames : List Frame) (text : List Char) : Bool :=
  (literalText? frames text).any fun (q, inside) => q.spills false inside

/-- The carriage return that a comment takes, if it does. -/
def taken (late : Bool) : List Char := if late then ['\r'] else []

/-- The same token is recognised at the beginning of a text and of the text with its line ends
    written in the other way, where it may take the first carriage return behind it. -/
structure Recognised.Same (text : List Char) (late : Bool) (r r' : Recognised) : Prop where
  token : r'.token = r.token
  frames : r'.frames = r.frames
  recognised : (crlf text).take (r'.more + 1) = crlf (text.take (r.more + 1)) ++ taken late
  behind : taken late ++ (crlf text).drop (r'.more + 1) = crlf (text.drop (r.more + 1))
  comment : late = true → r.token = .comment ∧
    ∀ source, gapLengthIn r.frames source = gapLength source

namespace Recognised

variable {text : List Char} {token : Token} {frames : List Frame} {n n' : Nat}

/-- A token that takes as much of the other text as is written there for it. -/
theorem same_of_length (h : n' + 1 = (crlf (text.take (n + 1))).length) :
    Same text false ⟨token, n, frames⟩ ⟨token, n', frames⟩ where
  token := rfl
  frames := rfl
  recognised := by
    simp only [h, take_crlf]
    exact (List.append_nil _).symm
  behind := by
    simp only [h, drop_crlf]
    rfl
  comment := nofun

/-- A token within one line. -/
theorem same_of_line (hline : '\n' ∉ text.take (n + 1)) :
    Same text false ⟨token, n, frames⟩ ⟨token, n, frames⟩ where
  token := rfl
  frames := rfl
  recognised := by
    rw [take_crlf_of_line hline, crlf_eq_self hline]
    exact (List.append_nil _).symm
  behind := drop_crlf_of_line text hline
  comment := nofun

/-- No token at all, up to the end of the source. -/
theorem same_invalid (frames : List Frame) {c c' : Char} {rest rest' : List Char}
    (htext : crlf (c :: rest) = c' :: rest') :
    Same (c :: rest) false ⟨.invalid, rest.length, frames⟩ ⟨.invalid, rest'.length, frames⟩ := by
  refine same_of_length ?_
  rw [List.take_of_length_le (by simp), htext, List.length_cons]

end Recognised

/-- What becomes of a token in the other text: no token at all if it is a literal that spills over a
    line end, and otherwise the same token. -/
def Recognised.Becomes (spills : Bool) (text : List Char) (r r' : Recognised) : Prop :=
  if spills then r'.token = .invalid else ∃ late, Same text late r r'

/-- A comment reaches up to the line feed, which ends it in both texts. -/
theorem takeWhile_crlf_comment (text : List Char) :
    (crlf text).takeWhile isCommentChar =
      text.takeWhile isCommentChar ++ taken ((text.dropWhile isCommentChar).head? == some '\n') := by
  induction text with
  | nil => rfl
  | cons c text ih =>
    by_cases hc : c = '\n'
    · subst hc
      rfl
    · rw [crlf_cons hc]
      cases hp : isCommentChar c with
      | true => simp only [List.takeWhile_cons, List.dropWhile_cons, hp, if_true, ih, List.cons_append]
      | false => simp [hp, hc, taken]

theorem find?_congr {α : Type} {p q : α → Bool} {list : List α} (h : ∀ a ∈ list, p a = q a) :
    list.find? p = list.find? q := by
  induction list with
  | nil => rfl
  | cons a list ih =>
    obtain ⟨ha, hlist⟩ := List.forall_mem_cons.mp h
    rw [List.find?_cons, List.find?_cons, ha, ih hlist]

/-- No line ends in the spelling of a symbol. -/
theorem spellings_line : ∀ entry ∈ Symbol.spellings, '\n' ∉ entry.1 ∧ '\r' ∉ entry.1 := by decide

theorem symbol_ofText?_crlf (text : List Char) :
    Symbol.ofText? (crlf text) = Symbol.ofText? text := by
  have hsame : ∀ entry ∈ Symbol.spellings,
      entry.1.isPrefixOf (crlf text) = entry.1.isPrefixOf text := by
    intro entry hentry
    obtain ⟨hfeed, hreturn⟩ := spellings_line entry hentry
    exact isPrefixOf_crlf hfeed hreturn text
  rw [Symbol.ofText?, Symbol.ofText?, find?_congr hsame]

theorem not_mem_take_symbol {text : List Char} {s : Symbol} {n : Nat}
    (htext : Symbol.ofText? text = some (s, n)) : '\n' ∉ text.take n := by
  obtain ⟨entry, hfind, heq⟩ := Option.map_eq_some_iff.mp htext
  cases heq
  have hprefix := List.find?_some hfind
  obtain ⟨more, rfl⟩ := List.isPrefixOf_iff_prefix.mp hprefix
  rw [List.take_left]
  exact (spellings_line entry (List.mem_of_find?_eq_some hfind)).1

section Code

variable {c : Char} {rest : List Char}

/-- A literal, or the opening of one with interpolations. -/
theorem recogniseCode_crlf_literal {q : Quotation} {opening : Nat} (hreturn : '\r' ∉ c :: rest)
    (hc : c ≠ '\n') (hopening : Quotation.ofText? (c :: rest) = some (q, opening)) :
    Recognised.Becomes (spillsAt [] (c :: rest)) (c :: rest) (recogniseCode [] c rest)
      (recogniseCode [] c (crlf rest)) := by
  have hopening' : Quotation.ofText? (c :: crlf rest) = some (q, opening) := by
    rw [← crlf_cons hc, Quotation.ofText?_crlf, hopening]
  obtain ⟨hone, hlength, hline⟩ := Quotation.opening_spec hopening
  have hspill : spillsAt [] (c :: rest) =
      (!q.format && q.spills false ((c :: rest).drop opening)) := by
    show (wholeLiteral? (c :: rest)).any _ = _
    rw [wholeLiteral?, hopening]
    cases hformat : q.format <;> simp [hformat]
  rw [hspill]
  cases hformat : q.format with
  | true =>
    refine ⟨false, ?_⟩
    simp only [recogniseCode, hopening, hopening', hformat, if_true]
    refine Recognised.same_of_line ?_
    rwa [Nat.sub_add_cancel hone]
  | false =>
    have hinside : '\r' ∉ (c :: rest).drop opening := fun hmem => hreturn (List.mem_of_mem_drop hmem)
    have hstretch := Quotation.stretch_crlf q false hinside
    rw [← drop_crlf_of_line _ hline, crlf_cons hc] at hstretch
    have hinvalid := Recognised.same_invalid [] (crlf_cons hc rest)
    simp only [Recognised.Becomes, recogniseCode, hopening, hopening', hformat, hstretch,
      Bool.not_false, Bool.true_and, Bool.false_eq_true, if_false]
    split
    · rfl
    · refine ⟨false, ?_⟩
      cases q.stretch false ((c :: rest).drop opening) with
      | none => exact hinvalid
      | some stretch =>
        obtain ⟨ends, n⟩ := stretch
        cases ends with
        | hole => exact hinvalid
        | closed =>
          refine Recognised.same_of_length ?_
          have hsum := length_crlf_take_add (c :: rest) opening n
          rw [crlf_eq_self hline, hlength] at hsum
          have horder : opening - 1 + n + 1 = opening + n := by omega
          rw [horder, hsum, Nat.add_right_comm, Nat.sub_add_cancel hone]

/-- A comment takes the carriage return of the line end behind it. -/
theorem same_comment (rest : List Char) (frames : List Frame)
    (hframes : ∀ source, gapLengthIn frames source = gapLength source) :
    ∃ late, Recognised.Same ('#' :: rest) late
      ⟨.comment, (rest.takeWhile isCommentChar).length, frames⟩
      ⟨.comment, ((crlf rest).takeWhile isCommentChar).length, frames⟩ := by
  let tail := rest.takeWhile isCommentChar
  let behind := rest.drop tail.length
  have hline : crlf tail = tail := crlf_eq_self (not_mem_takeWhile rfl rest)
  have htail : rest.take tail.length = tail := Quotation.take_length_takeWhile _ rest
  let late := (rest.dropWhile isCommentChar).head? == some '\n'
  have hcomment : (crlf rest).takeWhile isCommentChar = tail ++ taken late :=
    takeWhile_crlf_comment rest
  refine ⟨late, rfl, rfl, ?_, ?_, fun _ => ⟨rfl, hframes⟩⟩
  · rw [List.take_succ_cons, htail, crlf_cons (by decide), crlf_cons (by decide), hline,
      List.take_succ_cons, Quotation.take_length_takeWhile, hcomment, List.cons_append]
  · rw [List.drop_succ_cons, crlf_cons (by decide), List.drop_succ_cons]
    have hsplit : tail ++ crlf behind = crlf rest := by
      rw [← hline, ← crlf_append, ← htail, List.take_append_drop]
    refine (List.append_right_inj tail).mp ?_
    rw [hsplit, ← List.append_assoc, ← hcomment, drop_length_takeWhile,
      List.takeWhile_append_dropWhile]

/-- What is recognised is at least one character, and that ends no line. -/
theorem not_mem_take_pred (hc : c ≠ '\n') {n : Nat} (hline : '\n' ∉ (c :: rest).take n) :
    '\n' ∉ (c :: rest).take (n - 1 + 1) := by
  cases n with
  | zero => exact List.not_mem_cons_of_ne_of_not_mem (Ne.symm hc) List.not_mem_nil
  | succ n => exact hline

theorem recogniseCode_crlf (hreturn : '\r' ∉ c :: rest) (hc : c ≠ '\n') :
    Recognised.Becomes (spillsAt [] (c :: rest)) (c :: rest) (recogniseCode [] c rest)
      (recogniseCode [] c (crlf rest)) := by
  cases hopening : Quotation.ofText? (c :: rest) with
  | some found => exact recogniseCode_crlf_literal hreturn hc hopening
  | none =>
    have hopening' : Quotation.ofText? (c :: crlf rest) = none := by
      rw [← crlf_cons hc, Quotation.ofText?_crlf, hopening]
    have hspill : spillsAt [] (c :: rest) = false := by
      show (wholeLiteral? (c :: rest)).any _ = false
      rw [wholeLiteral?, hopening]
      rfl
    have hword : (crlf rest).takeWhile Text.isIdentContinue = rest.takeWhile Text.isIdentContinue :=
      takeWhile_crlf rfl rfl rest
    have hnumber : numberLength (c :: crlf rest) = numberLength (c :: rest) := by
      rw [← crlf_cons hc, withinLine_numberLength.crlf]
    have hsymbol : Symbol.ofText? (c :: crlf rest) = Symbol.ofText? (c :: rest) := by
      rw [← crlf_cons hc, symbol_ofText?_crlf]
    have hdigit : ((crlf rest).headD ' ').isDigit = (rest.headD ' ').isDigit :=
      headD_crlf rfl rfl rest
    rw [hspill]
    simp only [Recognised.Becomes, recogniseCode, hopening, hopening', hword, hnumber, hsymbol,
      hdigit, Bool.false_eq_true, if_false]
    split
    · refine ⟨false, Recognised.same_of_line ?_⟩
      rw [List.take_succ_cons, Quotation.take_length_takeWhile]
      exact List.not_mem_cons_of_ne_of_not_mem (Ne.symm hc) (not_mem_takeWhile rfl rest)
    · split
      · refine ⟨false, Recognised.same_of_line ?_⟩
        exact not_mem_take_pred hc (withinLine_numberLength.line _)
      · split
        · next hcomment =>
          cases eq_of_beq hcomment
          exact same_comment rest [] fun _ => rfl
        · cases hfound : Symbol.ofText? (c :: rest) with
          | none => exact ⟨false, Recognised.same_invalid _ (crlf_cons hc rest)⟩
          | some found =>
            refine ⟨false, Recognised.same_of_line ?_⟩
            exact not_mem_take_pred hc (not_mem_take_symbol hfound)

/-- Inside an interpolation blanks come before a token as well. -/
theorem gapLengthIn_append {frames outer : List Frame} {depth lambdas : Nat} {spot : Spot}
    (h : ∀ source, gapLengthIn frames source = gapLength source) (t : Token) (source : List Char) :
    gapLengthIn (frames ++ holeAfter depth lambdas spot t :: outer) source = gapLength source := by
  match frames with
  | [] => rfl
  | .hole _ _ _ :: _ => rfl
  | .text _ :: _ => cases h [' ']
  | .format :: _ => cases h [' ']

theorem Recognised.Becomes.inHole {spills : Bool} {text : List Char} {r r' : Recognised}
    (h : Becomes spills text r r') (depth lambdas : Nat) (spot : Spot) (outer : List Frame) :
    Becomes spills text
      { r with frames := r.frames ++ holeAfter depth lambdas spot r.token :: outer }
      { r' with frames := r'.frames ++ holeAfter depth lambdas spot r'.token :: outer } := by
  cases spills with
  | true => exact h
  | false =>
    obtain ⟨late, hsame⟩ := h
    refine ⟨late, hsame.token, ?_, hsame.recognised, hsame.behind, fun hlate => ?_⟩
    · rw [hsame.token, hsame.frames]
    · obtain ⟨hcomment, hgap⟩ := hsame.comment hlate
      exact ⟨hcomment, gapLengthIn_append hgap _⟩

theorem not_mem_take_two (hc : c ≠ '\n') (hrest : rest.head? ≠ some '\n') :
    '\n' ∉ (c :: rest).take (1 + 1) := by
  cases rest with
  | nil => simpa using Ne.symm hc
  | cons d rest =>
    have hd : '\n' ≠ d := fun h => hrest (congrArg some h.symm)
    simpa using ⟨Ne.symm hc, hd⟩

/-- The characters that mean something else in an interpolation begin no literal. -/
theorem spillsAt_eq_false (hletter : isLiteralLetter c = false) (hmark : isQuotationMark c = false)
    (rest : List Char) : spillsAt [] (c :: rest) = false := by
  have hnone : Quotation.ofText? (c :: rest) = none := by
    refine ofText?_eq_none ?_
    rw [List.dropWhile_cons_of_neg (by simp [hletter])]
    rintro d hd
    cases hd
    exact hmark
  show (wholeLiteral? (c :: rest)).any _ = false
  rw [wholeLiteral?, hnone]
  rfl

theorem recogniseHole_crlf (hreturn : '\r' ∉ c :: rest) (hc : c ≠ '\n') (depth lambdas : Nat)
    (spot : Spot) (outer : List Frame) :
    Recognised.Becomes (spillsAt [] (c :: rest)) (c :: rest)
      (recogniseHole depth lambdas spot outer c rest)
      (recogniseHole depth lambdas spot outer c (crlf rest)) := by
  have hlower : ((crlf rest).headD ' ').isLower = (rest.headD ' ').isLower :=
    headD_crlf rfl rfl rest
  have hassign : (crlf rest).head? = some '=' ↔ rest.head? = some '=' := by
    rw [head?_crlf]
    split
    · next h => simp [h]
    · rfl
  have hone : '\n' ∉ (c :: rest).take (0 + 1) := by simpa using Ne.symm hc
  have hspecial : ∀ d, c = d → isLiteralLetter d = false → isQuotationMark d = false →
      spillsAt [] (c :: rest) = false := by
    rintro d rfl hletter hmark
    exact spillsAt_eq_false hletter hmark rest
  unfold recogniseHole
  simp only [hlower, hassign]
  split_ifs with hclose hconversion hcolon hlambda hwalrus
  · simp only [Bool.and_eq_true, beq_iff_eq] at hclose
    rw [hspecial _ hclose.2 rfl rfl]
    exact ⟨false, Recognised.same_of_line hone⟩
  · simp only [Bool.and_eq_true, beq_iff_eq] at hconversion
    rw [hspecial _ hconversion.1.2 rfl rfl]
    refine ⟨false, Recognised.same_of_line (not_mem_take_two hc fun hhead => ?_)⟩
    rw [List.headD_eq_head?_getD, hhead] at hconversion
    cases hconversion.2
  · simp only [Bool.and_eq_true, beq_iff_eq] at hcolon
    rw [hspecial _ hcolon.2 rfl rfl]
    exact ⟨false, Recognised.same_of_line hone⟩
  · simp only [Bool.and_eq_true, beq_iff_eq] at hcolon
    rw [hspecial _ hcolon.2 rfl rfl]
    refine ⟨false, Recognised.same_of_line (not_mem_take_two hc fun hhead => ?_)⟩
    rw [hhead] at hwalrus
    simp at hwalrus
  · simp only [Bool.and_eq_true, beq_iff_eq] at hcolon
    rw [hspecial _ hcolon.2 rfl rfl]
    exact ⟨false, Recognised.same_of_line hone⟩
  · exact (recogniseCode_crlf hreturn hc).inHole depth lambdas spot outer

/-- The text of a literal with interpolations, up to its end or the next of them. -/
theorem recogniseText_crlf {c' : Char} {rest' : List Char} {q : Quotation} (outer : List Frame)
    (hreturn : '\r' ∉ c :: rest) (htext : crlf (c :: rest) = c' :: rest') :
    Recognised.Becomes (q.spills false (c :: rest)) (c :: rest)
      (recognise (.text q :: outer) c rest) (recognise (.text q :: outer) c' rest') := by
  have hstretch := Quotation.stretch_crlf q false hreturn
  have hinvalid := Recognised.same_invalid [] htext
  have hlength : ∀ {s n}, q.stretch false (c :: rest) = some (s, n) →
      (crlf ((c :: rest).take n)).length - 1 + 1 =
        (crlf ((c :: rest).take (n - 1 + 1))).length := by
    intro s n hfound
    obtain ⟨m, rfl⟩ := Nat.exists_eq_add_of_le' (Quotation.one_le_of_stretch hfound)
    rw [Nat.add_sub_cancel, Nat.sub_add_cancel]
    rw [length_crlf, List.take_succ_cons, List.length_cons]
    omega
  rw [htext] at hstretch
  simp only [Recognised.Becomes, recognise, hstretch]
  split
  · rfl
  · refine ⟨false, ?_⟩
    cases hfound : q.stretch false (c :: rest) with
    | none => exact hinvalid
    | some stretch =>
      obtain ⟨ends, n⟩ := stretch
      cases ends with
      | hole => exact Recognised.same_of_length (hlength hfound)
      | closed => exact Recognised.same_of_length (hlength hfound)

/-- The format of an interpolated value, up to its end or an interpolation in it. -/
theorem recogniseFormat_crlf {c' : Char} {rest' : List Char} (outer : List Frame)
    (htext : crlf (c :: rest) = c' :: rest') :
    Recognised.Same (c :: rest) false
      (recognise (.format :: outer) c rest) (recognise (.format :: outer) c' rest') := by
  let tail := (c :: rest).takeWhile isFormatChar
  have htake : (c :: rest).take tail.length = tail := Quotation.take_length_takeWhile _ _
  have htail : (c' :: rest').takeWhile isFormatChar = crlf tail := by
    rw [← htext, takeWhile_crlf_of_pos rfl rfl]
  have hbehind : (c' :: rest').drop (crlf tail).length = crlf ((c :: rest).drop tail.length) := by
    have hdrop := drop_crlf (c :: rest) tail.length
    rwa [htake, htext] at hdrop
  have hinvalid := Recognised.same_invalid [] htext
  have hlength : ∀ d, ((c :: rest).drop tail.length).head? = some d → d ≠ '\n' →
      (crlf tail).length + 1 = (crlf ((c :: rest).take (tail.length + 1))).length := by
    intro d hhead hd
    obtain ⟨more, hmore⟩ := List.head?_eq_some_iff.mp hhead
    rw [length_crlf_take_add, htake, hmore, List.take_succ_cons, crlf_cons hd]
    rfl
  simp only [recognise, htail, hbehind, head?_crlf]
  split
  · next hhead =>
    rw [if_neg (by simp [tail, hhead]), hhead]
    exact Recognised.same_of_length (hlength _ hhead (by decide))
  · next hhead =>
    rw [if_neg (by simp [tail, hhead]), hhead]
    exact Recognised.same_of_length (hlength _ hhead (by decide))
  · next hopen hclose =>
    by_cases hfeed : ((c :: rest).drop tail.length).head? = some '\n'
    · rw [if_pos hfeed]
      exact hinvalid
    · rw [if_neg hfeed]
      split
      · next hhead => exact absurd hhead hopen
      · next hhead => exact absurd hhead hclose
      · exact hinvalid

/-- What becomes of any token in the other text. Code begins no token with a line end. -/
theorem recognise_crlf {frames : List Frame} {c' : Char} {rest' : List Char}
    (hreturn : '\r' ∉ c :: rest) (htext : crlf (c :: rest) = c' :: rest')
    (hcode : (∀ source, gapLengthIn frames source = gapLength source) → c ≠ '\n') :
    Recognised.Becomes (spillsAt frames (c :: rest)) (c :: rest) (recognise frames c rest)
      (recognise frames c' rest') := by
  match frames with
  | .text q :: outer => exact recogniseText_crlf outer hreturn htext
  | .format :: outer => exact ⟨false, recogniseFormat_crlf outer htext⟩
  | [] =>
    have hc := hcode fun _ => rfl
    rw [crlf_cons hc] at htext
    cases htext
    exact recogniseCode_crlf hreturn hc
  | .hole depth lambdas spot :: outer =>
    have hc := hcode fun _ => rfl
    rw [crlf_cons hc] at htext
    cases htext
    exact recogniseHole_crlf hreturn hc depth lambdas spot outer

end Code

end SourceSurvey.Syntax
