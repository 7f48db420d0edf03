import SourceSurvey.Proofs.Documentation.Values
import SourceSurvey.Proofs.LineEnds.Literals

/-!
The value of a literal by the ways to write it. It depends on the text between the quotation marks
and on two facts about the letters before them: which marks these are, how the letters are spelled and
which line ends the source has does not show.
-/

namespace SourceSurvey.Syntax

open SourceSurvey.Text

/-! ### Line ends -/

/-- A text as it may be written: each of its line feeds as a line feed, as a carriage return, or as
    both. A carriage return before a written line feed is one line end with it. -/
inductive WrittenLines : List Char → List Char → Prop
  | nil : WrittenLines [] []
  | plain {c : Char} {text written : List Char} (hfeed : c ≠ '\n') (hreturn : c ≠ '\r')
    (h : WrittenLines text written) : WrittenLines (c :: text) (c :: written)
  | feed {text written : List Char} (h : WrittenLines text written) :
    WrittenLines ('\n' :: text) ('\n' :: written)
  | both {text written : List Char} (h : WrittenLines text written) :
    WrittenLines ('\n' :: text) ('\r' :: '\n' :: written)
  | alone {text written : List Char} (h : WrittenLines text written)
    (hnext : written.head? ≠ some '\n') : WrittenLines ('\n' :: text) ('\r' :: written)

theorem writtenLines_unixLineEnds (written : List Char) :
    WrittenLines (unixLineEnds written) written := by
  fun_induction unixLineEnds written with
  | case1 => exact .nil
  | case2 rest ih => exact .both ih
  | case3 rest hrest ih =>
    refine .alone ih fun hhead => ?_
    obtain ⟨more, rfl⟩ := List.head?_eq_some_iff.mp hhead
    exact hrest more rfl
  | case4 c rest _ hreturn ih =>
    by_cases hfeed : c = '\n'
    · subst hfeed
      exact .feed ih
    · exact .plain hfeed hreturn ih

theorem WrittenLines.unixLineEnds_eq {text written : List Char} (h : WrittenLines text written) :
    unixLineEnds written = text := by
  induction h with
  | nil => rfl
  | plain _ hreturn _ ih =>
    rw [unixLineEnds, ih]
    · rintro rest rfl
      exact absurd rfl hreturn
    · exact hreturn
  | feed _ ih => rw [unixLineEnds, ih] <;> simp
  | both _ ih => rw [unixLineEnds, ih]
  | alone _ hnext ih =>
    rw [unixLineEnds, ih]
    rintro rest rfl
    exact hnext rfl

/-- A text has no characters but those that are written, and line feeds. -/
theorem WrittenLines.not_mem {text written : List Char} (h : WrittenLines text written) {c : Char}
    (hfeed : c ≠ '\n') (hnot : c ∉ written) : c ∉ text := by
  induction h with
  | nil => exact hnot
  | plain _ _ _ ih | feed _ ih | both _ ih | alone _ _ ih =>
    simp only [List.mem_cons, not_or] at hnot ⊢
    grind

/-- The ways to end all lines of a source alike. -/
def lineEndings : List (List Char) := [['\n'], ['\r', '\n'], ['\r']]

/-- A text with every line feed written as the given line end. -/
def withLineEnds (lineEnd : List Char) (text : List Char) : List Char :=
  text.flatMap fun c => if c = '\n' then lineEnd else [c]

theorem writtenLines_withLineEnds {lineEnd text : List Char} (hend : lineEnd ∈ lineEndings)
    (hreturn : '\r' ∉ text) : WrittenLines text (withLineEnds lineEnd text) := by
  induction text with
  | nil => exact .nil
  | cons c text ih =>
    obtain ⟨hc, htext⟩ := List.ne_and_not_mem_of_not_mem_cons hreturn
    rw [withLineEnds, List.flatMap_cons, ← withLineEnds]
    by_cases hfeed : c = '\n'
    · subst hfeed
      rw [if_pos rfl]
      simp only [lineEndings, List.mem_cons, List.not_mem_nil, or_false] at hend
      obtain rfl | rfl | rfl := hend
      · exact .feed (ih htext)
      · exact .both (ih htext)
      · refine .alone (ih htext) ?_
        -- the next line feed is written as a carriage return, too
        cases text with
        | nil => nofun
        | cons d text =>
          rw [withLineEnds, List.flatMap_cons]
          by_cases hd : d = '\n'
          · rw [if_pos hd]
            nofun
          · simp [hd]
    · rw [if_neg hfeed]
      exact .plain hfeed (Ne.symm hc) (ih htext)

/-! ### Escapes -/

theorem unescape_eq_self {text : List Char} (h : '\\' ∉ text) : unescape text = text := by
  induction text with
  | nil => rw [unescape]
  | cons c text ih =>
    obtain ⟨hc, htext⟩ := List.ne_and_not_mem_of_not_mem_cons h
    rw [unescape, if_neg (by simpa using Ne.symm hc), ih htext]

/-! ### Quotation marks -/

/-- The letters that may stand before the quotation marks of a literal. -/
def literalLetters : List Char := ['u', 'U', 'r', 'R', 'b', 'B', 'f', 'F']

/-- The letters that leave backslashes as they are. -/
def rawLetters : List Char := ['r', 'R']

/-- The quotation marks that text stands between. -/
def textMarks : List (List Char) :=
  [['"'], ['\''], ['"', '"', '"'], ['\'', '\'', '\'']]

/-- Letters and quotation marks that a text can stand between. Behind a single mark it begins with
    another character. -/
structure Delimits (letters marks inside : List Char) : Prop where
  isLetter : ∀ c ∈ letters, c ∈ literalLetters
  areMarks : marks ∈ textMarks
  begins : marks.length = 1 → inside.head? ≠ marks.head?

/-- A text between quotation marks, with letters before them. -/
def delimited (letters marks inside : List Char) : List Char :=
  letters ++ (marks ++ (inside ++ marks))

theorem raw_opened (letters : List Char) (mark : Char) (isMark : isQuotationMark mark = true)
    (rest : List Char) :
    (Quotation.opened letters mark isMark rest).raw = letters.any (· ∈ rawLetters) := by
  rw [Bool.eq_iff_iff]
  simp [Quotation.opened, rawLetters]

/-- A quotation mark that is not tripled: no two more of it follow. -/
theorem width_opened_single {mark : Char} (isMark : isQuotationMark mark = true)
    (letters : List Char) {inside : List Char} (h : inside.head? ≠ some mark) :
    (Quotation.opened letters mark isMark (inside ++ [mark])).width = 1 := by
  have htriple : [mark, mark].isPrefixOf (inside ++ [mark]) = false := by
    rw [Bool.eq_false_iff, ne_eq, List.isPrefixOf_iff_prefix]
    intro hprefix
    cases inside with
    | nil => exact absurd hprefix.length_le (by simp)
    | cons c inside =>
      obtain ⟨more, heq⟩ := hprefix
      exact h (congrArg some (List.cons.inj heq).1.symm)
  rw [Quotation.width, Quotation.opened]
  simp [htriple]

theorem width_opened_triple {mark : Char} (isMark : isQuotationMark mark = true)
    (hmark : mark ≠ '`') (letters rest : List Char) :
    (Quotation.opened letters mark isMark (mark :: mark :: rest)).width = 3 := by
  rw [Quotation.width, Quotation.opened]
  simp [hmark]

/-- Quotation marks are one mark or three of it, which the text behind them tells apart. -/
theorem Delimits.exists_mark {letters marks inside : List Char} (h : Delimits letters marks inside) :
    ∃ mark more, ∃ isMark : isQuotationMark mark = true, marks = mark :: more ∧ mark ≠ '`' ∧
      marks = List.replicate
        (Quotation.opened letters mark isMark (more ++ (inside ++ marks))).width mark := by
  have hmarks := h.areMarks
  have hbegins := h.begins
  simp only [textMarks, List.mem_cons, List.not_mem_nil, or_false] at hmarks
  obtain rfl | rfl | rfl | rfl := hmarks
  · refine ⟨'"', [], rfl, rfl, by decide, ?_⟩
    rw [List.nil_append, width_opened_single rfl letters (hbegins rfl)]
    rfl
  · refine ⟨'\'', [], rfl, rfl, by decide, ?_⟩
    rw [List.nil_append, width_opened_single rfl letters (hbegins rfl)]
    rfl
  · refine ⟨'"', _, rfl, rfl, by decide, ?_⟩
    rw [List.cons_append, List.cons_append, width_opened_triple rfl (by decide)]
    rfl
  · refine ⟨'\'', _, rfl, rfl, by decide, ?_⟩
    rw [List.cons_append, List.cons_append, width_opened_triple rfl (by decide)]
    rfl

theorem isLiteralLetter_of_mem {c : Char} (hc : c ∈ literalLetters) : isLiteralLetter c = true := by
  have hall : literalLetters.all isLiteralLetter = true := by decide
  exact List.all_eq_true.mp hall c hc

/-- The value of a literal as it is written. -/
theorem Delimits.literalValue? {letters marks inside : List Char}
    (h : Delimits letters marks inside) :
    literalValue? (delimited letters marks inside) =
      if letters.any (· ∈ textlessLetters) then none
      else some (if letters.any (· ∈ rawLetters) then unixLineEnds inside
        else unescape (unixLineEnds inside)) := by
  obtain ⟨mark, more, isMark, hmarks, hmark, hwidth⟩ := h.exists_mark
  have htext : delimited letters marks inside =
      letters ++ mark :: (more ++ (inside ++ marks)) := by
    rw [delimited, hmarks, List.cons_append]
  let q := Quotation.opened letters mark isMark (more ++ (inside ++ marks))
  have hopening : Quotation.ofText? (delimited letters marks inside) =
      some (q, letters.length + q.width) := by
    rw [htext]
    exact Quotation.ofText?_append (fun c hc => isLiteralLetter_of_mem (h.isLetter c hc)) isMark _
  have hlength : q.width = marks.length := by
    rw [hwidth, List.length_replicate]
  have hinside : (delimited letters marks inside).drop (letters.length + q.width) =
      inside ++ List.replicate q.width q.mark := by
    have hbehind : marks = List.replicate q.width q.mark := hwidth
    rw [← hbehind, hlength, delimited, ← List.drop_drop, List.drop_left, List.drop_left]
  have hmark' : (q.mark == '`') = false := beq_false_of_ne hmark
  have htextless : (q.bytes || q.format) = letters.any (· ∈ textlessLetters) :=
    textless_opened letters mark isMark _
  have hraw : q.raw = letters.any (· ∈ rawLetters) := raw_opened letters mark isMark _
  rw [literalValue?_of_ofText? hopening hinside, htextless, hraw, hmark', Bool.or_false]

/-- No quotation mark is a line end, so that a text stays delimited with other line ends. -/
theorem Delimits.withLineEnds {letters marks inside lineEnd : List Char}
    (h : Delimits letters marks inside) (hend : lineEnd ∈ lineEndings) :
    Delimits letters marks (withLineEnds lineEnd inside) := by
  refine ⟨h.isLetter, h.areMarks, fun hsingle => ?_⟩
  have hhead := h.begins hsingle
  cases inside with
  | nil => exact hhead
  | cons c inside =>
    rw [Syntax.withLineEnds, List.flatMap_cons]
    by_cases hc : c = '\n'
    · have hends : (lineEndings.all fun e => textMarks.all fun m =>
          !e.isEmpty && e.head? != m.head?) = true := by decide
      have hdiffer := List.all_eq_true.mp (List.all_eq_true.mp hends lineEnd hend) marks h.areMarks
      rw [Bool.and_eq_true, bne_iff_ne] at hdiffer
      rw [if_pos hc, List.head?_append_of_ne_nil _ (by simpa using hdiffer.1)]
      exact hdiffer.2
    · rw [if_neg hc]
      exact hhead

/-- The value of a literal: none where a letter makes it no text, and otherwise the text between its
    marks with its line ends as line feeds, with or without its escapes replaced. It is the same with
    other marks, other letters that say the same, and other line ends, and all letters that leave it
    text say the same where there is no backslash. -/
theorem literalValue?_delimited {letters marks inside : List Char}
    (h : Delimits letters marks inside) :
    (∀ text, WrittenLines text inside ↔ text = unixLineEnds inside) ∧
    literalValue? (delimited letters marks inside) =
      (if letters.any (· ∈ textlessLetters) then none
      else some (if letters.any (· ∈ rawLetters) then unixLineEnds inside
        else unescape (unixLineEnds inside))) ∧
    (∀ letters' marks' inside', Delimits letters' marks' inside' →
      unixLineEnds inside' = unixLineEnds inside →
      letters'.any (· ∈ textlessLetters) = letters.any (· ∈ textlessLetters) →
      letters'.any (· ∈ rawLetters) = letters.any (· ∈ rawLetters) ∨ '\\' ∉ inside →
      literalValue? (delimited letters' marks' inside') =
        literalValue? (delimited letters marks inside)) ∧
    ∀ lineEnd ∈ lineEndings, '\r' ∉ inside →
      Delimits letters marks (withLineEnds lineEnd inside) ∧
      literalValue? (delimited letters marks (withLineEnds lineEnd inside)) =
        literalValue? (delimited letters marks inside) := by
  refine ⟨fun text => ⟨fun hlines => hlines.unixLineEnds_eq.symm, ?_⟩, h.literalValue?,
    fun letters' marks' inside' h' hinside htextless hraw => ?_, fun lineEnd hend hreturn => ?_⟩
  · rintro rfl
    exact writtenLines_unixLineEnds inside
  · rw [h.literalValue?, h'.literalValue?, hinside, htextless]
    obtain hraw | hbackslash := hraw
    · rw [hraw]
    · have hsame : unescape (unixLineEnds inside) = unixLineEnds inside :=
        unescape_eq_self ((writtenLines_unixLineEnds inside).not_mem (by decide) hbackslash)
      rw [hsame, ite_self, ite_self]
  · have hlines := writtenLines_withLineEnds hend hreturn
    have h' := h.withLineEnds hend
    rw [h.literalValue?, h'.literalValue?, hlines.unixLineEnds_eq, unixLineEnds_eq_self hreturn]
    exact ⟨h', rfl⟩

/-- A raw literal on tripled marks whose text has a mark, an escape and a carriage return, and a plain
    one with other line ends that has no escape. -/
theorem literalValue?_delimited_raw :
    Delimits ['u', 'R'] ['"', '"', '"'] "\"\\n\r\n".toList ∧
      literalValue? (delimited ['u', 'R'] ['"', '"', '"'] "\"\\n\r\n".toList) =
        some "\"\\n\n".toList ∧
      Delimits [] ['\''] "a\rb".toList ∧ Delimits ['R'] ['"'] "a\nb".toList ∧
      literalValue? (delimited ['R'] ['"'] "a\nb".toList) =
        literalValue? (delimited [] ['\''] "a\rb".toList) := by
  have hraw : Delimits ['u', 'R'] ['"', '"', '"'] "\"\\n\r\n".toList :=
    ⟨by simp [literalLetters], by decide, by decide⟩
  have hplain : Delimits [] ['\''] "a\rb".toList := ⟨by simp [literalLetters], by decide, by decide⟩
  have hother : Delimits ['R'] ['"'] "a\nb".toList := ⟨by simp [literalLetters], by decide, by decide⟩
  exact ⟨hraw, (literalValue?_delimited hraw).2.1, hplain, hother,
    (literalValue?_delimited hplain).2.2.1 _ _ _ hother (by decide) rfl (.inr (by decide))⟩

end SourceSurvey.Syntax
