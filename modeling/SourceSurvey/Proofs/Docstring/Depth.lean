import SourceSurvey.Proofs.Docstring.Cleaning

/-!
The depth at which a definition is nested: it puts the same blanks before every line of its
documentation but the first, and cleaning takes them away.
-/

namespace SourceSurvey.Docstring

open Text

/-- A text with so many spaces before each of its lines but the first. -/
def indentLater (n : Nat) (text : List Char) : List Char :=
  text.flatMap fun c => if c = '\n' then c :: List.replicate n ' ' else [c]

theorem indentLater_newline (n : Nat) (text : List Char) :
    indentLater n ('\n' :: text) = '\n' :: (List.replicate n ' ' ++ indentLater n text) := rfl

theorem indentLater_cons {c : Char} (hc : c ≠ '\n') (n : Nat) (text : List Char) :
    indentLater n (c :: text) = c :: indentLater n text := by
  rw [indentLater, List.flatMap_cons, if_neg hc]
  rfl

theorem mem_of_mem_split {text line : List Char} {c : Char} (hline : line ∈ split '\n' text)
    (hc : c ∈ line) (hne : c ≠ '\n') : c ∈ text := by
  by_contra hnot
  have hnone : text.filter (· == c) = [] := by
    rw [List.filter_eq_nil_iff]
    exact fun d hd heq => hnot (eq_of_beq heq ▸ hd)
  rw [← join_split '\n' text, filter_join (p := (· == c)) (beq_false_of_ne hne.symm),
    List.flatten_eq_nil_iff] at hnone
  have hfound : c ∈ line.filter (· == c) := List.mem_filter.mpr ⟨hc, beq_self_eq_true c⟩
  rw [hnone _ (List.mem_map_of_mem hline)] at hfound
  cases hfound

theorem split_append_of_not_mem {before text first : List Char} {rest : List (List Char)}
    (hbefore : '\n' ∉ before) (h : split '\n' text = first :: rest) :
    split '\n' (before ++ text) = (before ++ first) :: rest := by
  induction before with
  | nil => exact h
  | cons c before ih =>
    rw [List.mem_cons, not_or] at hbefore
    rw [List.cons_append, split, if_neg (Ne.symm hbefore.1), ih hbefore.2]
    rfl

/-- The later lines, and only these, are indented. -/
theorem split_indentLater {text first : List Char} {rest : List (List Char)} (n : Nat)
    (h : split '\n' text = first :: rest) :
    split '\n' (indentLater n text) = first :: rest.map (List.replicate n ' ' ++ ·) := by
  induction text generalizing first rest with
  | nil =>
    cases h
    rfl
  | cons c text ih =>
    obtain ⟨next, more, hnext⟩ := List.exists_cons_of_ne_nil (split_ne_nil '\n' text)
    rw [split, hnext] at h
    by_cases hc : c = '\n'
    · rw [if_pos hc] at h
      obtain ⟨rfl, rfl⟩ := List.cons.inj h
      have hspaces : '\n' ∉ List.replicate n ' ' := fun hmem => by
        cases List.eq_of_mem_replicate hmem
      rw [hc, indentLater_newline, split, if_pos rfl, split_append_of_not_mem hspaces (ih hnext)]
      rfl
    · rw [if_neg hc] at h
      obtain ⟨rfl, rfl⟩ := List.cons.inj h
      rw [indentLater_cons hc, split, if_neg hc, ih hnext]

section Indented

variable {text first : List Char} {rest : List (List Char)} {n : Nat}

theorem expandedLines_indentLater (hn : 8 ∣ n ∨ '\t' ∉ text)
    (h : expandedLines text = first :: rest) :
    expandedLines (indentLater n text) = first :: rest.map (List.replicate n ' ' ++ ·) := by
  obtain ⟨line, lines, hsplit⟩ := List.exists_cons_of_ne_nil (split_ne_nil '\n' text)
  rw [expandedLines, hsplit] at h
  obtain ⟨rfl, rfl⟩ := List.cons.inj h
  have hlines : (lines.map (List.replicate n ' ' ++ ·)).map (expandTabs 8) =
      (lines.map (expandTabs 8)).map (List.replicate n ' ' ++ ·) := by
    rw [List.map_map, List.map_map]
    refine List.map_congr_left fun later hlater => expandTabs_replicate_append ?_
    have hmem : later ∈ split '\n' text := hsplit ▸ List.mem_cons_of_mem _ hlater
    exact hn.imp_right fun htab hin => htab (mem_of_mem_split hmem hin (by decide))
  rw [expandedLines, split_indentLater n hsplit, List.map_cons, hlines]

/-- The common indentation of the later lines does not matter. -/
theorem unindent_map_append (first : List Char) (h : ∃ line ∈ rest, isBlankLine line = false)
    (n : Nat) : unindent (first :: rest.map (List.replicate n ' ' ++ ·)) = unindent (first :: rest) := by
  rw [unindent, unindent, margin_map_append h, List.map_map]
  refine congrArg _ (List.map_congr_left fun line _ => ?_)
  rw [Function.comp_apply, ← List.drop_drop, List.drop_left' List.length_replicate]

end Indented

/-- A text means the same however deep it is nested, as long as its tabs fall on the same stops, and a
    line below the first shows how deep that is. -/
theorem clean_indentLater {text : List Char} {n : Nat}
    (hline : ∃ line ∈ (split '\n' text).tail, isBlankLine line = false)
    (hn : 8 ∣ n ∨ '\t' ∉ text) : clean (indentLater n text) = clean text := by
  obtain ⟨first, rest, hlines⟩ := exists_expandedLines text
  have hrest : ∃ line ∈ rest, isBlankLine line = false := by
    obtain ⟨line, hline, hblank⟩ := hline
    refine ⟨expandTabs 8 line, ?_, isBlankLine_expandTabs 8 line ▸ hblank⟩
    have htail : rest = ((split '\n' text).tail).map (expandTabs 8) := by
      rw [List.map_tail, ← expandedLines, hlines, List.tail_cons]
    rw [htail]
    exact List.mem_map_of_mem hline
  have hindented := expandedLines_indentLater hn hlines
  have hunindent : unindent (expandedLines (indentLater n text)) =
      unindent (expandedLines text) := by
    rw [hindented, hlines, unindent_map_append first hrest]
  exact congrArg (fun lines => join ['\n'] (dropEmptyEnds lines)) hunindent

/-- A text with a tab, and with a blank line that is shorter than its margin. -/
def steppedText : List Char := "a\n \n\tb\n\t  c\n".toList

/-- The same text at the next tab stop. -/
theorem clean_indentLater_stepped :
    (∃ line ∈ (split '\n' steppedText).tail, isBlankLine line = false) ∧
      clean (indentLater 8 steppedText) = clean steppedText ∧
      clean steppedText = "a\n\nb\n  c".toList := by
  have hline : ∃ line ∈ (split '\n' steppedText).tail, isBlankLine line = false :=
    ⟨"\tb".toList, by decide, by decide⟩
  exact ⟨hline, clean_indentLater hline (.inl (Nat.dvd_refl 8)), by decide⟩

end SourceSurvey.Docstring
