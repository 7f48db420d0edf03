import Mathlib.Data.List.DropRight
import SourceSurvey.Docstring
import SourceSurvey.Proofs.Docstring.Tabs

/-!
The indentation of lines, the least indentation of several, and what is left of a line when
characters are taken from its front. A line that is blank has no indentation to keep.
-/

namespace SourceSurvey.Docstring

open Text

/-! ### One line -/

theorem isBlankLine_iff {line : List Char} :
    isBlankLine line = true ↔ line.filter (!isBlank ·) = [] := by
  rw [isBlankLine, trimStart, List.isEmpty_iff, List.dropWhile_eq_nil_iff, List.filter_eq_nil_iff]
  simp

theorem indentation_eq_length (line : List Char) :
    indentation line = (line.takeWhile isBlank).length := by
  have hlength := congrArg List.length (List.takeWhile_append_dropWhile (p := isBlank) (l := line))
  rw [List.length_append] at hlength
  rw [indentation, trimStart]
  omega

/-- Expanding tabs makes no line blank and fills none. -/
theorem isBlankLine_expandTabs (size : Nat) (line : List Char) :
    isBlankLine (expandTabs size line) = isBlankLine line := by
  rw [Bool.eq_iff_iff, isBlankLine_iff, isBlankLine_iff, expandTabs, filter_expandTabsFrom]

theorem filter_trimStart (line : List Char) :
    (trimStart line).filter (!isBlank ·) = line.filter (!isBlank ·) := by
  have hblank : (line.takeWhile isBlank).filter (!isBlank ·) = [] := by
    rw [List.filter_eq_nil_iff]
    intro c hc
    simp [List.mem_takeWhile_imp hc]
  rw [← List.takeWhile_append_dropWhile (p := isBlank) (l := line), List.filter_append, hblank,
    List.takeWhile_append_dropWhile]
  rfl

section Drop

variable {line : List Char} {m : Nat}

/-- A line less some of its indentation. -/
theorem drop_of_le_indentation (h : m ≤ indentation line) :
    line.drop m = (line.takeWhile isBlank).drop m ++ line.dropWhile isBlank := by
  conv_lhs => rw [← List.takeWhile_append_dropWhile (p := isBlank) (l := line)]
  exact List.drop_append_of_le_length (indentation_eq_length line ▸ h)

theorem trimStart_drop (h : m ≤ indentation line) : trimStart (line.drop m) = trimStart line := by
  have hblank : ∀ c ∈ (line.takeWhile isBlank).drop m, isBlank c = true := fun c hc =>
    List.mem_takeWhile_imp (List.mem_of_mem_drop hc)
  rw [trimStart, trimStart, drop_of_le_indentation h, List.dropWhile_append_of_pos hblank,
    List.dropWhile_idempotent]

theorem indentation_drop (h : m ≤ indentation line) :
    indentation (line.drop m) + m = indentation line := by
  rw [indentation, trimStart_drop h, List.length_drop]
  rw [indentation] at h ⊢
  omega

/-- Of a blank line nothing is lost but blanks, nor of one that is indented at least so far. -/
theorem filter_drop (h : isBlankLine line = false → m ≤ indentation line) :
    (line.drop m).filter (!isBlank ·) = line.filter (!isBlank ·) := by
  cases hblank : isBlankLine line with
  | true =>
    rw [isBlankLine_iff] at hblank
    rw [hblank, List.filter_eq_nil_iff]
    exact fun c hc => List.filter_eq_nil_iff.mp hblank c (List.mem_of_mem_drop hc)
  | false => rw [← filter_trimStart, trimStart_drop (h hblank), filter_trimStart]

end Drop

/-- Spaces before a line that is not blank are indentation. -/
theorem indentation_replicate_append (n : Nat) (line : List Char) :
    indentation (List.replicate n ' ' ++ line) = n + indentation line := by
  have hspaces : ∀ c ∈ List.replicate n ' ', isBlank c = true := fun c hc =>
    List.eq_of_mem_replicate hc ▸ isBlank_space
  rw [indentation_eq_length, indentation_eq_length, List.takeWhile_append_of_pos hspaces,
    List.length_append, List.length_replicate]

theorem isBlankLine_replicate_append (n : Nat) (line : List Char) :
    isBlankLine (List.replicate n ' ' ++ line) = isBlankLine line := by
  rw [Bool.eq_iff_iff, isBlankLine_iff, isBlankLine_iff, List.filter_append,
    List.filter_replicate_of_neg (by simp [isBlank_space]), List.nil_append]

/-! ### Several lines -/

/-- The least indentation of the lines that are not blank, zero where all are. -/
structure IsMargin (lines : List (List Char)) (m : Nat) : Prop where
  le : ∀ line ∈ lines, isBlankLine line = false → m ≤ indentation line
  attained : (∃ line ∈ lines, isBlankLine line = false) →
    ∃ line ∈ lines, isBlankLine line = false ∧ indentation line = m
  zero : (∀ line ∈ lines, isBlankLine line = true) → m = 0

theorem IsMargin.unique {lines : List (List Char)} {m n : Nat} (h : IsMargin lines m)
    (h' : IsMargin lines n) : m = n := by
  by_cases hexists : ∃ line ∈ lines, isBlankLine line = false
  · obtain ⟨line, hline, hblank, rfl⟩ := h.attained hexists
    obtain ⟨line', hline', hblank', rfl⟩ := h'.attained hexists
    exact Nat.le_antisymm (h.le line' hline' hblank') (h'.le line hline hblank)
  · have hall : ∀ line ∈ lines, isBlankLine line = true := fun line hline =>
      Bool.not_eq_false _ ▸ fun hblank => hexists ⟨line, hline, hblank⟩
    rw [h.zero hall, h'.zero hall]

theorem isMargin_margin (lines : List (List Char)) : IsMargin lines (margin lines) := by
  have hmem : ∀ n, n ∈ (lines.filter fun line => !isBlankLine line).map indentation ↔
      ∃ line ∈ lines, isBlankLine line = false ∧ indentation line = n := by
    intro n
    simp [and_assoc]
  unfold margin
  cases hmin : ((lines.filter fun line => !isBlankLine line).map indentation).min? with
  | none =>
    rw [List.min?_eq_none_iff] at hmin
    have hnone : ∀ line ∈ lines, isBlankLine line ≠ false := by
      intro line hline hblank
      have hfound := (hmem _).mpr ⟨line, hline, hblank, rfl⟩
      rw [hmin] at hfound
      cases hfound
    exact ⟨fun line hline hblank => absurd hblank (hnone line hline),
      fun ⟨line, hline, hblank⟩ => absurd hblank (hnone line hline), fun _ => rfl⟩
  | some m =>
    obtain ⟨hm, hle⟩ := List.min?_eq_some_iff.mp hmin
    obtain ⟨line, hline, hblank, hindent⟩ := (hmem m).mp hm
    refine ⟨fun line hline hblank => hle _ ((hmem _).mpr ⟨line, hline, hblank, rfl⟩),
      fun _ => ⟨line, hline, hblank, hindent⟩, fun hall => ?_⟩
    rw [hall line hline] at hblank
    cases hblank

/-- More spaces before each of several lines are so much more to their margin, unless all of them are
    blank. -/
theorem margin_map_append {lines : List (List Char)}
    (h : ∃ line ∈ lines, isBlankLine line = false) (n : Nat) :
    margin (lines.map (List.replicate n ' ' ++ ·)) = n + margin lines := by
  refine (isMargin_margin _).unique ?_
  have hmargin := isMargin_margin lines
  refine ⟨List.forall_mem_map.mpr fun line hline hblank => ?_, fun _ => ?_, fun hall => ?_⟩
  · rw [isBlankLine_replicate_append] at hblank
    rw [indentation_replicate_append]
    exact Nat.add_le_add_left (hmargin.le line hline hblank) n
  · obtain ⟨line, hline, hblank, hindent⟩ := hmargin.attained h
    exact ⟨_, List.mem_map_of_mem hline, isBlankLine_replicate_append n line ▸ hblank,
      by rw [indentation_replicate_append, hindent]⟩
  · obtain ⟨line, hline, hblank⟩ := h
    have hfull := hall _ (List.mem_map_of_mem hline)
    rw [isBlankLine_replicate_append, hblank] at hfull
    cases hfull

/-! ### Empty lines at either end -/

/-- What is dropped at either end of a list are empty lines, and all of them. -/
theorem exists_dropEmptyEnds (lines : List (List Char)) :
    ∃ before after, lines = before ++ dropEmptyEnds lines ++ after ∧
      (∀ line ∈ before ++ after, line = []) ∧ (dropEmptyEnds lines).head? ≠ some [] ∧
      (dropEmptyEnds lines).getLast? ≠ some [] := by
  let inner := lines.rdropWhile List.isEmpty
  have hkept : dropEmptyEnds lines = inner.dropWhile List.isEmpty := rfl
  have hinner : inner.takeWhile List.isEmpty ++ dropEmptyEnds lines = inner :=
    List.takeWhile_append_dropWhile
  refine ⟨inner.takeWhile List.isEmpty, lines.rtakeWhile List.isEmpty, ?_, ?_, ?_, ?_⟩
  · rw [hinner]
    exact (List.rdropWhile_append_rtakeWhile ..).symm
  · refine List.forall_mem_append.mpr ⟨fun line hline => ?_, fun line hline => ?_⟩
    · exact List.isEmpty_iff.mp (List.mem_takeWhile_imp hline)
    · exact List.isEmpty_iff.mp (List.mem_rtakeWhile_imp hline)
  · intro hhead
    have hnot := List.head?_dropWhile_not List.isEmpty inner
    rw [← hkept, hhead] at hnot
    cases hnot
  · intro hlast
    have hlast' : inner.getLast? = some [] := by
      rw [← hinner, List.getLast?_append, hlast]
      rfl
    have hne : inner ≠ [] := fun hnil => by
      rw [hnil] at hlast'
      cases hlast'
    rw [List.getLast?_eq_some_getLast hne] at hlast'
    refine List.rdropWhile_last_not List.isEmpty lines hne ?_
    exact List.isEmpty_iff.mpr (Option.some.inj hlast')

theorem mem_of_mem_dropEmptyEnds {lines : List (List Char)} {line : List Char}
    (h : line ∈ dropEmptyEnds lines) : line ∈ lines := by
  obtain ⟨before, after, hlines, -⟩ := exists_dropEmptyEnds lines
  rw [hlines]
  exact List.mem_append_left _ (List.mem_append_right _ h)

end SourceSurvey.Docstring
