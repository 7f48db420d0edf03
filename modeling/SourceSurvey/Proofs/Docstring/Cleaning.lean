import SourceSurvey.Proofs.Docstring.Margins

/-!
What is left of a documentation string: its lines with the tabs expanded, each without the blanks that
its place in the source put before it. Nothing but blanks is lost, and how deep the definition is
nested does not show.
-/

namespace SourceSurvey.Docstring

open Text

/-! ### Joined lines -/

theorem filter_join {p : Char → Bool} (hp : p '\n' = false) (lines : List (List Char)) :
    (join ['\n'] lines).filter p = (lines.map (List.filter p)).flatten := by
  induction lines with
  | nil => rfl
  | cons line lines ih =>
    cases lines with
    | nil => simp [join]
    | cons next lines =>
      rw [join] at ih ⊢
      rw [List.intercalate_cons_cons, List.filter_append, ih, List.filter_append,
        List.filter_singleton, hp, List.map_cons, List.flatten_cons]
      simp

theorem not_mem_join {lines : List (List Char)} {c : Char} (hc : c ≠ '\n')
    (h : ∀ line ∈ lines, c ∉ line) : c ∉ join ['\n'] lines := by
  intro hmem
  have hfound : c ∈ (join ['\n'] lines).filter (· == c) :=
    List.mem_filter.mpr ⟨hmem, beq_self_eq_true c⟩
  rw [filter_join (p := (· == c)) (beq_false_of_ne hc.symm)] at hfound
  obtain ⟨part, hpart, hc⟩ := List.mem_flatten.mp hfound
  obtain ⟨line, hline, rfl⟩ := List.mem_map.mp hpart
  exact h line hline (List.mem_of_mem_filter hc)

/-- Empty lines at either end have nothing in them. -/
theorem flatten_map_filter_of_nil {lines : List (List Char)} (h : ∀ line ∈ lines, line = [])
    (p : Char → Bool) : (lines.map (List.filter p)).flatten = [] := by
  refine List.flatten_eq_nil_iff.mpr fun part hpart => ?_
  obtain ⟨line, hline, rfl⟩ := List.mem_map.mp hpart
  rw [h line hline]
  rfl

/-! ### Lines of a text -/

/-- The lines of a text with their tabs expanded. -/
def expandedLines (text : List Char) : List (List Char) := (split '\n' text).map (expandTabs 8)

theorem not_mem_of_mem_expandedLines {text line : List Char} (h : line ∈ expandedLines text) :
    '\n' ∉ line ∧ '\t' ∉ line := by
  obtain ⟨field, hfield, rfl⟩ := List.mem_map.mp h
  refine ⟨fun hmem => ?_, not_mem_tab_expandTabsFrom 8 0 field⟩
  obtain heq | ⟨hmem, -⟩ := mem_of_mem_expandTabsFrom hmem
  · cases heq
  · exact not_mem_of_mem_split hfield hmem

theorem exists_expandedLines (text : List Char) :
    ∃ first rest, expandedLines text = first :: rest :=
  List.exists_cons_of_ne_nil fun h => split_ne_nil '\n' text (List.map_eq_nil_iff.mp h)

theorem flatten_map_filter_expandedLines (text : List Char) :
    ((expandedLines text).map (List.filter (!isBlank ·))).flatten =
      text.filter (!isBlank ·) := by
  have hline : List.filter (!isBlank ·) ∘ expandTabs 8 = List.filter (!isBlank ·) :=
    funext fun line => filter_expandTabsFrom 8 0 line
  conv_rhs => rw [← join_split '\n' text]
  rw [filter_join (by decide), expandedLines, List.map_map, hline]

section Unindent

variable {lines : List (List Char)} {line : List Char}

/-- Every line that is left is the end of one of the lines. -/
theorem exists_suffix_of_mem_unindent (h : line ∈ unindent lines) :
    ∃ whole ∈ lines, line <:+ whole := by
  cases lines with
  | nil => cases h
  | cons first rest =>
    obtain rfl | hrest := List.mem_cons.mp h
    · exact ⟨first, List.mem_cons_self, List.dropWhile_suffix _⟩
    · obtain ⟨whole, hwhole, rfl⟩ := List.mem_map.mp hrest
      exact ⟨whole, List.mem_cons_of_mem _ hwhole, List.drop_suffix _ _⟩

theorem not_mem_of_mem_unindent {text : List Char} (h : line ∈ unindent (expandedLines text)) :
    '\n' ∉ line ∧ '\t' ∉ line := by
  obtain ⟨whole, hwhole, hsuffix⟩ := exists_suffix_of_mem_unindent h
  obtain ⟨hline, htab⟩ := not_mem_of_mem_expandedLines hwhole
  exact ⟨fun hmem => hline (hsuffix.mem hmem), fun hmem => htab (hsuffix.mem hmem)⟩

theorem flatten_map_filter_unindent (lines : List (List Char)) :
    ((unindent lines).map (List.filter (!isBlank ·))).flatten =
      (lines.map (List.filter (!isBlank ·))).flatten := by
  cases lines with
  | nil => rfl
  | cons first rest =>
    have hrest : (rest.map (List.drop (margin rest))).map (List.filter (!isBlank ·)) =
        rest.map (List.filter (!isBlank ·)) := by
      rw [List.map_map]
      exact List.map_congr_left fun line hline =>
        filter_drop ((isMargin_margin rest).le line hline)
    rw [unindent, List.map_cons, filter_trimStart, hrest, List.map_cons]

end Unindent

/-! ### What is left -/

/-- What is left of a text, which has the given first and later lines, when so much of every later line
    is taken away: some lines one behind the other, with only empty ones before and behind them. -/
structure Cleaned (text result first : List Char) (rest : List (List Char)) (m : Nat)
    (kept : List (List Char)) : Prop where
  lines : (split '\n' text).map (expandTabs 8) = first :: rest
  margin : IsMargin rest m
  block : ∃ before after, first.dropWhile isBlank :: rest.map (List.drop m) =
    before ++ kept ++ after ∧ ∀ line ∈ before ++ after, line = []
  joined : result = join ['\n'] kept
  /-- The lines of the result are those that are kept, and it neither begins nor ends with an empty
      one. -/
  ends : result = [] ∨
    split '\n' result = kept ∧ kept.head? ≠ some [] ∧ kept.getLast? ≠ some []
  /-- Of two later lines that are not blank, both are kept, and one is indented as much more than the
      other as it was. -/
  relative : ∀ line ∈ rest, isBlankLine line = false → ∀ line' ∈ rest, isBlankLine line' = false →
    line.drop m ∈ kept ∧ (indentation (line.drop m) : ℤ) - indentation (line'.drop m) =
      indentation line - indentation line'

theorem exists_cleaned (text : List Char) :
    ∃ first rest m kept, Cleaned text (clean text) first rest m kept := by
  obtain ⟨first, rest, hlines⟩ := exists_expandedLines text
  obtain ⟨before, after, hblock, hempty, hhead, hlast⟩ :=
    exists_dropEmptyEnds (unindent (expandedLines text))
  let kept := dropEmptyEnds (unindent (expandedLines text))
  have hmargin := isMargin_margin rest
  have hunindent : unindent (expandedLines text) =
      first.dropWhile isBlank :: rest.map (List.drop (Docstring.margin rest)) := by
    rw [hlines]
    rfl
  refine ⟨first, rest, Docstring.margin rest, kept, hlines, hmargin,
    ⟨before, after, hunindent ▸ hblock, hempty⟩, rfl, ?_, ?_⟩
  · by_cases hkept : kept = []
    · exact .inl (congrArg (join ['\n']) hkept)
    · refine .inr ⟨split_join hkept fun line hline hmem => ?_, hhead, hlast⟩
      exact (not_mem_of_mem_unindent (mem_of_mem_dropEmptyEnds hline)).1 hmem
  · intro line hline hblank line' hline' hblank'
    have hindent := indentation_drop (hmargin.le line hline hblank)
    have hindent' := indentation_drop (hmargin.le line' hline' hblank')
    refine ⟨?_, by omega⟩
    have hmem : line.drop (Docstring.margin rest) ∈ before ++ kept ++ after := by
      rw [← hblock, hunindent]
      exact List.mem_cons_of_mem _ (List.mem_map_of_mem hline)
    rw [List.append_assoc, List.mem_append, List.mem_append, or_left_comm] at hmem
    refine hmem.resolve_right fun hout => ?_
    -- an empty line is blank, and this one is not
    have hnil := hempty _ (List.mem_append.mpr hout)
    have hsame := filter_drop fun _ => hmargin.le line hline hblank
    rw [hnil] at hsame
    rw [isBlankLine_iff.mpr hsame.symm] at hblank
    cases hblank

/-- A text that is cleaned has no tabs. -/
theorem not_mem_tab_clean (text : List Char) : '\t' ∉ clean text :=
  not_mem_join (by decide) fun line hline =>
    (not_mem_of_mem_unindent (mem_of_mem_dropEmptyEnds hline)).2

/-- All that is not blank stays, in its order. -/
theorem filter_clean (text : List Char) :
    (clean text).filter (!isBlank ·) = text.filter (!isBlank ·) := by
  obtain ⟨before, after, hblock, hempty, -⟩ :=
    exists_dropEmptyEnds (unindent (expandedLines text))
  obtain ⟨hbefore, hafter⟩ := List.forall_mem_append.mp hempty
  calc (clean text).filter (!isBlank ·)
      = ((dropEmptyEnds (unindent (expandedLines text))).map (List.filter (!isBlank ·))).flatten :=
        filter_join (by decide) _
    _ = ((unindent (expandedLines text)).map (List.filter (!isBlank ·))).flatten := by
        conv_rhs => rw [hblock]
        rw [List.map_append, List.map_append, List.flatten_append, List.flatten_append,
          flatten_map_filter_of_nil hbefore, flatten_map_filter_of_nil hafter, List.append_nil,
          List.nil_append]
    _ = text.filter (!isBlank ·) := by
        rw [flatten_map_filter_unindent, flatten_map_filter_expandedLines]

/-- Cleaning a text keeps its lines less their common indentation, and loses nothing but blanks. -/
theorem clean_keeps (text : List Char) :
    '\t' ∉ clean text ∧ (clean text).filter (!isBlank ·) = text.filter (!isBlank ·) ∧
      ∃ first rest m kept, Cleaned text (clean text) first rest m kept :=
  ⟨not_mem_tab_clean text, filter_clean text, exists_cleaned text⟩

end SourceSurvey.Docstring
