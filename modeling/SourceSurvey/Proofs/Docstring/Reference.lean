import SourceSurvey.Proofs.Docstring.Cleaning

/-!
Cleaning a text line by line against the procedure on the whole text: expand all tabs, then cut the
text into lines and take their indentation away. Both agree where the column starts over behind line
feeds. Where it starts over behind carriage returns too, they agree on the tabs exactly if each
carriage return that a tab comes behind happens to end at a tab stop.
-/

namespace SourceSurvey.Docstring

open Text

/-! ### The whole text -/

/-- Expands the tabs of a whole text. The column starts over behind each of the given characters. -/
def expandTabsOver (restarts : List Char) (column : Nat) : List Char → List Char
  | [] => []
  | '\t' :: rest =>
    List.replicate (8 - column % 8) ' ' ++
      expandTabsOver restarts (column + (8 - column % 8)) rest
  | c :: rest => c :: expandTabsOver restarts (if c ∈ restarts then 0 else column + 1) rest

/-- The least indentation of the lines that are not blank, if there is one. -/
def leastIndentation : List (List Char) → Option Nat
  | [] => none
  | line :: rest =>
    if line.all isBlank then leastIndentation rest
    else
      let here := (line.takeWhile isBlank).length
      match leastIndentation rest with
      | none => some here
      | some least => some (min here least)

/-- Cleans a text as a whole: expands the tabs, cuts the text at the line feeds, takes the leading
    blanks from the first line and the least indentation from every other, drops the empty lines at
    the end and at the start, and joins the rest. -/
def cleanOver (restarts text : List Char) : List Char :=
  match split '\n' (expandTabsOver restarts 0 text) with
  | [] => []
  | first :: rest =>
    let later := match leastIndentation rest with
      | none => rest
      | some least => rest.map (List.drop least)
    join ['\n'] (((first.dropWhile isBlank :: later).rdropWhile List.isEmpty).dropWhile List.isEmpty)

/-! ### Indentation -/

theorem isBlankLine_eq_all (line : List Char) : isBlankLine line = line.all isBlank := by
  rw [Bool.eq_iff_iff, isBlankLine_iff, List.filter_eq_nil_iff, List.all_eq_true]
  simp

theorem leastIndentation_eq_min? (lines : List (List Char)) :
    leastIndentation lines =
      ((lines.filter fun line => !isBlankLine line).map indentation).min? := by
  induction lines with
  | nil => rfl
  | cons line rest ih =>
    rw [leastIndentation, ← isBlankLine_eq_all, ih]
    cases hblank : isBlankLine line with
    | true => rw [List.filter_cons_of_neg (by simp [hblank]), if_pos rfl]
    | false =>
      rw [List.filter_cons_of_pos (by simp [hblank]), List.map_cons, List.min?_cons,
        indentation_eq_length, if_neg Bool.false_ne_true]
      cases ((rest.filter fun line => !isBlankLine line).map indentation).min? <;> rfl

/-- Taking the least indentation away, if there is one. -/
theorem map_drop_leastIndentation (lines : List (List Char)) :
    (match leastIndentation lines with
      | none => lines
      | some least => lines.map (List.drop least)) = lines.map (List.drop (margin lines)) := by
  rw [margin, ← leastIndentation_eq_min?]
  cases leastIndentation lines with
  | none => exact (List.map_id lines).symm
  | some least => rfl

theorem cleanOver_eq (restarts text : List Char) :
    cleanOver restarts text =
      join ['\n'] (dropEmptyEnds (unindent (split '\n' (expandTabsOver restarts 0 text)))) := by
  rw [cleanOver]
  cases split '\n' (expandTabsOver restarts 0 text) with
  | nil => rfl
  | cons first rest =>
    simp only [map_drop_leastIndentation]
    rfl

/-! ### Tabs line by line -/

section Lines

variable {restarts : List Char} {column : Nat} {line : List Char}

theorem expandTabsOver_tab (restarts : List Char) (column : Nat) (rest : List Char) :
    expandTabsOver restarts column ('\t' :: rest) = List.replicate (8 - column % 8) ' ' ++
      expandTabsOver restarts (column + (8 - column % 8)) rest := rfl

theorem expandTabsOver_cons {c : Char} (hc : c ≠ '\t') (restarts : List Char) (column : Nat)
    (rest : List Char) : expandTabsOver restarts column (c :: rest) =
      c :: expandTabsOver restarts (if c ∈ restarts then 0 else column + 1) rest :=
  expandTabsOver.eq_3 _ _ _ _ hc

theorem mem_of_mem_expandTabsOver {c : Char} (h : c ∈ expandTabsOver restarts column line) :
    c = ' ' ∨ c ∈ line := by
  induction line generalizing column with
  | nil => cases h
  | cons d rest ih =>
    by_cases hd : d = '\t'
    · subst hd
      obtain hpad | hrest := List.mem_append.mp h
      · exact .inl (List.eq_of_mem_replicate hpad)
      · exact (ih hrest).imp_right (List.mem_cons_of_mem _)
    · rw [expandTabsOver_cons hd] at h
      obtain rfl | hrest := List.mem_cons.mp h
      · exact .inr List.mem_cons_self
      · exact (ih hrest).imp_right (List.mem_cons_of_mem _)

/-- Behind a line feed the column starts over. -/
theorem expandTabsOver_append (hrestarts : '\n' ∈ restarts) (column : Nat)
    (first rest : List Char) : expandTabsOver restarts column (first ++ '\n' :: rest) =
      expandTabsOver restarts column first ++ '\n' :: expandTabsOver restarts 0 rest := by
  induction first generalizing column with
  | nil => rw [List.nil_append, expandTabsOver_cons (by decide), if_pos hrestarts]; rfl
  | cons c first ih =>
    by_cases hc : c = '\t'
    · subst hc
      rw [List.cons_append, expandTabsOver_tab, ih, expandTabsOver_tab, List.append_assoc]
    · rw [List.cons_append, expandTabsOver_cons hc, ih, expandTabsOver_cons hc, List.cons_append]

theorem expandTabsOver_join (hrestarts : '\n' ∈ restarts) (lines : List (List Char)) :
    expandTabsOver restarts 0 (join ['\n'] lines) =
      join ['\n'] (lines.map (expandTabsOver restarts 0)) := by
  induction lines with
  | nil => rfl
  | cons line lines ih =>
    cases lines with
    | nil => simp [join]
    | cons next lines =>
      rw [join, join] at ih ⊢
      rw [List.map_cons, List.map_cons, List.intercalate_cons_cons, List.intercalate_cons_cons,
        ← List.map_cons, ← ih, List.append_assoc, List.singleton_append,
        expandTabsOver_append hrestarts, List.append_assoc, List.singleton_append]

/-- The lines of the expanded text are the expanded lines. -/
theorem split_expandTabsOver (hrestarts : '\n' ∈ restarts) (text : List Char) :
    split '\n' (expandTabsOver restarts 0 text) =
      (split '\n' text).map (expandTabsOver restarts 0) := by
  conv_lhs => rw [← join_split '\n' text, expandTabsOver_join hrestarts]
  refine split_join (fun h => split_ne_nil '\n' text (List.map_eq_nil_iff.mp h)) ?_
  refine List.forall_mem_map.mpr fun line hline hmem => ?_
  obtain heq | hmem := mem_of_mem_expandTabsOver hmem
  · cases heq
  · exact not_mem_of_mem_split hline hmem

/-- On a line no character restarts the column but carriage returns. -/
theorem expandTabsOver_of_not_mem (h : ∀ c ∈ line, c ∉ restarts) :
    expandTabsOver restarts column line = expandTabsFrom 8 column line := by
  induction line generalizing column with
  | nil => rfl
  | cons c rest ih =>
    obtain ⟨hc, hrest⟩ := List.forall_mem_cons.mp h
    by_cases htab : c = '\t'
    · subst htab
      rw [expandTabsOver_tab, expandTabsFrom, ih hrest]
    · rw [expandTabsOver_cons htab, if_neg hc, ih hrest, expandTabsFrom.eq_3 _ _ _ _ htab]

end Lines

/-- Line by line is the same as over the whole text, from line feed to line feed. -/
theorem split_expandTabsOver_lineFeed (text : List Char) :
    split '\n' (expandTabsOver ['\n'] 0 text) = expandedLines text := by
  rw [split_expandTabsOver List.mem_cons_self, expandedLines]
  refine List.map_congr_left fun line hline => expandTabsOver_of_not_mem fun c hc hmem => ?_
  obtain rfl := List.mem_singleton.mp hmem
  exact not_mem_of_mem_split hline hc

/-! ### Carriage returns -/

/-- Behind each carriage return that ends at no tab stop, no tab comes before the next carriage
    return or line end. -/
def Aligned (text : List Char) : Prop :=
  ∀ line ∈ split '\n' text, ∀ before between after,
    line = before ++ '\r' :: (between ++ '\t' :: after) → '\t' ∉ between → '\r' ∉ between →
      8 ∣ (expandTabs 8 (before ++ ['\r'])).length

/-- The characters that start a column over. -/
def lineEnds : List Char := ['\n', '\r']

section Returns

variable {column column' : Nat} {line between after : List Char}

theorem modEq_tabStop (column column' : Nat) :
    column + (8 - column % 8) ≡ column' + (8 - column' % 8) [MOD 8] := by
  unfold Nat.ModEq
  omega

/-- How many spaces an expanded line begins with depends on the distance to the next tab stop. -/
theorem takeWhile_space_expandTabsOver (h : column ≡ column' [MOD 8]) (line : List Char) :
    ((expandTabsOver lineEnds column line).takeWhile (· == ' ')).length =
      ((expandTabsFrom 8 column' line).takeWhile (· == ' ')).length := by
  have hspaces : ∀ n, ∀ c ∈ List.replicate n ' ', (c == ' ') = true := fun n c hc =>
    beq_iff_eq.mpr (List.eq_of_mem_replicate hc)
  induction line generalizing column column' with
  | nil => rfl
  | cons c rest ih =>
    by_cases htab : c = '\t'
    · subst htab
      have hpad : 8 - column % 8 = 8 - column' % 8 := congrArg (8 - ·) h
      rw [expandTabsOver_tab, expandTabsFrom, List.takeWhile_append_of_pos (hspaces _),
        List.takeWhile_append_of_pos (hspaces _), List.length_append, List.length_append, hpad,
        ih (hpad ▸ modEq_tabStop column column')]
    · rw [expandTabsOver_cons htab, expandTabsFrom.eq_3 _ _ _ _ htab]
      by_cases hspace : c = ' '
      · subst hspace
        rw [List.takeWhile_cons_of_pos rfl, List.takeWhile_cons_of_pos rfl, List.length_cons,
          List.length_cons, if_neg (by decide), ih (h.add_right 1)]
      · rw [List.takeWhile_cons_of_neg (by simpa using hspace),
          List.takeWhile_cons_of_neg (by simpa using hspace)]

/-- Where a tab is expanded alike, it is equally far from the next tab stop. -/
theorem modEq_of_expandTabsOver_tab
    (h : expandTabsOver lineEnds column ('\t' :: after) = expandTabsFrom 8 column' ('\t' :: after)) :
    column ≡ column' [MOD 8] := by
  have hspaces : ∀ n, ∀ c ∈ List.replicate n ' ', (c == ' ') = true := fun n c hc =>
    beq_iff_eq.mpr (List.eq_of_mem_replicate hc)
  have hlength := congrArg (fun l : List Char => (l.takeWhile (· == ' ')).length) h
  simp only [expandTabsOver_tab, expandTabsFrom] at hlength
  rw [List.takeWhile_append_of_pos (hspaces _), List.takeWhile_append_of_pos (hspaces _),
    List.length_append, List.length_append, List.length_replicate, List.length_replicate,
    takeWhile_space_expandTabsOver (modEq_tabStop column column')] at hlength
  unfold Nat.ModEq
  omega

/-- The first tab of a line is expanded alike only where the columns are equally far from the next tab
    stop. -/
theorem modEq_of_expandTabsOver_eq (htab : '\t' ∉ between) (hreturn : '\r' ∉ between)
    (hline : '\n' ∉ between) (h : expandTabsOver lineEnds column (between ++ '\t' :: after) =
      expandTabsFrom 8 column' (between ++ '\t' :: after)) : column ≡ column' [MOD 8] := by
  induction between generalizing column column' with
  | nil => exact modEq_of_expandTabsOver_tab h
  | cons c between ih =>
    rw [List.mem_cons, not_or] at htab hreturn hline
    have hplain : c ∉ lineEnds := by
      simp [lineEnds, Ne.symm hreturn.1, Ne.symm hline.1]
    rw [List.cons_append, expandTabsOver_cons (Ne.symm htab.1), if_neg hplain,
      expandTabsFrom.eq_3 _ _ _ _ (Ne.symm htab.1)] at h
    exact (ih htab.2 hreturn.2 hline.2 (List.cons.inj h).2).add_right_cancel' 1

/-- What a carriage return does to the column is seen at the first tab behind it. -/
theorem aligned_of_expandTabsOver_eq {before : List Char} (htab : '\t' ∉ between)
    (hreturn : '\r' ∉ between) (hline : '\n' ∉ before ++ between)
    (h : expandTabsOver lineEnds column (before ++ '\r' :: (between ++ '\t' :: after)) =
      expandTabsFrom 8 column' (before ++ '\r' :: (between ++ '\t' :: after))) :
    8 ∣ column' + (expandTabsFrom 8 column' (before ++ ['\r'])).length := by
  induction before generalizing column column' with
  | nil =>
    have hrest := (List.cons.inj h).2
    have hstop := modEq_of_expandTabsOver_eq htab hreturn hline hrest
    exact Nat.modEq_zero_iff_dvd.mp hstop.symm
  | cons c before ih =>
    rw [List.cons_append, List.mem_cons, not_or] at hline
    by_cases hc : c = '\t'
    · subst hc
      have hstop := modEq_of_expandTabsOver_tab h
      have hpad : 8 - column % 8 = 8 - column' % 8 := congrArg (8 - ·) hstop
      rw [List.cons_append, expandTabsOver_tab, expandTabsFrom, hpad] at h
      have hbehind := ih hline.2 (List.append_cancel_left h)
      rw [List.cons_append, expandTabsFrom, List.length_append, List.length_replicate]
      rwa [Nat.add_assoc] at hbehind
    · rw [List.cons_append, expandTabsOver_cons hc, expandTabsFrom.eq_3 _ _ _ _ hc] at h
      have hbehind := ih hline.2 (List.cons.inj h).2
      rw [List.cons_append, expandTabsFrom.eq_3 _ _ _ _ hc, List.length_cons]
      rwa [Nat.add_assoc, Nat.add_comm 1] at hbehind

/-- Where the columns agree at the first tab, and behind each carriage return that a tab follows, the
    line is expanded alike. -/
theorem expandTabsOver_eq_of_aligned (hline : '\n' ∉ line)
    (hfirst : ∀ between after, line = between ++ '\t' :: after → '\t' ∉ between →
      '\r' ∉ between → column ≡ column' [MOD 8])
    (halign : ∀ before between after, line = before ++ '\r' :: (between ++ '\t' :: after) →
      '\t' ∉ between → '\r' ∉ between →
        8 ∣ column' + (expandTabsFrom 8 column' (before ++ ['\r'])).length) :
    expandTabsOver lineEnds column line = expandTabsFrom 8 column' line := by
  induction line generalizing column column' with
  | nil => rfl
  | cons c rest ih =>
    rw [List.mem_cons, not_or] at hline
    by_cases htab : c = '\t'
    · subst htab
      have hpad : 8 - column % 8 = 8 - column' % 8 :=
        congrArg (8 - ·) (hfirst [] rest rfl List.not_mem_nil List.not_mem_nil)
      rw [expandTabsOver_tab, expandTabsFrom, hpad]
      refine congrArg _ (ih hline.2 (fun _ _ _ _ _ => hpad ▸ modEq_tabStop column column') ?_)
      intro before between after hrest hnot hnot'
      have hbehind := halign ('\t' :: before) between after (congrArg _ hrest) hnot hnot'
      rwa [List.cons_append, expandTabsFrom, List.length_append, List.length_replicate,
        ← Nat.add_assoc] at hbehind
    · rw [expandTabsOver_cons htab, expandTabsFrom.eq_3 _ _ _ _ htab]
      refine congrArg _ (ih hline.2 (fun between after hrest hnot hnot' => ?_) ?_)
      · by_cases hreturn : c = '\r'
        · subst hreturn
          have hbehind := halign [] between after (congrArg _ hrest) hnot hnot'
          exact (Nat.modEq_zero_iff_dvd.mpr hbehind).symm
        · have hplain : c ∉ lineEnds := by
            simp [lineEnds, hreturn, Ne.symm hline.1]
          rw [if_neg hplain]
          refine (hfirst (c :: between) after (congrArg _ hrest) ?_ ?_).add_right 1
          · exact fun hmem => (List.mem_cons.mp hmem).elim (Ne.symm htab) hnot
          · exact fun hmem => (List.mem_cons.mp hmem).elim (Ne.symm hreturn) hnot'
      · intro before between after hrest hnot hnot'
        have hbehind := halign (c :: before) between after (congrArg _ hrest) hnot hnot'
        rwa [List.cons_append, expandTabsFrom.eq_3 _ _ _ _ htab, List.length_cons,
          Nat.add_comm _ 1, ← Nat.add_assoc] at hbehind

end Returns

/-- The tabs of a text are expanded alike, whether or not carriage returns start the column over,
    exactly if those that tabs come behind end at tab stops. -/
theorem expandTabsOver_lineEnds_iff (text : List Char) :
    split '\n' (expandTabsOver lineEnds 0 text) = expandedLines text ↔ Aligned text := by
  rw [split_expandTabsOver (by decide), expandedLines, List.map_inj_left]
  constructor
  · rintro h line hline before between after rfl hnot hnot'
    have hplain := not_mem_of_mem_split hline
    have hbehind := aligned_of_expandTabsOver_eq hnot hnot' (fun hmem => hplain ?_) (h _ hline)
    · rwa [Nat.zero_add] at hbehind
    · simp only [List.mem_append, List.mem_cons] at hmem ⊢
      exact hmem.imp_right fun hbetween => .inr (.inl hbetween)
  · intro h line hline
    refine expandTabsOver_eq_of_aligned (not_mem_of_mem_split hline)
      (fun _ _ _ _ _ => Nat.ModEq.rfl) fun before between after heq hnot hnot' => ?_
    rw [Nat.zero_add]
    exact h line hline before between after heq hnot hnot'

/-- Cleaning line by line is cleaning as a whole with columns from line feed to line feed. With columns
    that start over behind carriage returns too, the tabs are expanded alike exactly where carriage
    returns before tabs end at tab stops, and there the whole text is cleaned alike. -/
theorem clean_eq_cleanOver (text : List Char) :
    clean text = cleanOver ['\n'] text ∧
      (expandTabsOver lineEnds 0 text = expandTabsOver ['\n'] 0 text ↔ Aligned text) ∧
      (Aligned text → clean text = cleanOver lineEnds text) := by
  have hlineFeed := split_expandTabsOver_lineFeed text
  refine ⟨?_, ?_, fun haligned => ?_⟩
  · rw [cleanOver_eq, hlineFeed]
    rfl
  · rw [← expandTabsOver_lineEnds_iff, ← hlineFeed]
    refine ⟨congrArg (split '\n'), fun h => ?_⟩
    rw [← join_split '\n' (expandTabsOver lineEnds 0 text), h, join_split]
  · rw [cleanOver_eq, (expandTabsOver_lineEnds_iff text).mpr haligned]
    rfl

/-- A text with a tab behind a carriage return that ends at a tab stop. -/
def alignedText : List Char := "\n 123456\r\tx\n\ty\r".toList

theorem clean_eq_cleanOver_alignedText :
    Aligned alignedText ∧ clean alignedText = cleanOver lineEnds alignedText := by
  have haligned : Aligned alignedText := (clean_eq_cleanOver alignedText).2.1.mp (by decide)
  exact ⟨haligned, (clean_eq_cleanOver alignedText).2.2 haligned⟩

/-- A tab behind a carriage return in the middle of a line is not as wide as at the beginning of one. -/
theorem not_forall_clean_eq_cleanOver : ¬ ∀ text, clean text = cleanOver lineEnds text := by
  intro h
  have hwidth : cleanOver lineEnds "a\rb\tc".toList = "a\rb       c".toList := by decide
  have hfound := (h "a\rb\tc".toList).trans hwidth
  revert hfound
  decide

end SourceSurvey.Docstring
