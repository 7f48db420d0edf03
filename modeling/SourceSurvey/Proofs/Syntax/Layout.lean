import SourceSurvey.Syntax.Layout
import SourceSurvey.Syntax.Violation

/-!
The layout between two tokens: what ends its measuring, and what it says about the margin of the
second token.
-/

namespace SourceSurvey.Syntax

/-- A character that is no blank stops the measuring. -/
theorem over_other {c : Char} (hc : ['\n', ' ', '\t', '\r', '\x0c', '\\'].contains c = false)
    (layout : Layout) (rest : List Char) :
    layout.over (c :: rest) = Layout.pastBlock { layout with blocked := true } (c :: rest) := by
  rw [Layout.over.eq_def]
  split <;> simp_all

/-- So does a backslash that joins no lines. -/
theorem over_backslash {c : Char} (hfeed : c ≠ '\n') (hreturn : c ≠ '\r') (layout : Layout)
    (rest : List Char) :
    layout.over ('\\' :: c :: rest) =
      Layout.pastBlock { layout with blocked := true } ('\\' :: c :: rest) := by
  rw [Layout.over.eq_def]
  split <;> simp_all

/-- How blanks are read, the columns of separators apart: what layout is found over a text. -/
inductive Layout.Reads : Layout → List Char → Layout → Prop
  | done (layout : Layout) : Reads layout [] layout
  | lineFeed {layout result : Layout} {rest : List Char}
      (h : Reads { layout with breaks := true, column := 0 } rest result) :
      Reads layout ('\n' :: rest) result
  | carriageReturn {layout result : Layout} {rest : List Char}
      (h : Reads { layout with column := 0 } rest result) : Reads layout ('\r' :: rest) result
  | separator {layout result : Layout} {c : Char} {rest : List Char} (column : Nat)
      (hc : c ∈ [' ', '\t', '\x0c']) (h : Reads { layout with column := column } rest result) :
      Reads layout (c :: rest) result
  | joined {layout result : Layout} {ending rest : List Char}
      (hending : ending = ['\n'] ∨ ending = ['\r', '\n'])
      (h : Reads { layout with spliced := true } rest result) :
      Reads layout ('\\' :: (ending ++ rest)) result
  | stopped {layout : Layout} {c : Char} {rest : List Char}
      (hc : c ∉ [' ', '\t', '\n', '\r', '\x0c']) :
      Reads layout (c :: rest) (Layout.pastBlock { layout with blocked := true } (c :: rest))

theorem Layout.reads_over (layout : Layout) (gap : List Char) :
    layout.Reads gap (layout.over gap) := by
  fun_induction Layout.over layout gap with
  | case1 layout => exact .done layout
  | case2 layout rest ih => exact .lineFeed ih
  | case3 layout rest ih | case4 layout rest ih | case6 layout rest ih =>
    exact .separator _ (by decide) ih
  | case5 layout rest ih => exact .carriageReturn ih
  | case7 layout rest ih => exact .joined (.inl rfl) ih
  | case8 layout rest ih => exact .joined (.inr rfl) ih
  | case9 layout text hnil hfeed hspace htab hreturn hform =>
    obtain ⟨c, rest, rfl⟩ := List.exists_cons_of_ne_nil hnil
    refine .stopped fun hc => ?_
    simp only [List.mem_cons, List.not_mem_nil, or_false] at hc
    obtain rfl | rfl | rfl | rfl | rfl := hc
    · exact hspace rest rfl
    · exact htab rest rfl
    · exact hfeed rest rfl
    · exact hreturn rest rfl
    · exact hform rest rfl

theorem blocked_pastBlock (gap : List Char) (layout : Layout) :
    (layout.pastBlock gap).blocked = layout.blocked := by
  fun_induction Layout.pastBlock layout gap with
  | case1 => rfl
  | case2 layout rest ih => exact ih
  | case3 layout c rest _ ih =>
    rw [ih]
    split <;> rfl

/-! ### What a measure tells -/

theorem breaks_pastBlock (gap : List Char) (layout : Layout) :
    (layout.pastBlock gap).breaks = layout.breaks := by
  fun_induction Layout.pastBlock layout gap with
  | case1 => rfl
  | case2 layout rest ih => exact ih
  | case3 layout c rest _ ih =>
    rw [ih]
    split <;> rfl

theorem breaks_over {gap : List Char} {layout : Layout} (h : layout.breaks = true) :
    (layout.over gap).breaks = true := by
  have hreads := layout.reads_over gap
  generalize layout.over gap = result at hreads ⊢
  induction hreads with
  | done => exact h
  | lineFeed _ ih => exact ih rfl
  | carriageReturn _ ih | separator _ _ _ ih | joined _ _ ih => exact ih h
  | stopped =>
    rw [breaks_pastBlock]
    exact h

theorem spliced_pastBlock (gap : List Char) (layout : Layout) :
    (layout.pastBlock gap).spliced = (layout.spliced || gap.contains '\\') := by
  fun_induction Layout.pastBlock layout gap with
  | case1 => simp
  | case2 layout rest ih => simp [ih]
  | case3 layout c rest hc ih =>
    rw [ih, List.contains_cons, beq_false_of_ne fun h => hc h.symm, Bool.false_or]
    split <;> rfl

theorem spliced_over (gap : List Char) (layout : Layout) :
    (layout.over gap).spliced = (layout.spliced || gap.contains '\\') := by
  have hreads := layout.reads_over gap
  generalize layout.over gap = result at hreads ⊢
  induction hreads with
  | done => simp
  | lineFeed _ ih | carriageReturn _ ih => simp [ih]
  | separator _ hc _ ih =>
    rw [ih, List.contains_cons, beq_false_of_ne, Bool.false_or]
    rintro rfl
    exact absurd hc (by decide)
  | joined _ _ ih => simp [ih]
  | stopped => exact spliced_pastBlock _ _

theorem spliced_ofGap (gap : List Char) : (Layout.ofGap gap).spliced = gap.contains '\\' := by
  rw [Layout.ofGap, spliced_over, Bool.false_or]

theorem blocked_of_masked_over {gap : List Char} {layout : Layout}
    (hlayout : layout.masked = true → layout.blocked = true)
    (h : (layout.over gap).masked = true) : (layout.over gap).blocked = true := by
  have hreads := layout.reads_over gap
  generalize layout.over gap = result at hreads h ⊢
  induction hreads with
  | done => exact hlayout h
  | lineFeed _ ih | carriageReturn _ ih | separator _ _ _ ih | joined _ _ ih => exact ih hlayout h
  | stopped => exact blocked_pastBlock _ _

/-- A blank without width after the last joined line has stopped the measuring. -/
theorem blocked_of_masked {gap : List Char} (h : (Layout.ofGap gap).masked = true) :
    (Layout.ofGap gap).blocked = true := blocked_of_masked_over nofun h

theorem masked_or_spliced_pastBlock {gap : List Char} {layout : Layout}
    (h : layout.masked = true ∨ layout.spliced = true) :
    (layout.pastBlock gap).masked = true ∨ (layout.pastBlock gap).spliced = true := by
  fun_induction Layout.pastBlock layout gap with
  | case1 => exact h
  | case2 layout rest ih => exact ih (.inr rfl)
  | case3 layout c rest _ ih =>
    refine ih ?_
    split
    · exact h
    · exact .inl rfl

theorem masked_or_spliced_over {gap : List Char} {layout : Layout}
    (hlayout : layout.blocked = true → layout.masked = true ∨ layout.spliced = true)
    (h : (layout.over gap).blocked = true) :
    (layout.over gap).masked = true ∨ (layout.over gap).spliced = true := by
  have hreads := layout.reads_over gap
  generalize layout.over gap = result at hreads h ⊢
  induction hreads with
  | done => exact hlayout h
  | lineFeed _ ih | carriageReturn _ ih | separator _ _ _ ih => exact ih hlayout h
  | joined _ _ ih => exact ih (fun _ => .inr rfl) h
  | @stopped layout c rest hc =>
    by_cases hbackslash : c = '\\'
    · rw [hbackslash, Layout.pastBlock]
      exact masked_or_spliced_pastBlock (.inr rfl)
    · rw [Layout.pastBlock.eq_3 _ _ _ hbackslash, if_neg]
      · exact masked_or_spliced_pastBlock (.inl rfl)
      · intro hblank
        simp only [Bool.or_eq_true, beq_iff_eq] at hblank
        exact hc (by simpa [or_assoc] using hblank)

/-- Behind what has stopped the measuring comes a joined line, or it comes after the last one. -/
theorem masked_or_spliced_of_blocked {gap : List Char} (h : (Layout.ofGap gap).blocked = true) :
    (Layout.ofGap gap).masked = true ∨ (Layout.ofGap gap).spliced = true :=
  masked_or_spliced_over nofun h

/-! ### Margins -/

/-- Only indentation comes before a place on its line, which begins behind some offset. -/
structure Place.Indented (start : Nat) (p : Place) : Prop where
  margin : p.margin.all isIndentChar = true
  late : start < p.marginStart

theorem Place.le_offset_after {start : Nat} {p : Place} (h : start ≤ p.offset) (c : Char) :
    start ≤ (p.after c).offset := Nat.le_succ_of_le h

theorem Place.indented_after {start : Nat} {p : Place} {c : Char} (h : start ≤ p.offset)
    (hc : c = '\n' ∨ c = '\r') : (p.after c).Indented start where
  margin := by simp [Place.after, hc]
  late := by
    simp only [Place.after, Bool.or_eq_true, decide_eq_true_eq, hc, if_true]
    exact Nat.lt_succ_of_le h

theorem Place.Indented.after {start : Nat} {p : Place} {c : Char} (h : p.Indented start)
    (hindent : isIndentChar c = true) (hc : ¬ (c = '\n' ∨ c = '\r')) :
    (p.after c).Indented start where
  margin := by simpa [Place.after, hc, hindent] using h.margin
  late := by simpa [Place.after, hc] using h.late

/-- Blanks in which a line ends, and which are measured to their end, leave nothing but indentation
    between the last line end and what follows. -/
theorem indented_over {gap : List Char} {layout : Layout} {p : Place} {start : Nat}
    (hstart : start ≤ p.offset) (hp : layout.breaks = true → p.Indented start)
    (hclear : (layout.over gap).blocked = false) (hbreaks : (layout.over gap).breaks = true) :
    (p.over gap).Indented start := by
  have hreads := layout.reads_over gap
  generalize layout.over gap = result at hreads hclear hbreaks
  induction hreads generalizing p with
  | done => exact hp hbreaks
  | lineFeed _ ih =>
    exact ih (Place.le_offset_after hstart _) (fun _ => Place.indented_after hstart (.inl rfl))
      hclear hbreaks
  | carriageReturn _ ih =>
    exact ih (Place.le_offset_after hstart _) (fun _ => Place.indented_after hstart (.inr rfl))
      hclear hbreaks
  | @separator _ _ c _ _ hc _ ih =>
    have hindent : isIndentChar c = true ∧ ¬ (c = '\n' ∨ c = '\r') := by
      simp only [List.mem_cons, List.not_mem_nil, or_false] at hc
      obtain rfl | rfl | rfl := hc <;> decide
    exact ih (Place.le_offset_after hstart _) (fun h => (hp h).after hindent.1 hindent.2)
      hclear hbreaks
  | joined hending _ ih =>
    have hslash := Place.le_offset_after hstart '\\'
    obtain rfl | rfl := hending
    · exact ih (Place.le_offset_after hslash _) (fun _ => Place.indented_after hslash (.inl rfl))
        hclear hbreaks
    · have hreturn := Place.le_offset_after hslash '\r'
      exact ih (Place.le_offset_after hreturn _)
        (fun _ => Place.indented_after hreturn (.inl rfl)) hclear hbreaks
  | stopped =>
    rw [blocked_pastBlock] at hclear
    cases hclear

end SourceSurvey.Syntax
