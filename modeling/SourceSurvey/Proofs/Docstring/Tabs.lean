import Mathlib.Data.Nat.ModEq
import SourceSurvey.Text.Blank
import SourceSurvey.Text.Tabs

/-!
What expanding tabs does to a line: it only replaces tabs by spaces, and how many depends on the
column alone.
-/

namespace SourceSurvey.Text

theorem isBlank_space : isBlank ' ' = true := by decide

theorem isBlank_tab : isBlank '\t' = true := by decide

/-- An expanded line has no characters of its own but spaces. -/
theorem mem_of_mem_expandTabsFrom {size column : Nat} {line : List Char} {c : Char}
    (h : c ∈ expandTabsFrom size column line) : c = ' ' ∨ c ∈ line ∧ c ≠ '\t' := by
  fun_induction expandTabsFrom size column line with
  | case1 => cases h
  | case2 column rest pad ih =>
    obtain hpad | hrest := List.mem_append.mp h
    · exact .inl (List.eq_of_mem_replicate hpad)
    · exact (ih hrest).imp_right fun ⟨hmem, hc⟩ => ⟨List.mem_cons_of_mem _ hmem, hc⟩
  | case3 column d rest hd ih =>
    obtain rfl | hrest := List.mem_cons.mp h
    · exact .inr ⟨List.mem_cons_self, hd⟩
    · exact (ih hrest).imp_right fun ⟨hmem, hc⟩ => ⟨List.mem_cons_of_mem _ hmem, hc⟩

theorem not_mem_tab_expandTabsFrom (size column : Nat) (line : List Char) :
    '\t' ∉ expandTabsFrom size column line := by
  intro h
  obtain heq | ⟨-, hne⟩ := mem_of_mem_expandTabsFrom h
  · cases heq
  · exact hne rfl

/-- Without a tab nothing is expanded. -/
theorem expandTabsFrom_of_not_mem_tab {size column : Nat} {line : List Char} (h : '\t' ∉ line) :
    expandTabsFrom size column line = line := by
  fun_induction expandTabsFrom size column line with
  | case1 => rfl
  | case2 column rest pad _ => exact absurd List.mem_cons_self h
  | case3 column c rest _ ih => rw [ih fun hrest => h (List.mem_cons_of_mem c hrest)]

/-- What is not blank stays, in its order. -/
theorem filter_expandTabsFrom (size column : Nat) (line : List Char) :
    (expandTabsFrom size column line).filter (!isBlank ·) = line.filter (!isBlank ·) := by
  fun_induction expandTabsFrom size column line with
  | case1 => rfl
  | case2 column rest pad ih =>
    rw [List.filter_append, ih, List.filter_cons_of_neg (by simp [isBlank_tab]),
      List.filter_replicate_of_neg (by simp [isBlank_space]), List.nil_append]
  | case3 column c rest _ ih => rw [List.filter_cons, List.filter_cons, ih]

/-- Only the distance to the next tab stop counts. -/
theorem expandTabsFrom_congr {size column column' : Nat} (h : column ≡ column' [MOD size])
    (line : List Char) : expandTabsFrom size column line = expandTabsFrom size column' line := by
  induction line generalizing column column' with
  | nil => rfl
  | cons c rest ih =>
    by_cases hc : c = '\t'
    · subst hc
      have hpad : size - column % size = size - column' % size := congrArg (size - ·) h
      rw [expandTabsFrom, expandTabsFrom, hpad, ih (h.add_right _)]
    · rw [expandTabsFrom.eq_3 _ _ _ _ hc, expandTabsFrom.eq_3 _ _ _ _ hc, ih (h.add_right 1)]

/-- Spaces before a line move its columns. -/
theorem expandTabsFrom_replicate_append (size column n : Nat) (line : List Char) :
    expandTabsFrom size column (List.replicate n ' ' ++ line) =
      List.replicate n ' ' ++ expandTabsFrom size (column + n) line := by
  induction n generalizing column with
  | zero => rfl
  | succ n ih =>
    rw [List.replicate_succ, List.cons_append, expandTabsFrom.eq_3 _ _ _ _ (by decide), ih,
      Nat.succ_add_eq_add_succ]
    rfl

/-- Spaces up to a tab stop leave the expansion of a line as it is, and so do any spaces where there
    is no tab. -/
theorem expandTabs_replicate_append {size n : Nat} {line : List Char}
    (h : size ∣ n ∨ '\t' ∉ line) :
    expandTabs size (List.replicate n ' ' ++ line) =
      List.replicate n ' ' ++ expandTabs size line := by
  rw [expandTabs, expandTabs, expandTabsFrom_replicate_append]
  obtain hdvd | htab := h
  · have hzero : 0 + n ≡ 0 [MOD size] := by
      rw [Nat.zero_add]
      exact Nat.modEq_zero_iff_dvd.mpr hdvd
    rw [expandTabsFrom_congr hzero]
  · rw [expandTabsFrom_of_not_mem_tab htab, expandTabsFrom_of_not_mem_tab htab]

end SourceSurvey.Text
