import SourceSurvey.Proofs.LineEnds.Text
import SourceSurvey.Proofs.Syntax.Layout
import SourceSurvey.Proofs.Syntax.Lexing

/-!
Blanks in a text and in the same text with its line ends written in the other way: they reach as far
in both, and say the same about lines and columns.
-/

namespace SourceSurvey.Syntax

open SourceSurvey.Text

theorem gapLength_backslash {c : Char} (hfeed : c ≠ '\n') (hreturn : c ≠ '\r') (rest : List Char) :
    gapLength ('\\' :: c :: rest) = 0 := by
  rw [gapLength.eq_def]
  split
  · rfl
  · next heq => exact absurd (List.cons.inj (List.cons.inj heq).2).1 hfeed
  · next heq => exact absurd (List.cons.inj (List.cons.inj heq).2).1 hreturn
  · next heq => cases heq
  · next heq =>
    obtain ⟨rfl, -⟩ := List.cons.inj heq
    rfl

/-- Where no carriage return stands, blanks reach up to the same token. -/
theorem gapLength_crlf {text : List Char} (hreturn : '\r' ∉ text) :
    gapLength (crlf text) = (crlf (text.take (gapLength text))).length := by
  fun_induction gapLength text with
  | case1 => rfl
  | case2 rest ih =>
    have hrest : '\r' ∉ rest := fun h => hreturn (by simp [h])
    rw [crlf_cons (by decide), crlf_lineFeed, gapLength, ih hrest, List.take_succ_cons,
      List.take_succ_cons, crlf_cons (by decide), crlf_lineFeed]
    rfl
  | case3 rest ih => exact absurd (by simp) hreturn
  | case4 => rfl
  | case5 c rest hfeed hreturn' hlast hseparator ih =>
    have hrest : '\r' ∉ rest := List.not_mem_of_not_mem_cons hreturn
    have hbackslash := ne_backslash_of_isSeparator hseparator
    rw [List.take_succ_cons]
    by_cases hc : c = '\n'
    · subst hc
      rw [crlf_lineFeed, crlf_lineFeed, gapLength_cons (by decide), gapLength_cons (by decide),
        if_pos (by decide), if_pos (by decide), ih hrest]
      rfl
    · rw [crlf_cons hc, crlf_cons hc, gapLength_cons hbackslash, if_pos hseparator, ih hrest]
      rfl
  | case6 c rest hfeed hreturn' hlast hseparator =>
    have hc : c ≠ '\n' := by
      rintro rfl
      exact hseparator (by decide)
    rw [crlf_cons hc]
    by_cases hbackslash : c = '\\'
    · subst hbackslash
      match rest with
      | [] => exact absurd rfl (hlast rfl)
      | d :: rest =>
        have hd : d ≠ '\n' := by
          rintro rfl
          exact hfeed rest rfl rfl
        have hd' : d ≠ '\r' := by
          rintro rfl
          exact hreturn (by simp)
        rw [crlf_cons hd, gapLength_backslash hd hd']
        rfl
    · rw [gapLength_cons hbackslash, if_neg hseparator]
      rfl

/-- Reading on over blanks once measuring has stopped. -/
theorem pastBlock_crlf (layout : Layout) (gap : List Char) :
    layout.pastBlock (crlf gap) = layout.pastBlock gap := by
  fun_induction Layout.pastBlock layout gap with
  | case1 => rfl
  | case2 layout rest ih => rw [crlf_cons (by decide), Layout.pastBlock, ih]
  | case3 layout c rest hbackslash ih =>
    by_cases hc : c = '\n'
    · subst hc
      rw [crlf_lineFeed, Layout.pastBlock, Layout.pastBlock]
      · exact ih
      · decide
      · decide
    · rw [crlf_cons hc, Layout.pastBlock, ih]
      exact hbackslash

theorem over_crlf (layout : Layout) {gap : List Char} (hreturn : '\r' ∉ gap) :
    layout.over (crlf gap) = layout.over gap := by
  fun_induction Layout.over layout gap with
  | case1 => rfl
  | case2 layout rest ih =>
    exact ih (List.not_mem_of_not_mem_cons hreturn)
  | case3 layout rest ih =>
    exact ih (List.not_mem_of_not_mem_cons hreturn)
  | case4 layout rest ih =>
    exact ih (List.not_mem_of_not_mem_cons hreturn)
  | case5 layout rest ih =>
    exact absurd List.mem_cons_self hreturn
  | case6 layout rest ih =>
    exact ih (List.not_mem_of_not_mem_cons hreturn)
  | case7 layout rest ih =>
    exact ih (List.not_mem_of_not_mem_cons (List.not_mem_of_not_mem_cons hreturn))
  | case8 layout rest ih => exact absurd (by simp) hreturn
  | case9 layout text hnil hfeed hspace htab hreturn' hform hjoin hjoin' =>
    rw [← pastBlock_crlf]
    obtain ⟨c, rest, rfl⟩ := List.exists_cons_of_ne_nil hnil
    have hc : c ≠ '\n' := by
      rintro rfl
      exact hfeed rest rfl
    rw [crlf_cons hc]
    by_cases hbackslash : c = '\\'
    · subst hbackslash
      cases rest with
      | nil => rfl
      | cons d rest =>
        have hd : d ≠ '\n' := by
          rintro rfl
          exact hjoin rest rfl
        have hd' : d ≠ '\r' := by
          rintro rfl
          exact hreturn (by simp)
        rw [crlf_cons hd, over_backslash hd hd']
    · refine over_other ?_ layout _
      rw [← Bool.not_eq_true]
      intro hmem
      simp only [List.contains_iff_mem, List.mem_cons, List.not_mem_nil, or_false] at hmem
      obtain rfl | rfl | rfl | rfl | rfl | rfl := hmem
      · exact hc rfl
      · exact hspace rest rfl
      · exact htab rest rfl
      · exact hreturn' rest rfl
      · exact hform rest rfl
      · exact hbackslash rfl

/-- Blanks say the same in both texts. -/
theorem ofGap_crlf {gap : List Char} (hreturn : '\r' ∉ gap) :
    Layout.ofGap (crlf gap) = Layout.ofGap gap := by
  have htight : (crlf gap).isEmpty = gap.isEmpty := by
    rw [Bool.eq_iff_iff, List.isEmpty_iff, List.isEmpty_iff, crlf_eq_nil]
  rw [Layout.ofGap, Layout.ofGap, htight, over_crlf _ hreturn]

/-- The first carriage return of some blanks may be missing. -/
theorem ofGap_lineFeed {gap : List Char} (hreturn : '\r' ∉ gap) :
    Layout.ofGap ('\n' :: crlf gap) = Layout.ofGap ('\n' :: gap) :=
  over_crlf _ hreturn

end SourceSurvey.Syntax
