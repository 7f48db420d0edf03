import Mathlib
import SourceSurvey.Proofs.Scan.Order

/-!
Sorting entries. Each entry is sorted in between those that must come before it and the rest, so that
leaving some out before sorting is leaving them out behind it.
-/

namespace SourceSurvey.Scan

open Files

/-- What is sorted in before an entry. -/
def before (entry : Entry) (found : List Entry) : List Entry :=
  found.filter fun other => !notAfter entry other

/-- What is sorted in behind an entry. -/
def behind (entry : Entry) (found : List Entry) : List Entry := found.filter (notAfter entry)

/-- One more entry is sorted in between what must come before it and the rest. -/
theorem sorted_cons (entry : Entry) (rest : List Entry) :
    sorted rest = before entry (sorted rest) ++ behind entry (sorted rest) ∧
      sorted (entry :: rest) = before entry (sorted rest) ++ entry :: behind entry (sorted rest)
    := by
  obtain ⟨first, last, hcons, hrest, hfirst⟩ :=
    List.mergeSort_cons notAfter_trans notAfter_total entry rest
  have hsorted := List.pairwise_mergeSort notAfter_trans notAfter_total (entry :: rest)
  rw [hcons, List.pairwise_append, List.pairwise_cons] at hsorted
  have hlast : ∀ other ∈ last, notAfter entry other = true := hsorted.2.1.1
  have hbefore : before entry (first ++ last) = first := by
    have hnil : last.filter (fun other => !notAfter entry other) = [] := by
      simpa [List.filter_eq_nil_iff] using hlast
    rw [before, List.filter_append, List.filter_eq_self.mpr hfirst, hnil, List.append_nil]
  have hbehind : behind entry (first ++ last) = last := by
    have hnil : first.filter (notAfter entry) = [] := by
      simpa [List.filter_eq_nil_iff] using hfirst
    rw [behind, List.filter_append, List.filter_eq_self.mpr hlast, hnil, List.nil_append]
  have hrest : sorted rest = first ++ last := hrest
  rw [hrest, hbefore, hbehind]
  exact ⟨rfl, hcons⟩

theorem sorted_nil : sorted [] = [] := List.mergeSort_nil

theorem sorted_filter (p : Entry → Bool) (found : List Entry) :
    sorted (found.filter p) = (sorted found).filter p := by
  induction found with
  | nil => rw [List.filter_nil, sorted_nil, List.filter_nil]
  | cons entry rest ih =>
    have hbefore : (before entry (sorted rest)).filter p =
        before entry (sorted (rest.filter p)) := by
      rw [before, List.filter_comm, ← ih, before]
    have hbehind : (behind entry (sorted rest)).filter p =
        behind entry (sorted (rest.filter p)) := by
      rw [behind, List.filter_comm, ← ih, behind]
    rw [(sorted_cons entry rest).2, List.filter_append, hbefore, List.filter_cons,
      List.filter_cons, hbehind]
    split
    · exact (sorted_cons entry (rest.filter p)).2
    · exact (sorted_cons entry (rest.filter p)).1

theorem sorted_sublist {found others : List Entry} (h : found.Sublist others) :
    (sorted found).Sublist (sorted others) := by
  induction h with
  | slnil => exact List.Sublist.refl _
  | @cons found rest entry hrest ih =>
    obtain ⟨hsplit, hsorted⟩ := sorted_cons entry rest
    rw [hsplit] at ih
    rw [hsorted]
    exact ih.trans ((List.Sublist.refl _).append (List.sublist_cons_self entry _))
  | @cons_cons found rest entry hrest ih =>
    rw [(sorted_cons entry found).2, (sorted_cons entry rest).2]
    exact (ih.filter _).append ((ih.filter _).cons_cons entry)

end SourceSurvey.Scan
