import Mathlib.Data.List.TakeWhile
import Mathlib.Tactic.SplitIfs
import SourceSurvey.Syntax.Indentation

/-!
What the check of indentation knows of the lines before: the indentations that a line may return to.
They grow from the outermost block to the innermost, and a line that is let pass keeps those below its
own.
-/

namespace SourceSurvey.Syntax

namespace IndentStack

/-- Open blocks are indented further and further, from a line that is not indented on. -/
structure Ordered (stack : IndentStack) : Prop where
  descending : stack.Pairwise fun inner outer => outer.stops < inner.stops
  grounded : ∃ i ∈ stack, i.stops = 0

theorem ordered_base : base.Ordered :=
  ⟨List.pairwise_singleton _ _, ⟨0, 0⟩, List.mem_singleton.mpr rfl, rfl⟩

variable {stack final : IndentStack} {line : Indent}

theorem Ordered.stops_le_top (h : stack.Ordered) {i : Indent} (hi : i ∈ stack) :
    i.stops ≤ stack.top.stops := by
  cases stack with
  | nil => cases hi
  | cons top rest =>
    obtain rfl | hrest := List.mem_cons.mp hi
    · exact Nat.le_refl _
    · exact Nat.le_of_lt (List.rel_of_pairwise_cons h.descending hrest)

/-- Blocks are closed up to the first that is not indented further than the line. -/
theorem unwind_eq_dropWhile {stops : Nat} (h : ∃ i ∈ stack, i.stops ≤ stops) :
    stack.unwind stops = stack.dropWhile fun i => stops < i.stops := by
  fun_induction unwind stops stack with
  | case1 top next rest hless ih =>
    obtain ⟨i, hi, hle⟩ := h
    have hrest : i ∈ next :: rest := by
      obtain rfl | hrest := List.mem_cons.mp hi
      · exact absurd hless (Nat.not_lt_of_le hle)
      · exact hrest
    rw [ih ⟨i, hrest, hle⟩]
    exact (List.dropWhile_cons_of_pos (by simpa using hless)).symm
  | case2 top next rest hless => rw [List.dropWhile_cons_of_neg (by simpa using hless)]
  | case3 stack hshort =>
    obtain ⟨i, hi, hle⟩ := h
    match stack, hshort with
    | [], _ => cases hi
    | [top], _ =>
      obtain rfl := List.mem_singleton.mp hi
      rw [List.dropWhile_cons_of_neg (by simpa using hle)]
    | top :: next :: rest, hshort => exact absurd rfl (hshort top next rest)

/-- The indentations below a line, where the line's own is among them. -/
theorem Ordered.filter_eq (h : stack.Ordered) (before : IndentStack) {after : IndentStack}
    (hstack : stack = before ++ line :: after) :
    stack.filter (fun i => i.stops < line.stops) = after := by
  subst hstack
  obtain ⟨-, hafter, hbefore⟩ := List.pairwise_append.mp h.descending
  rw [List.filter_append, List.filter_cons_of_neg (by simp), List.filter_eq_nil_iff.mpr,
    List.filter_eq_self.mpr, List.nil_append]
  · intro i hi
    exact decide_eq_true (List.rel_of_pairwise_cons hafter hi)
  · intro i hi
    have hless := hbefore i hi line List.mem_cons_self
    simpa using Nat.le_of_lt hless

/-- A line that is let pass stands in front of the indentations below its own, and returns only to one
    of them. -/
theorem Ordered.accept_eq (h : stack.Ordered) (haccept : stack.accept line = .ok final) :
    final = line :: stack.filter (fun i => i.stops < line.stops) ∧
      (line.stops < stack.top.stops → line ∈ stack) := by
  obtain ⟨ground, hground, hzero⟩ := h.grounded
  have hindent : ∀ i : Indent, line.stops = i.stops → line.flat = i.flat → i = line :=
    fun i hstops hflat => by
      cases i
      cases line
      simp_all
  unfold accept at haccept
  simp only at haccept
  split_ifs at haccept with hsame hflat hdeeper hflat hmatched hflat
  · -- as the line before
    cases haccept
    cases stack with
    | nil => cases hground
    | cons top rest =>
      obtain rfl := hindent top hsame hflat
      exact ⟨by rw [h.filter_eq [] rfl], fun hless => absurd hsame (Nat.ne_of_lt hless)⟩
  · -- in a new block
    cases haccept
    refine ⟨?_, fun hless => absurd hdeeper (Nat.not_lt_of_gt hless)⟩
    rw [List.filter_eq_self.mpr]
    intro i hi
    exact decide_eq_true (Nat.lt_of_le_of_lt (h.stops_le_top hi) hdeeper)
  · -- back in an outer block
    cases haccept
    rw [unwind_eq_dropWhile ⟨ground, hground, hzero ▸ Nat.zero_le _⟩] at hmatched hflat ⊢
    have hsplit := List.takeWhile_append_dropWhile (p := fun i => line.stops < i.stops) (l := stack)
    cases houter : stack.dropWhile fun i => line.stops < i.stops with
    | nil =>
      have hall := List.dropWhile_eq_nil_iff.mp houter ground hground
      rw [hzero] at hall
      exact absurd (of_decide_eq_true hall) (Nat.not_lt_zero _)
    | cons top rest =>
      rw [houter] at hmatched hflat hsplit
      obtain rfl := hindent top (Decidable.not_not.mp hmatched) (Decidable.not_not.mp hflat)
      refine ⟨by rw [h.filter_eq _ hsplit.symm], fun _ => ?_⟩
      rw [← hsplit]
      exact List.mem_append_right _ List.mem_cons_self

theorem Ordered.accept (h : stack.Ordered) (haccept : stack.accept line = .ok final) :
    final.Ordered := by
  obtain ⟨rfl, -⟩ := h.accept_eq haccept
  obtain ⟨ground, hground, hzero⟩ := h.grounded
  refine ⟨List.pairwise_cons.mpr ⟨fun i hi => ?_, h.descending.filter _⟩, ?_⟩
  · exact of_decide_eq_true (List.mem_filter.mp hi).2
  · by_cases hline : line.stops = 0
    · exact ⟨line, List.mem_cons_self, hline⟩
    · have hless : ground.stops < line.stops := by omega
      exact ⟨ground, List.mem_cons_of_mem _ (List.mem_filter.mpr ⟨hground, decide_eq_true hless⟩),
        hzero⟩

theorem exists_of_run_append {first second : List Indent}
    (h : (first ++ second).foldlM accept stack = .ok final) :
    ∃ middle, first.foldlM accept stack = .ok middle ∧ second.foldlM accept middle = .ok final := by
  rw [List.foldlM_append] at h
  cases hfirst : first.foldlM accept stack with
  | error problem =>
    rw [hfirst] at h
    cases h
  | ok middle =>
    rw [hfirst] at h
    exact ⟨middle, rfl, h⟩

theorem exists_of_run_cons {rest : List Indent}
    (h : (line :: rest).foldlM accept stack = .ok final) :
    ∃ next, stack.accept line = .ok next ∧ rest.foldlM accept next = .ok final := by
  rw [List.foldlM_cons] at h
  cases haccept : stack.accept line with
  | error problem =>
    rw [haccept] at h
    cases h
  | ok next =>
    rw [haccept] at h
    exact ⟨next, rfl, h⟩

/-- The indentations of the open blocks that are indented less than some column. -/
def below (stops : Nat) (stack : IndentStack) : IndentStack := stack.filter fun i => i.stops < stops

/-- Lines that begin at some column or further to the right change nothing below the column. -/
theorem Ordered.below_of_run {stops : Nat} {lines : List Indent} (h : stack.Ordered)
    (htop : stops ≤ stack.top.stops) (hlines : ∀ i ∈ lines, stops ≤ i.stops)
    (hrun : lines.foldlM IndentStack.accept stack = .ok final) :
    final.Ordered ∧ final.below stops = stack.below stops ∧ stops ≤ final.top.stops := by
  induction lines generalizing stack with
  | nil =>
    cases hrun
    exact ⟨h, rfl, htop⟩
  | cons line rest ih =>
    obtain ⟨hline, hrest⟩ := List.forall_mem_cons.mp hlines
    obtain ⟨next, haccept, hrun⟩ := exists_of_run_cons hrun
    obtain ⟨hnext, -⟩ := h.accept_eq haccept
    have hbelow : next.below stops = stack.below stops := by
      rw [hnext, below, below, List.filter_cons_of_neg (by simpa using hline), List.filter_filter]
      refine List.filter_congr fun i _ => ?_
      have himp : i.stops < stops → i.stops < line.stops := fun hi => Nat.lt_of_lt_of_le hi hline
      simpa using himp
    rw [← hbelow]
    exact ih (h.accept haccept) (by rw [hnext]; exact hline) hrest hrun

/-- A line that begins further to the left than all those since some line returns to an indentation
    from before that line. -/
theorem Ordered.stops_le_of_run {first next : Indent} {lines : List Indent} (h : stack.Ordered)
    (hlines : ∀ i ∈ lines, first.stops ≤ i.stops) (hnext : next.stops < first.stops)
    (hrun : (first :: (lines ++ [next])).foldlM IndentStack.accept stack = .ok final) :
    next.stops ≤ stack.top.stops := by
  obtain ⟨opened, hopened, hrun⟩ := exists_of_run_cons hrun
  obtain ⟨inside, hinside, hrun⟩ := exists_of_run_append hrun
  obtain ⟨closed, hclosed, -⟩ := exists_of_run_cons hrun
  have heq := (h.accept_eq hopened).1
  have htop : opened.top.stops = first.stops := by rw [heq]; rfl
  obtain ⟨hordered, hbelow, hdeep⟩ :=
    (h.accept hopened).below_of_run (Nat.le_of_eq htop.symm) hlines hinside
  -- the line returns to an indentation that was there before the block
  have hmem := (hordered.accept_eq hclosed).2 (Nat.lt_of_lt_of_le hnext hdeep)
  have hlow : next ∈ inside.below first.stops := List.mem_filter.mpr ⟨hmem, decide_eq_true hnext⟩
  rw [hbelow, heq, below, List.filter_cons_of_neg (by simp)] at hlow
  exact h.stops_le_top (List.mem_filter.mp (List.mem_filter.mp hlow).1).1

end IndentStack

end SourceSurvey.Syntax
