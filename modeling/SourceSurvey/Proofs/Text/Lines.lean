import Mathlib.Data.List.Basic
import Mathlib.Data.Nat.Init
import SourceSurvey.Text.Split

/-!
The lines of a text, by the line ends that part them, and the fields of a line up to some number of
separators.
-/

namespace SourceSurvey.Text

/-! ### Lines -/

/-- A text is parted into lines. A line feed ends a line, and so does a carriage return together with
    the line feed behind it; what is left behind the last line feed is a line if it is not empty. -/
inductive Breaks : List Char → List (List Char) → Prop
  | nil : Breaks [] []
  | last {line : List Char} (hne : line ≠ []) (hline : '\n' ∉ line) : Breaks line [line]
  | feed {line rest : List Char} {lines : List (List Char)} (hline : '\n' ∉ line)
    (hlast : line.getLast? ≠ some '\r') (hrest : Breaks rest lines) :
    Breaks (line ++ '\n' :: rest) (line :: lines)
  | returnFeed {line rest : List Char} {lines : List (List Char)} (hline : '\n' ∉ line)
    (hrest : Breaks rest lines) : Breaks (line ++ '\r' :: '\n' :: rest) (line :: lines)

theorem dropCarriageReturn_of_ne {line : List Char} (h : line.getLast? ≠ some '\r') :
    dropCarriageReturn line = line :=
  if_neg h

theorem dropCarriageReturn_append (line : List Char) :
    dropCarriageReturn (line ++ ['\r']) = line := by
  simp [dropCarriageReturn]

theorem dropCarriageReturn_sublist (line : List Char) :
    (dropCarriageReturn line).Sublist line := by
  rw [dropCarriageReturn]
  split
  · exact List.dropLast_sublist line
  · exact List.Sublist.refl line

theorem lines_of_not_mem {line : List Char} (hne : line ≠ []) (hline : '\n' ∉ line) :
    lines line = [line] := by
  simp only [lines, split_of_not_mem hline, List.dropLast_singleton, List.map_nil, List.nil_append,
    List.getLast?_singleton]

/-- A line up to a line feed is the first of the lines. -/
theorem lines_append {line : List Char} (hline : '\n' ∉ line) (rest : List Char) :
    lines (line ++ '\n' :: rest) = dropCarriageReturn line :: lines rest := by
  have hne := split_ne_nil '\n' rest
  simp only [lines, split_append, split_of_not_mem hline, List.dropLast_append_of_ne_nil hne,
    List.getLast?_append_of_ne_nil _ hne]
  rfl

theorem Breaks.lines_eq {text : List Char} {found : List (List Char)} (h : Breaks text found) :
    lines text = found := by
  induction h with
  | nil => rfl
  | last hne hline => exact lines_of_not_mem hne hline
  | feed hline hlast _ ih => rw [lines_append hline, dropCarriageReturn_of_ne hlast, ih]
  | @returnFeed line rest _ hline _ ih =>
    have hreturn : '\n' ∉ line ++ ['\r'] := by simpa using hline
    have htext : line ++ '\r' :: '\n' :: rest = (line ++ ['\r']) ++ '\n' :: rest := by simp
    rw [htext, lines_append hreturn, dropCarriageReturn_append, ih]

theorem breaks_lines (text : List Char) : Breaks text (lines text) := by
  induction hn : text.length using Nat.strong_induction_on generalizing text with
  | _ n ih =>
    subst hn
    by_cases hfeed : '\n' ∈ text
    · obtain ⟨line, rest, rfl, hline⟩ := List.eq_append_cons_of_mem hfeed
      have hshorter : rest.length < (line ++ '\n' :: rest).length := by
        simp only [List.length_append, List.length_cons]
        omega
      have hrest := ih rest.length hshorter rest rfl
      rw [lines_append hline]
      by_cases hreturn : line.getLast? = some '\r'
      · obtain ⟨inner, rfl⟩ := List.getLast?_eq_some_iff.mp hreturn
        rw [dropCarriageReturn_append, List.append_assoc]
        exact .returnFeed (fun hmem => hline (by simp [hmem])) hrest
      · rw [dropCarriageReturn_of_ne hreturn]
        exact .feed hline hreturn hrest
    · cases text with
      | nil => exact .nil
      | cons c rest =>
        rw [lines_of_not_mem (List.cons_ne_nil c rest) hfeed]
        exact .last (List.cons_ne_nil c rest) hfeed

/-- Lines with line feeds between them are parted again, if none of them is empty, goes on behind a
    line feed or ends with a carriage return. -/
theorem breaks_join {found : List (List Char)} (hne : ∀ line ∈ found, line ≠ [])
    (hline : ∀ line ∈ found, '\n' ∉ line) (hlast : ∀ line ∈ found, line.getLast? ≠ some '\r') :
    Breaks (join ['\n'] found) found := by
  induction found with
  | nil => exact .nil
  | cons line others ih =>
    obtain ⟨hfirst, hothers⟩ := List.forall_mem_cons.mp hne
    obtain ⟨hfirstLine, hotherLines⟩ := List.forall_mem_cons.mp hline
    obtain ⟨hfirstLast, hotherLasts⟩ := List.forall_mem_cons.mp hlast
    cases others with
    | nil =>
      have hjoin : join ['\n'] [line] = line := by simp [join]
      rw [hjoin]
      exact .last hfirst hfirstLine
    | cons next others =>
      have hjoin : join ['\n'] (line :: next :: others) =
          line ++ '\n' :: join ['\n'] (next :: others) := by
        simp [join, List.intercalate_cons_cons]
      rw [hjoin]
      exact .feed hfirstLine hfirstLast (ih hothers hotherLines hotherLasts)

/-! ### Fields -/

section Fields

variable {α : Type} [DecidableEq α] {separator : α} {field text : List α} {n : Nat}

theorem splitAtMost_zero (separator : α) (text : List α) : splitAtMost separator 0 text = [text] := by
  cases text with
  | nil => rfl
  | cons => rfl

theorem splitAtMost_of_not_mem (h : separator ∉ text) (n : Nat) :
    splitAtMost separator n text = [text] := by
  induction text with
  | nil => cases n <;> rfl
  | cons c rest ih =>
    rw [List.mem_cons, not_or] at h
    cases n with
    | zero => exact splitAtMost_zero separator _
    | succ n => rw [splitAtMost, if_neg (Ne.symm h.1), ih h.2]

/-- The first field ends at the first separator. -/
theorem splitAtMost_append (h : separator ∉ field) (n : Nat) (rest : List α) :
    splitAtMost separator (n + 1) (field ++ separator :: rest) =
      field :: splitAtMost separator n rest := by
  induction field with
  | nil => exact if_pos rfl
  | cons c field ih =>
    rw [List.mem_cons, not_or] at h
    rw [List.cons_append, splitAtMost, if_neg (Ne.symm h.1), ih h.2]

/-- A second field is there only behind a separator, before which the first field is. -/
theorem exists_of_splitAtMost {next : List α} {others : List (List α)}
    (h : splitAtMost separator (n + 1) text = field :: next :: others) :
    ∃ rest, text = field ++ separator :: rest ∧ separator ∉ field ∧
      splitAtMost separator n rest = next :: others := by
  by_cases hmem : separator ∈ text
  · obtain ⟨first, rest, rfl, hfirst⟩ := List.eq_append_cons_of_mem hmem
    rw [splitAtMost_append hfirst] at h
    obtain ⟨rfl, hrest⟩ := List.cons.inj h
    exact ⟨rest, rfl, hfirst, hrest⟩
  · rw [splitAtMost_of_not_mem hmem] at h
    cases h

/-- A text with more than some number of separators has a first field and then at least that many. -/
theorem exists_of_lt_count (h : n < text.count separator) :
    ∃ first rest, text = first ++ separator :: rest ∧ separator ∉ first ∧
      n ≤ rest.count separator := by
  have hmem : separator ∈ text := List.count_pos_iff.mp (by omega)
  obtain ⟨first, rest, rfl, hfirst⟩ := List.eq_append_cons_of_mem hmem
  refine ⟨first, rest, rfl, hfirst, ?_⟩
  rw [List.count_append, List.count_eq_zero_of_not_mem hfirst, List.count_cons_self] at h
  omega

end Fields

end SourceSurvey.Text
