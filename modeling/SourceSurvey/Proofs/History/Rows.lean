import SourceSurvey.History.Log
import SourceSurvey.Proofs.Text.Lines

/-!
The log of a history against the commits that are read from it. Each line with three bars or more is
one commit, cut at the first three; all other lines could as well be left out.
-/

namespace SourceSurvey.History

open Text

/-- A commit as a line of a log: its fields with a bar between each two. -/
def row (commit : CommitRecord) : List Char :=
  join ['|'] [commit.hash.toList, commit.author.toList, commit.date.toList, commit.message.toList]

/-- Only the message of a commit has bars in it. -/
structure Unbarred (commit : CommitRecord) : Prop where
  hash : '|' ∉ commit.hash.toList
  author : '|' ∉ commit.author.toList
  date : '|' ∉ commit.date.toList

/-- The second text is the first without some of its lines, wherever they stand: lines that end with a
    line feed and have fewer than three bars. Read the other way, such lines have been put in where
    lines start. -/
inductive Thins : List Char → List Char → Prop
  | same (text : List Char) : Thins text text
  | keep {line rest fewer : List Char} (hline : '\n' ∉ line) (hrest : Thins rest fewer) :
    Thins (line ++ '\n' :: rest) (line ++ '\n' :: fewer)
  | drop {line rest fewer : List Char} (hline : '\n' ∉ line) (hbars : line.count '|' < 3)
    (hrest : Thins rest fewer) : Thins (line ++ '\n' :: rest) fewer

/-! ### One line -/

section Line

variable {line : List Char} {commit : CommitRecord}

theorem row_eq (commit : CommitRecord) :
    row commit = commit.hash.toList ++ '|' :: (commit.author.toList ++ '|' ::
      (commit.date.toList ++ '|' :: commit.message.toList)) := by
  simp [row, join, List.intercalate_cons_cons]

theorem three_le_count_row (commit : CommitRecord) : 3 ≤ (row commit).count '|' := by
  simp only [row_eq, List.count_append, List.count_cons_self]
  omega

/-- A line is read as the commit that is written as this line, with bars only in its message. -/
theorem commit?_eq_some_iff : commit? line = some commit ↔ row commit = line ∧ Unbarred commit := by
  constructor
  · intro h
    rw [commit?] at h
    split at h
    · next hash author date message hfields =>
      obtain ⟨behindHash, rfl, hhash, hfields⟩ := exists_of_splitAtMost hfields
      obtain ⟨behindAuthor, rfl, hauthor, hfields⟩ := exists_of_splitAtMost hfields
      obtain ⟨behindDate, rfl, hdate, hfields⟩ := exists_of_splitAtMost hfields
      obtain rfl : message = behindDate := by simpa [splitAtMost_zero] using hfields.symm
      cases h
      exact ⟨by simp [row_eq], by simpa using hhash, by simpa using hauthor, by simpa using hdate⟩
    · cases h
  · rintro ⟨rfl, hhash, hauthor, hdate⟩
    have hfields : splitAtMost '|' 3 (row commit) = [commit.hash.toList, commit.author.toList,
        commit.date.toList, commit.message.toList] := by
      rw [row_eq, splitAtMost_append hhash, splitAtMost_append hauthor, splitAtMost_append hdate,
        splitAtMost_zero]
    simp [commit?, hfields]

/-- A line with three bars or more is some commit. -/
theorem exists_of_three_le_count (h : 3 ≤ line.count '|') :
    ∃ commit, row commit = line ∧ Unbarred commit := by
  obtain ⟨hash, behindHash, rfl, hhash, hbars⟩ := exists_of_lt_count h
  obtain ⟨author, behindAuthor, rfl, hauthor, hbars⟩ := exists_of_lt_count hbars
  obtain ⟨date, message, rfl, hdate, -⟩ := exists_of_lt_count hbars
  refine ⟨⟨String.ofList hash, String.ofList author, String.ofList date, String.ofList message⟩, ?_,
    ?_⟩
  · simp [row_eq]
  · exact ⟨by simpa using hhash, by simpa using hauthor, by simpa using hdate⟩

theorem commit?_eq_none_iff : commit? line = none ↔ line.count '|' < 3 := by
  constructor
  · intro h
    by_contra hbars
    obtain ⟨commit, hrow, hunbarred⟩ := exists_of_three_le_count (Nat.le_of_not_lt hbars)
    rw [commit?_eq_some_iff.mpr ⟨hrow, hunbarred⟩] at h
    cases h
  · intro hbars
    rw [Option.eq_none_iff_forall_ne_some]
    intro commit h
    have hrow := three_le_count_row commit
    rw [(commit?_eq_some_iff.mp h).1] at hrow
    omega

/-- A commit with bars only in its message is known by its line. -/
theorem Unbarred.eq_of_row_eq {other : CommitRecord} (h : Unbarred commit) (hother : Unbarred other)
    (hrow : row commit = row other) : commit = other := by
  have hfound : commit? (row other) = some commit := commit?_eq_some_iff.mpr ⟨hrow, h⟩
  rw [commit?_eq_some_iff.mpr ⟨rfl, hother⟩] at hfound
  exact (Option.some.inj hfound).symm

end Line

/-! ### Logs -/

/-- Written as lines again, the commits are the lines with three bars or more. -/
theorem map_row_filterMap (found : List (List Char)) :
    (found.filterMap commit?).map row = found.filter fun line => 3 ≤ line.count '|' := by
  induction found with
  | nil => rfl
  | cons line others ih =>
    by_cases hbars : 3 ≤ line.count '|'
    · obtain ⟨commit, rfl, hunbarred⟩ := exists_of_three_le_count hbars
      have hcommit : commit? (row commit) = some commit := commit?_eq_some_iff.mpr ⟨rfl, hunbarred⟩
      rw [List.filterMap_cons_some hcommit, List.map_cons, ih, List.filter_cons_of_pos (by simpa)]
    · have hcommit : commit? line = none := commit?_eq_none_iff.mpr (by omega)
      rw [List.filterMap_cons_none hcommit, ih, List.filter_cons_of_neg (by simpa using hbars)]

/-- The commits of a log begin with that of its first line, if it is one. -/
theorem commits_append {line : List Char} (hline : '\n' ∉ line) (rest : List Char) :
    commits (line ++ '\n' :: rest) =
      (commit? (dropCarriageReturn line)).toList ++ commits rest := by
  rw [commits, lines_append hline, List.filterMap_cons]
  cases commit? (dropCarriageReturn line) with
  | none => rfl
  | some commit => rfl

theorem Thins.commits_eq {log fewer : List Char} (h : Thins log fewer) :
    commits fewer = commits log := by
  induction h with
  | same => rfl
  | keep hline _ ih => rw [commits_append hline, commits_append hline, ih]
  | @drop line _ _ hline hbars _ ih =>
    -- A carriage return at its end is no bar, so that the line has too few with or without it.
    have hcount := (dropCarriageReturn_sublist line).count_le '|'
    have hnone : commit? (dropCarriageReturn line) = none := commit?_eq_none_iff.mpr (by omega)
    rw [commits_append hline, hnone, ih, Option.toList_none, List.nil_append]

/-- The commits of a log, each written as a line again, are exactly the lines of the log that have
    three bars or more, in their order, and none of them has a bar in its hash, author or date. Lines
    with fewer bars make no difference, wherever they are put in or left out. -/
theorem commits_rows (log : List Char) :
    ∃ found, Breaks log found ∧ (∀ other, Breaks log other → other = found) ∧
      (commits log).map row = found.filter (fun line => 3 ≤ line.count '|') ∧
      (∀ commit ∈ commits log, Unbarred commit) ∧
      ∀ fewer, Thins log fewer → commits fewer = commits log := by
  refine ⟨lines log, breaks_lines log, fun other hother => hother.lines_eq.symm,
    map_row_filterMap (lines log), ?_, fun fewer hfewer => hfewer.commits_eq⟩
  intro commit hcommit
  obtain ⟨line, -, hline⟩ := List.mem_filterMap.mp hcommit
  exact (commit?_eq_some_iff.mp hline).2

/-- Of these lines one ends with a carriage return and a line feed, two have too few bars, one has bars
    alone and the last has no line feed. -/
theorem commits_rows_mixed :
    let log := "x|y\nh|a|d|s|t\r\n\n||||\nz".toList
    let fewer := "h|a|d|s|t\r\n||||\nz".toList
    Thins log fewer ∧ commits fewer = commits log ∧
      (commits log).map row = ["h|a|d|s|t".toList, "||||".toList] := by
  intro log fewer
  have hbars : Thins "||||\nz".toList "||||\nz".toList := .same _
  have hempty : Thins "\n||||\nz".toList "||||\nz".toList :=
    @Thins.drop [] _ _ (by decide) (by decide) hbars
  have hthins : Thins log fewer :=
    @Thins.drop "x|y".toList _ _ (by decide) (by decide)
      (@Thins.keep "h|a|d|s|t\r".toList _ _ (by decide) hempty)
  obtain ⟨found, hfound, -, hrows, -, hsame⟩ := commits_rows log
  refine ⟨hthins, hsame fewer hthins, ?_⟩
  rw [hrows, ← hfound.lines_eq]
  decide

end SourceSurvey.History
