import Mathlib.Data.List.Forall2
import SourceSurvey.Proofs.History.Rows

/-!
Commits printed as a log and read again. No commit is lost, but one whose author has a bar comes back
with its fields cut in other places. The commits that come back as they were are those without such
an author.
-/

namespace SourceSurvey.History

open Text

/-- The log of some commits: a line for each, with line feeds between them. -/
def printed (commits : List CommitRecord) : List Char := join ['\n'] (commits.map row)

/-- What a history may hold: fields without line ends, and bars in neither the hash nor the date. -/
structure Storable (commit : CommitRecord) : Prop where
  lineEnds : ∀ field ∈ [commit.hash, commit.author, commit.date, commit.message],
    '\n' ∉ field.toList ∧ '\r' ∉ field.toList
  hash : '|' ∉ commit.hash.toList
  date : '|' ∉ commit.date.toList

section Commit

variable {commit : CommitRecord}

theorem row_ne_nil (commit : CommitRecord) : row commit ≠ [] := by
  rw [row_eq]
  simp

theorem Storable.not_mem_row (h : Storable commit) : '\n' ∉ row commit ∧ '\r' ∉ row commit := by
  have hends := h.lineEnds
  simp only [List.mem_cons, List.not_mem_nil, or_false, forall_eq_or_imp, forall_eq] at hends
  simp [row_eq, hends]

/-- The line of a commit is read as one commit, which is written as the same line. -/
theorem exists_commit?_row (commit : CommitRecord) :
    ∃ found, commit? (row commit) = some found ∧ row found = row commit ∧ Unbarred found := by
  obtain ⟨found, hrow, hunbarred⟩ := exists_of_three_le_count (three_le_count_row commit)
  exact ⟨found, commit?_eq_some_iff.mpr ⟨hrow, hunbarred⟩, hrow, hunbarred⟩

end Commit

/-- A commit as it comes back: written as the same line, with bars only in its message. -/
structure Reread (commit found : CommitRecord) : Prop where
  row_eq : row found = row commit
  unbarred : Unbarred found

theorem Reread.eq {commit found : CommitRecord} (h : Reread commit found) (hcommit : Unbarred commit) :
    commit = found :=
  hcommit.eq_of_row_eq h.unbarred h.row_eq.symm

theorem forall₂_reread_filterMap (commits : List CommitRecord) :
    List.Forall₂ Reread commits ((commits.map row).filterMap commit?) := by
  induction commits with
  | nil => exact .nil
  | cons commit commits ih =>
    obtain ⟨found, hfound, hrow, hunbarred⟩ := exists_commit?_row commit
    rw [List.map_cons, List.filterMap_cons_some hfound]
    exact .cons ⟨hrow, hunbarred⟩ ih

/-- The lines of a printed log are those of its commits. -/
theorem lines_printed {stored : List CommitRecord} (h : ∀ commit ∈ stored, Storable commit) :
    lines (printed stored) = stored.map row := by
  apply Breaks.lines_eq
  apply breaks_join
  · simp [row_ne_nil]
  · exact List.forall_mem_map.mpr fun commit hcommit => (h commit hcommit).not_mem_row.1
  · refine List.forall_mem_map.mpr fun commit hcommit hlast => ?_
    exact (h commit hcommit).not_mem_row.2 (List.mem_of_getLast? hlast)

/-- A printed log is read as one commit for each that it was printed for, in their order, each written
    as the same line. These are the commits themselves exactly if no author has a bar. -/
theorem commits_printed_iff {stored : List CommitRecord} (h : ∀ commit ∈ stored, Storable commit) :
    List.Forall₂ Reread stored (commits (printed stored)) ∧
      (commits (printed stored) = stored ↔ ∀ commit ∈ stored, '|' ∉ commit.author.toList) := by
  have hreread : List.Forall₂ Reread stored (commits (printed stored)) := by
    rw [commits, lines_printed h]
    exact forall₂_reread_filterMap stored
  refine ⟨hreread, fun hsame commit hcommit => ?_, fun hauthors => ?_⟩
  · rw [hsame, List.forall₂_same] at hreread
    exact (hreread commit hcommit).unbarred.author
  · have hunbarred : ∀ commit ∈ stored, Unbarred commit := fun commit hcommit =>
      ⟨(h commit hcommit).hash, hauthors commit hcommit, (h commit hcommit).date⟩
    have hsame : List.Forall₂ (· = ·) stored (commits (printed stored)) :=
      ((List.forall₂_and_left _ _).mpr ⟨hunbarred, hreread⟩).imp fun _ _ both => both.2.eq both.1
    rw [List.forall₂_eq_eq_eq] at hsame
    exact hsame.symm

/-- A commit whose message has bars and ends with one. -/
def barredMessage : CommitRecord where
  hash := "9fceb02d0ae598e95dc970b74767f19372d61af8"
  author := ""
  date := "2024-03-01 10:00:00 +0100"
  message := "a|b||"

theorem commits_printed_iff_message :
    (∀ commit ∈ [barredMessage, barredMessage], Storable commit) ∧
      commits (printed [barredMessage, barredMessage]) = [barredMessage, barredMessage] := by
  have hstorable : Storable barredMessage := ⟨by decide, by decide, by decide⟩
  have hall : ∀ commit ∈ [barredMessage, barredMessage], Storable commit := by
    simpa using hstorable
  exact ⟨hall, (commits_printed_iff hall).2.mpr (by decide)⟩

/-- A commit whose author has a bar in the name. -/
def barredAuthor : CommitRecord where
  hash := "9fceb02d0ae598e95dc970b74767f19372d61af8"
  author := "Ada|Lovelace"
  date := "2024-03-01 10:00:00 +0100"
  message := "Fix parser"

/-- The rest of the name is taken for the date, and the date for a part of the message. -/
theorem not_forall_commits_printed :
    ¬ ∀ stored : List CommitRecord, (∀ commit ∈ stored, Storable commit) →
      commits (printed stored) = stored := by
  intro h
  have hstorable : Storable barredAuthor := ⟨by decide, by decide, by decide⟩
  have hfound : commits (printed [barredAuthor]) = [{ barredAuthor with
      author := "Ada", date := "Lovelace", message := "2024-03-01 10:00:00 +0100|Fix parser" }] := by
    decide
  rw [h [barredAuthor] (by simpa using hstorable)] at hfound
  revert hfound
  decide

end SourceSurvey.History
