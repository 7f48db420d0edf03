import SourceSurvey.Proofs.Survey.Pool
import SourceSurvey.Survey

/-!
The records of a survey do not depend on how they are made: by a pool whose workers take turns in any
order, or one after another.
-/

namespace SourceSurvey.Survey

open Files

/-- Both ways to make records give the records of the entries, and report every entry once. -/
theorem extraction_eq (t : Tree) (entries : List Scan.Entry) (parallel : Bool) :
    (extraction t entries parallel).1 = records t entries ∧
      (extraction t entries parallel).2.Perm (List.range entries.length) := by
  cases parallel with
  | true => exact Pool.perform_eq _ entries helpers
  | false =>
    have hturn := Pool.inTurn_eq (recordOf t) entries
    rw [extraction, if_neg Bool.false_ne_true, hturn]
    exact ⟨rfl, List.reverse_perm _⟩

/-- A survey does not depend on how its records are made, and reports progress once for each. -/
theorem buildAsking_eq {m : Type → Type} [Monad m] (t : Tree) (request : Request)
    (ask : List UInt8 → m (Except History.Failure (List CommitRecord))) :
    buildAsking t request ask =
      match Scan.entries t request.root request.config.scan with
      | .error failure => pure (.error failure)
      | .ok entries => do
        return .ok (← withHistory request ask (records t entries) entries.length) := by
  rw [buildAsking]
  cases Scan.entries t request.root request.config.scan with
  | error failure => rfl
  | ok entries =>
    obtain ⟨hrecords, hreports⟩ := extraction_eq t entries request.config.parallel
    have hlength := hreports.length_eq
    rw [List.length_range] at hlength
    simp only [hrecords, hlength]

/-- The record of an entry depends on nothing but the entry and what is read from its file: neither
    on the other entries nor on the other files. -/
theorem getElem?_records {t t' : Tree} {entries entries' : List Scan.Entry} {i j : Nat}
    {entry : Scan.Entry} (hi : entries[i]? = some entry) (hj : entries'[j]? = some entry)
    (hread : t.read entry.path = t'.read entry.path) :
    (records t entries)[i]? = (records t' entries')[j]? := by
  have hrecord : Source.recordAt t entry.path entry.relative =
      Source.recordAt t' entry.path entry.relative := by
    rw [Source.recordAt, Source.recordAt, hread]
  rw [records, records, List.getElem?_map, List.getElem?_map, hi, hj]
  simp only [Option.map_some, hrecord]

/-- However the workers of a pool take turns, there is something to do until all is done, which is so
    after four actions for each entry. The records are then those made one after another, in the order
    of the entries, every entry has been reported once, and each record depends on its own entry
    alone. The turns that are taken in a survey are a case of this. -/
theorem records_of_schedule (t : Tree) (entries : List Scan.Entry) (helpers : Nat)
    (actions : List Pool.Action) (p : Pool FileRecord)
    (hrun : (Pool.start helpers entries.length).run (recordOf t) entries actions = some p) :
    (p.results? = none → ∃ a q, p.step (recordOf t) entries a = some q) ∧
    (p.results?.isSome ↔ actions.length = 4 * entries.length) ∧
    (∀ parallel, (extraction t entries parallel).1 = (extraction t entries false).1 ∧
      (extraction t entries parallel).2.Perm (List.range entries.length)) ∧
    ∀ results, p.results? = some results →
      results = (extraction t entries false).1 ∧
      p.reports.Perm (List.range entries.length) ∧
      ∀ (i : Nat) (entry : Scan.Entry), entries[i]? = some entry →
        ∀ (t' : Tree) (entries' : List Scan.Entry) (j : Nat), entries'[j]? = some entry →
          t.read entry.path = t'.read entry.path →
            results[i]? = (extraction t' entries' false).1[j]? := by
  have hsound := (Pool.sound_start (recordOf t) entries helpers).run hrun
  have hload := Pool.load_run hrun
  rw [Pool.load_start] at hload
  obtain ⟨hrecords, -⟩ := extraction_eq t entries false
  refine ⟨fun hnone => ?_, ⟨fun hsome => ?_, fun hlength => ?_⟩, fun parallel => ?_,
    fun results hresults => ?_⟩
  · have hdone : ¬ p.Finished := by
      intro hdone
      rw [(hsound.finished hdone).1] at hnone
      cases hnone
    obtain ⟨a, q, -, hstep⟩ := hsound.exists_next hdone
    exact ⟨a, q, hstep⟩
  · have hdone : p.Finished := by
      by_contra hdone
      rw [Pool.results?_of_not_finished hdone] at hsome
      cases hsome
    have hzero := Pool.load_eq_zero_of_finished hdone
    omega
  · have hdone : p.Finished := Pool.finished_of_load_eq_zero (by omega)
    rw [(hsound.finished hdone).1]
    rfl
  · obtain ⟨hsame, honce⟩ := extraction_eq t entries parallel
    exact ⟨by rw [hsame, hrecords], honce⟩
  · obtain ⟨hall, hreports⟩ := hsound.of_results? hresults
    have hsame : results = records t entries := hall
    refine ⟨by rw [hsame, hrecords], hreports, fun i entry hi t' entries' j hj hread => ?_⟩
    rw [hsame, (extraction_eq t' entries' false).1]
    exact getElem?_records hi hj hread

/-- Two files that are not there. -/
def absentEntries : List Scan.Entry :=
  [⟨Name.of "/a", ['a'], ['a']⟩, ⟨Name.of "/b", ['b'], ['b']⟩]

/-- Turns of two workers, the second of which overtakes the first. -/
def overtaking : List Pool.Action :=
  [.take 0 0, .take 1 1, .proceed 1, .proceed 1, .proceed 1, .proceed 0, .proceed 0, .proceed 0]

/-- The record that is made first is still the second one. -/
theorem records_of_schedule_overtaking :
    ∃ (t : Tree) (p : Pool FileRecord),
      (Pool.start 1 absentEntries.length).run (recordOf t) absentEntries overtaking = some p ∧
      p.reports = [0, 1] ∧ p.results? = some (extraction t absentEntries false).1 := by
  let t : Tree := ⟨.directory [], []⟩
  let p : Pool FileRecord := ⟨[], [.idle, .idle], absentEntries.map (some ∘ recordOf t), [0, 1]⟩
  have hrun : (Pool.start 1 absentEntries.length).run (recordOf t) absentEntries overtaking =
      some p := rfl
  obtain ⟨-, hdone, -, hresults⟩ := records_of_schedule t absentEntries 1 overtaking p hrun
  obtain ⟨results, hsome⟩ := Option.isSome_iff_exists.mp (hdone.mpr rfl)
  obtain ⟨hsame, -⟩ := hresults results hsome
  exact ⟨t, p, hrun, rfl, by rw [hsome, hsame]⟩

end SourceSurvey.Survey
