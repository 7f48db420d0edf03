import SourceSurvey.Proofs.Survey.Extraction

/-!
What a history contributes to a survey: commits or one warning, and nothing else. The records of the
files are the same whatever history there is, and the source is asked at most once.
-/

namespace SourceSurvey.Survey

open Files

/-- A source that notes the directories it is asked for, the latest first. -/
def noting (history : HistorySource) (directory : List UInt8) :
    StateM (List (List UInt8)) (Except History.Failure (List CommitRecord)) := do
  modify (directory :: ·)
  return history directory

/-- A survey that is built while its source takes notes, and the notes. -/
def buildNoting (t : Tree) (request : Request) (history : HistorySource) :
    Except Scan.Failure Survey × List (List UInt8) :=
  (buildAsking t request (noting history)).run []

/-- What becomes of a history in a survey, and which directories were asked for. -/
structure Contributed (request : Request) (history : HistorySource) (survey : Survey)
    (asked : List (List UInt8)) : Prop where
  omitted : request.config.history.enabled = false →
    asked = [] ∧ survey.document.commits = [] ∧ survey.warnings = []
  once : request.config.history.enabled = true →
    asked = [request.historyDirectory.getD request.root]
  succeeded : request.config.history.enabled = true →
    ∀ commits, history (request.historyDirectory.getD request.root) = .ok commits →
      survey.document.commits = commits ∧ survey.warnings = []
  failed : request.config.history.enabled = true →
    ∀ failure, history (request.historyDirectory.getD request.root) = .error failure →
      survey.document.commits = [] ∧ survey.warnings = [failure.message]

section History

variable {request : Request} {history : HistorySource}

theorem contributed_of_disabled (henabled : request.config.history.enabled = false)
    (codebase : List FileRecord) (ticks : Nat) :
    Contributed request history ⟨⟨codebase, []⟩, [], ticks, none⟩ [] :=
  ⟨fun _ => ⟨rfl, rfl, rfl⟩, by simp [henabled], by simp [henabled], by simp [henabled]⟩

theorem contributed_of_ok {commits : List CommitRecord}
    (henabled : request.config.history.enabled = true)
    (hanswer : history request.asks = .ok commits) (codebase : List FileRecord) (ticks : Nat) :
    Contributed request history ⟨⟨codebase, commits⟩, [], ticks, some request.asks⟩
      [request.asks] where
  omitted hother := by simp [henabled] at hother
  once _ := rfl
  succeeded _ found hfound := by
    cases hanswer.symm.trans hfound
    exact ⟨rfl, rfl⟩
  failed _ failure hfailure := by cases hanswer.symm.trans hfailure

theorem contributed_of_error {failure : History.Failure}
    (henabled : request.config.history.enabled = true)
    (hanswer : history request.asks = .error failure) (codebase : List FileRecord) (ticks : Nat) :
    Contributed request history
      ⟨⟨codebase, []⟩, [failure.message], ticks, some request.asks⟩ [request.asks] where
  omitted hother := by simp [henabled] at hother
  once _ := rfl
  succeeded _ commits hcommits := by cases hanswer.symm.trans hcommits
  failed _ other hother := by
    cases hanswer.symm.trans hother
    exact ⟨rfl, rfl⟩

/-- Some files have a survey whatever becomes of the history, which adds nothing but its own part. -/
theorem exists_withHistory_noting (request : Request) (history : HistorySource)
    (codebase : List FileRecord) (ticks : Nat) : ∃ survey asked,
    (withHistory request (noting history) codebase ticks).run [] = (survey, asked) ∧
      withHistory (m := Id) request history codebase ticks = survey ∧
      survey.document.codebase = codebase ∧ survey.ticks = ticks ∧
      Contributed request history survey asked := by
  unfold withHistory
  cases henabled : request.config.history.enabled with
  | false =>
    rw [if_neg Bool.false_ne_true, if_neg Bool.false_ne_true]
    exact ⟨_, _, rfl, rfl, rfl, rfl, contributed_of_disabled henabled codebase ticks⟩
  | true =>
    rw [if_pos rfl, if_pos rfl]
    simp only [noting, StateT.run_bind, StateT.run_modify, StateT.run_pure, pure_bind]
    cases hanswer : history request.asks with
    | ok commits =>
      exact ⟨_, _, rfl, rfl, rfl, rfl, contributed_of_ok henabled hanswer codebase ticks⟩
    | error failure =>
      exact ⟨_, _, rfl, rfl, rfl, rfl, contributed_of_error henabled hanswer codebase ticks⟩

end History

/-- A survey that is built while its source takes notes fails where the scan does, and only there. -/
theorem exists_buildNoting (t : Tree) (request : Request) (history : HistorySource) :
    match Scan.entries t request.root request.config.scan with
    | .error failure => buildNoting t request history = (.error failure, []) ∧
        build t request history = .error failure
    | .ok entries => ∃ survey asked, buildNoting t request history = (.ok survey, asked) ∧
        build t request history = .ok survey ∧
        survey.document.codebase = records t entries ∧ survey.ticks = entries.length ∧
        Contributed request history survey asked := by
  rw [buildNoting, build, buildAsking_eq, buildAsking_eq]
  cases Scan.entries t request.root request.config.scan with
  | error failure => exact ⟨rfl, rfl⟩
  | ok entries =>
    obtain ⟨survey, asked, hrun, hbuild, hcodebase, hticks, hcontributed⟩ :=
      exists_withHistory_noting request history (records t entries) entries.length
    refine ⟨survey, asked, ?_, congrArg Except.ok hbuild, hcodebase, hticks, hcontributed⟩
    simp only [StateT.run_bind, hrun]
    rfl

/-- Two surveys of one tree with the same root and the same exclusions have the same records and
    report progress equally often, whatever their histories are, where and whether these are asked
    for, how long that may take, and how records are made. Neither fails unless the scan does. A
    source is asked for one directory, if at all, and what it answers becomes the commits or a
    warning. -/
theorem buildNoting_unaffected (t : Tree) (request : Request) (history other : HistorySource)
    (directory : Option (List UInt8)) (output : String) (parallel : Bool) (settings : HistoryConfig) :
    let changed : Request := { request with
      historyDirectory := directory
      config := { request.config with
        outputDirectory := output, parallel := parallel, history := settings } }
    match Scan.entries t request.root request.config.scan with
    | .error failure => buildNoting t request history = (.error failure, []) ∧
        buildNoting t changed other = (.error failure, [])
    | .ok entries => ∃ survey asked survey' asked',
        buildNoting t request history = (.ok survey, asked) ∧
        buildNoting t changed other = (.ok survey', asked') ∧
        build t request history = .ok survey ∧ build t changed other = .ok survey' ∧
        survey.document.codebase = records t entries ∧
        survey'.document.codebase = survey.document.codebase ∧
        survey.ticks = entries.length ∧ survey'.ticks = survey.ticks ∧
        Contributed request history survey asked ∧ Contributed changed other survey' asked' := by
  intro changed
  have hfirst := exists_buildNoting t request history
  have hsecond := exists_buildNoting t changed other
  have hscan : Scan.entries t changed.root changed.config.scan =
      Scan.entries t request.root request.config.scan := rfl
  rw [hscan] at hsecond
  cases hentries : Scan.entries t request.root request.config.scan with
  | error failure =>
    rw [hentries] at hfirst hsecond
    exact ⟨hfirst.1, hsecond.1⟩
  | ok entries =>
    rw [hentries] at hfirst hsecond
    obtain ⟨survey, asked, hrun, hbuild, hcodebase, hticks, hcontributed⟩ := hfirst
    obtain ⟨survey', asked', hrun', hbuild', hcodebase', hticks', hcontributed'⟩ := hsecond
    exact ⟨survey, asked, survey', asked', hrun, hrun', hbuild, hbuild', hcodebase,
      hcodebase'.trans hcodebase.symm, hticks, hticks'.trans hticks.symm, hcontributed,
      hcontributed'⟩

end SourceSurvey.Survey
