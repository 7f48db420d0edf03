import SourceSurvey.Command.Run
import SourceSurvey.Proofs.Files.Frame
import SourceSurvey.Proofs.Files.Writing
import SourceSurvey.Proofs.Scan.Exclusion
import SourceSurvey.Proofs.Survey.Rerun

/-!
What a run of the command does to the files, whatever becomes of it: at most it writes the file of the
survey, in directories made for it. Where nothing can be scanned it does nothing at all, and what comes
of the history has no part in how it ends.
-/

namespace SourceSurvey

open Files

namespace Scan

/-- What is in the way of a scan: its root is missing or no directory, or a line for an excluded name
    is no pattern. -/
def IsHindered (t : Tree) (root : List UInt8) (options : ScanConfig) : Prop :=
  t.isDirectory root = false ∨
    ∃ line ∈ linesOf options.excluded, ∃ problem, Rule.parse? false line = .error problem

variable {t : Tree} {root : List UInt8} {options : ScanConfig}

theorem exists_exclusions_error (h : ∃ line ∈ linesOf options.excluded, ∃ problem,
    Rule.parse? false line = .error problem) :
    ∃ failure, exclusions options.excluded = .error failure := by
  obtain ⟨line, hline, problem, hproblem⟩ := h
  cases hexclusions : exclusions options.excluded with
  | error failure => exact ⟨failure, rfl⟩
  | ok rules =>
    obtain ⟨rule, hrule⟩ := (exists_exclusions_iff _).mp ⟨rules, hexclusions⟩ line hline
    rw [exclusionRule, hproblem] at hrule
    cases hrule

/-- A scan fails where something is in the way of it, and only there. -/
theorem exists_entries_error_iff :
    (∃ failure, entries t root options = .error failure) ↔ IsHindered t root options := by
  constructor
  · rintro ⟨failure, hentries⟩
    by_contra hfree
    obtain ⟨hroot, hlines⟩ := not_or.mp hfree
    obtain ⟨names, content, hlocate, hat⟩ :=
      Tree.isDirectory_iff.mp (Bool.eq_true_of_not_eq_false hroot)
    obtain ⟨rules, hrules⟩ : ∃ rules, exclusions options.excluded = .ok rules := by
      refine (exists_exclusions_iff _).mpr fun line hline => ?_
      cases hparse : Rule.parse? false line with
      | error problem => exact absurd ⟨line, hline, problem, hparse⟩ hlines
      | ok rule => exact ⟨rule, by rw [exclusionRule, hparse]; rfl⟩
    unfold entries at hentries
    rw [Tree.names_eq_ok_iff.mpr hlocate] at hentries
    simp only [Except.mapError, bind, Except.bind, hat, hrules] at hentries
    cases hentries
  · intro hhindered
    unfold entries
    cases hnames : t.names root with
    | error failure => exact ⟨_, rfl⟩
    | ok names =>
      simp only [Except.mapError, bind, Except.bind]
      split
      · next content hat =>
        obtain hroot | hlines := hhindered
        · have hdirectory : t.isDirectory root = true :=
            Tree.isDirectory_iff.mpr ⟨names, content, Tree.names_eq_ok_iff.mp hnames, hat⟩
          rw [hdirectory] at hroot
          cases hroot
        · obtain ⟨failure, hfailure⟩ := exists_exclusions_error hlines
          rw [hfailure]
          exact ⟨failure, rfl⟩
      · exact ⟨_, rfl⟩

end Scan

namespace SurveyDocument

/-- Writing a survey changes nothing but its file and what is made for it, also where it fails. -/
theorem confined_write (document : SurveyDocument) (path : List UInt8) (t : Tree) :
    t.Confined path (document.write path t).2 := by
  unfold write
  cases hparent : Path.parent? path with
  | none => exact Change.confined_write _ (.refl path t)
  | some parent =>
    have hmade := Change.confined_makeAll hparent t
    rcases hmake : t.after (Change.makeAll parent) with ⟨result, v⟩
    rw [hmake] at hmade
    cases result with
    | error failure => simpa only [hmake, Except.mapError] using hmade
    | ok _ => simpa only [hmake, Except.mapError] using Change.confined_write _ hmade

/-- Writing a survey leaves a well-formed tree well-formed, also where it fails. -/
theorem wellFormed_write (document : SurveyDocument) (path : List UInt8) {t : Tree}
    (ht : t.WellFormed) : (document.write path t).2.WellFormed := by
  unfold write
  cases Path.parent? path with
  | none => exact Change.keeps_write path _ t ht
  | some parent =>
    have hmade := Change.keeps_makeAll parent t ht
    rcases hmake : t.after (Change.makeAll parent) with ⟨result, v⟩
    rw [hmake] at hmade
    cases result with
    | error failure => simpa only [hmake, Except.mapError] using hmade
    | ok _ => simpa only [hmake, Except.mapError] using Change.keeps_write path _ v hmade

/-- Whether a survey can be written does not depend on what is in it. -/
theorem write_congr (document other : SurveyDocument) (path : List UInt8) (t : Tree) :
    (document.write path t).1 = (other.write path t).1 := by
  have hwrite (v : Tree) := Change.after_write_congr path (Text.Utf8.encode document.text)
    (Text.Utf8.encode other.text) v
  unfold write
  cases Path.parent? path with
  | none => exact congrArg (Except.mapError (WriteFailure.file path)) (hwrite t)
  | some parent =>
    rcases hmake : t.after (Change.makeAll parent) with ⟨result, v⟩
    cases result with
    | error failure => simp only [hmake, Except.mapError]
    | ok _ =>
      simp only [hmake]
      exact congrArg (Except.mapError (WriteFailure.file path)) (hwrite v)

end SurveyDocument

namespace Command

/-- The directory that is surveyed. -/
def Args.directory (args : Args) : List UInt8 := Text.Utf8.encode (args.root.getD ['.'])

/-- Where the survey is written. -/
def Args.outputPath (t : Tree) (args : Args) : List UInt8 :=
  (args.output.map Text.Utf8.encode).getD ((Config.load t args.directory).1.outputPath args.directory)

variable {t : Tree} {args : Args}

/-- The request that a run makes. -/
def Args.request (t : Tree) (args : Args) : Survey.Request :=
  ⟨args.directory, args.historyDirectory.map Text.Utf8.encode,
    settings (Config.load t args.directory).1 args⟩

/-- What a run has to say about the settings. -/
def Args.remarks (t : Tree) (args : Args) : List Char :=
  ((Config.load t args.directory).2.map fun fault =>
    warningLine (settingsRemark args.directory fault)).getD []

/-- What a run without a scan comes to, whatever history there is. -/
theorem survey_of_error {failure : Scan.Failure}
    (h : Scan.entries t args.directory (Config.load t args.directory).1.scan = .error failure)
    (tool : List UInt8 → History.Outcome) : survey t tool args =
      ⟨1, [], args.remarks t ++ errorLines failure.messages, none, none, t⟩ := by
  have hbuild := Survey.exists_buildNoting t (args.request t) fun directory =>
    (tool directory).commits (args.request t).config.history.timeoutSeconds
  have hentries : Scan.entries t (args.request t).root (args.request t).config.scan =
      .error failure := h
  rw [hentries] at hbuild
  have hfailed := hbuild.2
  unfold survey
  simp only [Args.request, Args.directory] at hfailed ⊢
  rw [hfailed]
  rfl

/-- What a run with a scan comes to: a survey is written, and whether that succeeds decides how the
    run ends. -/
theorem exists_survey_of_ok {found : List Scan.Entry}
    (h : Scan.entries t args.directory (Config.load t args.directory).1.scan = .ok found)
    (tool : List UInt8 → History.Outcome) : ∃ document : SurveyDocument,
      (survey t tool args).tree = (document.write (args.outputPath t) t).2 ∧
      (survey t tool args).exitCode =
        bif (document.write (args.outputPath t) t).1.isOk then 0 else 1 := by
  have hentries : Scan.entries t (args.request t).root (args.request t).config.scan = .ok found := h
  obtain ⟨result, hbuild, -⟩ := Survey.exists_build_of_entries hentries fun directory =>
    (tool directory).commits (args.request t).config.history.timeoutSeconds
  refine ⟨result.document, ?_⟩
  have hpath : args.outputPath t =
    (args.output.map Text.Utf8.encode).getD ((args.request t).config.outputPath args.directory) := rfl
  unfold survey
  rw [hpath]
  simp only [Args.request, Args.directory] at hbuild ⊢
  rw [hbuild]
  dsimp only
  split
  · next hwrite =>
      rw [hwrite]
      exact ⟨rfl, rfl⟩
  · next hwrite =>
      rw [hwrite]
      exact ⟨rfl, rfl⟩

/-- A run leaves a well-formed tree well-formed, so that what holds of scans of such trees holds after
    any number of runs. -/
theorem wellFormed_run (ht : t.WellFormed) (tool : List UInt8 → History.Outcome)
    (arguments : List String) : (run t tool arguments).tree.WellFormed := by
  unfold run
  cases Reading.ofArguments arguments with
  | refused reason => exact ht
  | help => exact ht
  | version => exact ht
  | run args =>
    cases hinspected : args.inspected with
    | some path =>
      simp only [hinspected]
      exact ht
    | none =>
      simp only [hinspected]
      cases hentries : Scan.entries t args.directory (Config.load t args.directory).1.scan with
      | error failure =>
        rw [survey_of_error hentries]
        exact ht
      | ok found =>
        obtain ⟨document, htree, -⟩ := exists_survey_of_ok hentries tool
        rw [htree]
        exact document.wellFormed_write _ ht

/-- A run changes at most the file that its output path leads to, and makes at most directories that
    are missing above it. Where nothing can be scanned it fails, changes nothing and asks for no
    history. What comes of the history does not show in how it ends. -/
theorem run_confined (t : Tree) (tool : List UInt8 → History.Outcome) (arguments : List String)
    (hinspect : (Reading.ofArguments arguments).inspected? = none) :
    (match Reading.ofArguments arguments with
      | .run args => t.Confined (args.outputPath t) (run t tool arguments).tree ∧
        (Scan.IsHindered t args.directory (Config.load t args.directory).1.scan →
          (run t tool arguments).exitCode ≠ 0 ∧ (run t tool arguments).tree = t ∧
          (run t tool arguments).asked = none ∧
          ∀ other, run t other arguments = run t tool arguments)
      | _ => (run t tool arguments).tree = t ∧ (run t tool arguments).asked = none) ∧
    ∀ other, (run t other arguments).exitCode = (run t tool arguments).exitCode := by
  unfold run
  cases hreading : Reading.ofArguments arguments with
  | refused reason => exact ⟨⟨rfl, rfl⟩, fun _ => rfl⟩
  | help => exact ⟨⟨rfl, rfl⟩, fun _ => rfl⟩
  | version => exact ⟨⟨rfl, rfl⟩, fun _ => rfl⟩
  | run args =>
    rw [hreading] at hinspect
    have hnone : args.inspected = none := hinspect
    simp only [hnone]
    cases hentries : Scan.entries t args.directory (Config.load t args.directory).1.scan with
    | error failure =>
      simp only [survey_of_error hentries]
      simpa using Tree.Confined.refl (args.outputPath t) t
    | ok found =>
      obtain ⟨document, htree, hexit⟩ := exists_survey_of_ok hentries tool
      refine ⟨⟨?_, fun hhindered => ?_⟩, fun other => ?_⟩
      · rw [htree]
        exact document.confined_write _ t
      · obtain ⟨failure, hfailure⟩ := Scan.exists_entries_error_iff.mpr hhindered
        cases hfailure.symm.trans hentries
      · obtain ⟨document', -, hexit'⟩ := exists_survey_of_ok hentries other
        rw [hexit, hexit', document.write_congr document']

/-- A survey of a tree with a link, which leads to where a directory is made for the survey. -/
theorem run_confined_linked :
    let tree : Tree := ⟨.directory [(Name.of "a.py", .file []),
      (Name.of "out", .directory [(Name.of "link", .link (Name.of ".."))])], []⟩
    let tool : List UInt8 → History.Outcome := fun _ => .unfinished
    let path := "/out/link/new/survey.json".toList
    (Reading.ofArguments ["/", "-o", String.ofList path]).inspected? = none ∧
      tree.Confined (Text.Utf8.encode path) (run tree tool ["/", "-o", String.ofList path]).tree := by
  intro tree tool path
  have hreading : Reading.ofArguments ["/", "-o", String.ofList path] =
      .run { Args.blank with root := some ['/'], output := some path } := by decide +kernel
  have hinspect : (Reading.ofArguments ["/", "-o", String.ofList path]).inspected? = none := by
    rw [hreading]
    rfl
  have hconfined := (run_confined tree tool ["/", "-o", String.ofList path] hinspect).1
  rw [hreading] at hconfined
  exact ⟨hinspect, hconfined.1⟩

end Command

end SourceSurvey
