import Mathlib
import SourceSurvey.Proofs.Scan.Growth
import SourceSurvey.Proofs.Survey.History

/-!
Surveying again what has been surveyed. Writing a survey lets the tree grow by directories and by the
file of the survey; neither takes part in a survey, so the next one is the same, and writing it
changes nothing. Only a working copy that begins with these directories makes a difference.
-/

namespace SourceSurvey

open Files

/-! ### Where a survey is written -/

/-- A path that ends in a name is split into some steps and the name. -/
theorem exists_split_join (base : List UInt8) {name : Name} (hname : IsName name) :
    ∃ steps, Text.split Path.slash (Path.join base name) = steps ++ [name] := by
  have hsplit : Text.split Path.slash name = [name] := Text.split_of_not_mem hname.noSlash
  by_cases hbase : base = []
  · subst hbase
    refine ⟨[], ?_⟩
    rw [Path.join, List.isEmpty_nil, Bool.or_true, if_pos rfl]
    exact hsplit
  · obtain ⟨body, hrooted, -⟩ := Scan.exists_rooted base
    refine ⟨Text.split Path.slash body, ?_⟩
    rw [Scan.join_of_isName hbase hname, hrooted, List.append_assoc, List.singleton_append,
      Text.split_append, hsplit]

namespace Config

theorem isProper_outputName : IsProper (Name.of outputName) := by decide

theorem isProper_fileName : IsProper (Name.of fileName) := by decide

/-- The settings for a directory are the same once the tree has grown. -/
theorem load_of_grows {t u : Tree} (h : t.Grows (Name.of outputName) u) (ht : t.top.Linkless)
    {root : List UInt8} {names : List Name} (hroot : t.names root = .ok names) :
    load u root = load t root := by
  have hproper : ∀ name ∈ [] ++ [Name.of fileName], IsProper name :=
    List.forall_mem_singleton.mpr isProper_fileName
  have hpath : path root = Scan.pathBelow root ([] ++ [Name.of fileName]) := rfl
  have hread := Scan.read_of_grows h ht hroot hproper (by decide)
  rw [load, load, hpath, hread]

/-- The settings for a directory where there are some. -/
theorem load_eq_of_read {t : Tree} {root bytes : List UInt8} {text : List Char} {config : Config}
    (hread : t.read (path root) = .ok bytes) (hdecode : Text.Utf8.decode? bytes = some text)
    (htext : ofText text = .ok config) : load t root = (config, none) := by
  have hfound : (t.read (path root)).toOption.bind Text.Utf8.decode? = some text := by
    rw [hread]
    exact hdecode
  rw [load, hfound]
  simp only [htext]

end Config

namespace SurveyDocument

theorem mapError_eq_ok_iff {ε ε' α : Type} {f : ε → ε'} {answer : Except ε α} {a : α} :
    answer.mapError f = .ok a ↔ answer = .ok a := by
  cases answer <;> simp [Except.mapError]

/-- A survey is written once its directory has been made. -/
theorem write_eq_ok_iff {document : SurveyDocument} {path : List UInt8} {t u : Tree} :
    document.write path t = (.ok (), u) ↔ ∃ v,
      (match Path.parent? path with
      | none => v = t
      | some parent => t.after (Change.makeAll parent) = (.ok (), v)) ∧
        v.after (Change.write path (Text.Utf8.encode document.text)) = (.ok (), u) := by
  have hwritten (answer : Except Files.Failure Unit × Tree) :
      (answer.1.mapError (WriteFailure.file path), answer.2) = (.ok (), u) ↔
        answer = (.ok (), u) := by
    rw [Prod.mk.injEq, mapError_eq_ok_iff, Prod.ext_iff]
  unfold write
  cases Path.parent? path with
  | none =>
    simp only [exists_eq_left]
    exact hwritten _
  | some parent =>
    rcases hmake : t.after (Change.makeAll parent) with ⟨result, v⟩
    cases result with
    | error failure => simp [hmake, Except.mapError]
    | ok _ =>
      simp only [hmake, Prod.mk.injEq, true_and, exists_eq_left']
      exact hwritten _

/-- Writing a survey lets the tree grow by the file of the survey and by directories for it, and
    writing it again changes nothing. -/
theorem write_again {document : SurveyDocument} {t u : Tree} {entries : List (Name × Node)}
    (htop : t.top = .directory entries) (ht : t.top.Linkless) {path : List UInt8} {steps : List Name}
    (hpath : Text.split Path.slash path = steps ++ [Name.of Config.outputName])
    (h : document.write path t = (.ok (), u)) :
    t.Grows (Name.of Config.outputName) u ∧ u.read path = .ok (Text.Utf8.encode document.text) ∧
      document.write path u = (.ok (), u) := by
  obtain ⟨v, hmade, hwritten⟩ := write_eq_ok_iff.mp h
  have hdirectory : t.Grows (Name.of Config.outputName) v ∧
      ∀ parent, Path.parent? path = some parent → parent = [] ∨ v.isDirectory parent = true := by
    cases hparent : Path.parent? path with
    | none =>
      rw [hparent] at hmade
      subst hmade
      exact ⟨.refl htop, nofun⟩
    | some parent =>
      rw [hparent] at hmade
      have hgrows : t.Grows (Name.of Config.outputName) (t.after (Change.makeAll parent)).2 :=
        Change.preserves_grows_makeDirectories ht (parent.length + 1) parent t (.refl htop)
      rw [hmade] at hgrows
      refine ⟨hgrows, fun other heq => ?_⟩
      cases heq
      exact Change.isDirectory_of_makeDirectories htop ht hmade
  obtain ⟨hgrows, hready⟩ := hdirectory
  obtain ⟨hgrows', hread, hsame⟩ :=
    Change.write_spec (hgrows.linkless ht) hpath Config.isProper_outputName hwritten
  refine ⟨hgrows.trans hgrows', hread, write_eq_ok_iff.mpr ⟨u, ?_, hsame⟩⟩
  cases hparent : Path.parent? path with
  | none => rfl
  | some parent =>
    have hlinkless := hgrows'.linkless (hgrows.linkless ht)
    refine Change.makeAll_of_isDirectory hlinkless ((hready parent hparent).imp_right fun hv => ?_)
    exact hgrows'.isDirectory (hgrows.linkless ht) hv

end SurveyDocument

namespace Survey

/-! ### Surveying again -/

/-- Where a scan succeeds there is a survey of what it finds. -/
theorem exists_build_of_entries {t : Tree} {request : Request} {found : List Scan.Entry}
    (hscan : Scan.entries t request.root request.config.scan = .ok found)
    (history : HistorySource) : ∃ survey, build t request history = .ok survey ∧
      survey.document.codebase = records t found := by
  have hnoting := exists_buildNoting t request history
  rw [hscan] at hnoting
  obtain ⟨survey, asked, -, hbuild, hcodebase, -⟩ := hnoting
  exact ⟨survey, hbuild, hcodebase⟩

theorem exists_entries_of_build {t : Tree} {request : Request} {history : HistorySource}
    {survey : Survey} (hbuild : build t request history = .ok survey) :
    ∃ found, Scan.entries t request.root request.config.scan = .ok found ∧
      survey.document.codebase = records t found := by
  cases hscan : Scan.entries t request.root request.config.scan with
  | error failure =>
    have hnoting := exists_buildNoting t request history
    rw [hscan] at hnoting
    cases hnoting.2.symm.trans hbuild
  | ok found =>
    obtain ⟨survey', hbuild', hcodebase⟩ := exists_build_of_entries hscan history
    cases hbuild'.symm.trans hbuild
    exact ⟨found, rfl, hcodebase⟩

/-- A survey is the same once the tree has grown, whatever history there is. -/
theorem build_of_grows {t u : Tree} (h : t.Grows (Name.of Config.outputName) u)
    (hplain : t.top.Plain) {request : Request}
    (hcopy : request.config.scan.respectIgnoreFiles = true →
      ∀ names, t.names request.root = .ok names → Scan.GainsNoCopyAround t u names)
    {found : List Scan.Entry}
    (hscan : Scan.entries t request.root request.config.scan = .ok found)
    (history : HistorySource) : build u request history = build t request history := by
  have hrecords : records u found = records t found := by
    refine List.map_congr_left fun entry hentry => ?_
    have hread := Scan.read_of_mem_entries h hplain hscan hentry
    rw [Source.recordAt, Source.recordAt, hread]
  rw [build, build, buildAsking_eq, buildAsking_eq, hscan,
    Scan.entries_of_grows h hplain hcopy hscan]
  simp only [hrecords]

/-- A survey that has been written is no part of the next one. In a tree of files and directories
    alone, the settings are read as before, the survey is the same with the same history, and has the
    same records with any other, and writing it again changes nothing. It takes that where ignore
    files count no working copy begins with the directories that are made. -/
theorem build_again {t t' : Tree} (hplain : t.top.Plain) {request : Request}
    {history : HistorySource} {survey : Survey} (hbuild : build t request history = .ok survey)
    (hwrite : survey.document.write (request.config.outputPath request.root) t = (.ok (), t'))
    (hcopy : request.config.scan.respectIgnoreFiles = true →
      ∀ names, t.names request.root = .ok names → Scan.GainsNoCopyAround t t' names) :
    Config.load t' request.root = Config.load t request.root ∧
    (∀ other, ∃ survey', build t' request other = .ok survey' ∧
      survey'.document.codebase = survey.document.codebase) ∧
    build t' request history = .ok survey ∧
    t'.read (request.config.outputPath request.root) =
      .ok (Text.Utf8.encode survey.document.text) ∧
    survey.document.write (request.config.outputPath request.root) t' = (.ok (), t') := by
  obtain ⟨found, hscan, hcodebase⟩ := exists_entries_of_build hbuild
  obtain ⟨w, content, rfl, hroot, hscans, -⟩ := Scan.exists_scans_of_entries hscan
  obtain ⟨entries, htop⟩ := Node.exists_directory_of_at? hscans.at_root
  obtain ⟨steps, hpath⟩ := exists_split_join
    (Path.join request.root (Name.of request.config.outputDirectory))
    Config.isProper_outputName.toIsName
  obtain ⟨hgrows, hread, hagain⟩ :=
    SurveyDocument.write_again htop hplain.linkless hpath hwrite
  have hsame := build_of_grows hgrows hplain hcopy hscan
  refine ⟨?_, fun other => ?_, (hsame history).trans hbuild, hread, hagain⟩
  · rw [← hroot]
    exact Config.load_of_grows hgrows hplain.linkless hscans.names
  · obtain ⟨survey', hbuild', hcodebase'⟩ := exists_build_of_entries hscan other
    exact ⟨survey', (hsame other).trans hbuild', hcodebase'.trans hcodebase.symm⟩

/-! ### A working copy that begins with a survey -/

/-- The settings of a survey that heeds ignore files, as a text. -/
def heedingText : List Char :=
  ("\x7b\"output_dir\":\".git\",\"scan\":\x7b\"respect_ignore_files\":true\x7d," ++
    "\"history\":\x7b\"enabled\":false\x7d\x7d").toList

/-- What the text says. -/
def heedingConfig : Config := ⟨".git", true, ⟨[], true⟩, ⟨false, 30⟩⟩

/-- A survey of the whole tree with these settings. -/
def heedingRequest : Request := ⟨[Path.slash], none, heedingConfig⟩

/-- A file that is ignored once a working copy begins beside it, and some more entries. -/
def heedingContent (more : List (Name × Node)) : List (Name × Node) :=
  (Name.of Config.fileName, .file (Text.Utf8.encode heedingText)) ::
    (Name.of ".gitignore", .file (Text.Utf8.encode "a.py\n".toList)) ::
    (Name.of "a.py", .file (Text.Utf8.encode "x = 1\n".toList)) :: more

/-- A tree of these entries. -/
def heedingTree (more : List (Name × Node)) : Tree := ⟨.directory (heedingContent more), []⟩

/-- A directory with nothing but the file of a survey. -/
def surveyed (name : String) (content : List UInt8) : Name × Node :=
  (Name.of name, .directory [(Name.of Config.outputName, .file content)])

/-- The walk through the whole tree. -/
def heedingWalk (more : List (Name × Node)) : Scan.Walk :=
  ⟨heedingTree more, [Path.slash], [], [], true⟩

theorem scans_heedingWalk (more : List (Name × Node)) :
    (heedingWalk more).Scans heedingConfig.scan (heedingContent more) :=
  ⟨Scan.names_slash rfl, rfl, rfl, rfl⟩

theorem plain_heedingTree : (heedingTree []).top.Plain := by
  have hdistinct : ((heedingContent []).map Prod.fst).Nodup := by decide
  have hnames : ∀ name ∈ (heedingContent []).map Prod.fst, IsProper name := by decide
  show (Node.directory (heedingContent [])).Plain
  refine .directory hdistinct (fun entry hentry => hnames _ (List.mem_map_of_mem hentry))
    fun entry hentry => ?_
  simp only [heedingContent, List.mem_cons, List.not_mem_nil, or_false] at hentry
  obtain rfl | rfl | rfl := hentry
  all_goals exact .file _

theorem load_heedingTree (more : List (Name × Node)) :
    Config.load (heedingTree more) [Path.slash] = (heedingConfig, none) := by
  have hread : (heedingTree more).read (Config.path [Path.slash]) =
      .ok (Text.Utf8.encode heedingText) := by cbv
  have hdecode : Text.Utf8.decode? (Text.Utf8.encode heedingText) = some heedingText := by
    decide +kernel
  have htext : (Config.ofText heedingText).toOption = some heedingConfig := by decide +kernel
  exact Config.load_eq_of_read hread hdecode (Scan.toOption_eq_some_iff.mp htext)

/-- Before a working copy begins, the file is found. -/
theorem walked_heedingWalk :
    Scan.walked (heedingWalk []) (.directory (heedingContent [])) =
      [Scan.Entry.of [Path.slash] [Name.of "a.py"]] := by
  cbv

/-- The only rule of the ignore file. -/
def heedingRule : Rule := ⟨[.leading, .literal 'a', .literal '.', .literal 'p', .literal 'y'], false,
  false⟩

/-- Once a working copy begins, the file is ignored. -/
theorem walked_heedingWalk_copy (content : List UInt8) :
    Scan.walked (heedingWalk [surveyed ".git" content])
      (.directory (heedingContent [surveyed ".git" content])) = [] := by
  have hlayer : Layer.ofDirectory (heedingTree [surveyed ".git" content]) [] =
      ⟨[], [heedingRule], [], true⟩ := by cbv
  have hpasses : ∀ entry ∈ heedingContent [surveyed ".git" content],
      (heedingWalk [surveyed ".git" content]).passes
        ((heedingWalk [surveyed ".git" content]).enter [] []) [entry.1] entry.2.isDirectory = false := by
    have henter : (heedingWalk [surveyed ".git" content]).enter [] [] =
        [⟨[], [heedingRule], [], true⟩] := congrArg (fun layer => [layer]) hlayer
    rw [henter]
    intro entry hentry
    simp only [heedingContent, List.mem_cons, List.not_mem_nil, or_false] at hentry
    obtain rfl | rfl | rfl | rfl := hentry <;> cbv
  have hfiles : (heedingWalk [surveyed ".git" content]).files
      (.directory (heedingContent [surveyed ".git" content])) = [] := by
    have hstream : Scan.isStream (heedingWalk [surveyed ".git" content]).start = false := rfl
    have hopens : (heedingWalk [surveyed ".git" content]).opens [] = true := rfl
    rw [Scan.Walk.files, hstream, if_neg Bool.false_ne_true, Scan.Walk.nodeFiles, if_pos hopens,
      Scan.Walk.entriesFiles_eq_flatMap, List.map_eq_nil_iff, List.flatMap_eq_nil_iff]
    intro entry hentry
    exact if_neg (Bool.eq_false_iff.mp (hpasses entry hentry))
  rw [Scan.walked, hfiles]
  rfl

/-- A survey is written in a directory of its own at the top. -/
theorem write_heedingTree_copy (document : SurveyDocument) :
    document.write (heedingConfig.outputPath [Path.slash]) (heedingTree []) =
      (.ok (), heedingTree [surveyed ".git" (Text.Utf8.encode document.text)]) := by
  cbv

/-- Where ignore files count, a survey that is written to where a working copy begins may change the
    next one, although the settings are read as before. -/
theorem codebase_changed_by_copy :
    (heedingTree []).top.Plain ∧ Config.load (heedingTree []) [Path.slash] = (heedingConfig, none) ∧
    ∃ survey t' survey',
      build (heedingTree []) heedingRequest (fun _ => .ok []) = .ok survey ∧
      survey.document.write (heedingConfig.outputPath [Path.slash]) (heedingTree []) = (.ok (), t') ∧
      Config.load t' [Path.slash] = (heedingConfig, none) ∧
      build t' heedingRequest (fun _ => .ok []) = .ok survey' ∧
      survey'.document.codebase ≠ survey.document.codebase := by
  refine ⟨plain_heedingTree, load_heedingTree [], ?_⟩
  have hfirst : Scan.entries (heedingTree []) heedingRequest.root heedingRequest.config.scan =
      .ok (Scan.sorted (Scan.walked (heedingWalk []) (.directory (heedingContent [])))) :=
    (scans_heedingWalk []).entries
  obtain ⟨survey, hbuild, hcodebase⟩ := exists_build_of_entries hfirst (fun _ => .ok [])
  let copy := surveyed ".git" (Text.Utf8.encode survey.document.text)
  have hsecond : Scan.entries (heedingTree [copy]) heedingRequest.root heedingRequest.config.scan =
      .ok (Scan.sorted (Scan.walked (heedingWalk [copy]) (.directory (heedingContent [copy])))) :=
    (scans_heedingWalk [copy]).entries
  obtain ⟨survey', hbuild', hcodebase'⟩ := exists_build_of_entries hsecond (fun _ => .ok [])
  refine ⟨survey, _, survey', hbuild, write_heedingTree_copy _, load_heedingTree _, hbuild', ?_⟩
  have hone : Scan.sorted [Scan.Entry.of [Path.slash] [Name.of "a.py"]] =
      [Scan.Entry.of [Path.slash] [Name.of "a.py"]] := List.mergeSort_singleton _
  have hnone : Scan.sorted [] = [] := List.mergeSort_nil
  rw [hcodebase, hcodebase', walked_heedingWalk, walked_heedingWalk_copy, hone, hnone]
  exact (List.cons_ne_nil _ _).symm

theorem at?_surveyed (name : String) (content : List UInt8) {above : List Name} {mark : Name}
    (hmark : mark ≠ Name.of Config.outputName) :
    (surveyed name content).2.at? (above ++ [mark]) = none := by
  cases above with
  | nil =>
    rw [surveyed, List.nil_append, Node.at?_singleton, lookup_cons_of_ne hmark, List.lookup_nil]
  | cons first rest =>
    rw [surveyed, List.cons_append, Node.at?_cons, List.lookup_cons]
    split
    · exact Node.at?_file content rest mark
    · rfl

/-- No working copy begins with a survey in a directory of another name. -/
theorem gainsNoCopyAround_heedingTree (content : List UInt8) (root : List Name) :
    Scan.GainsNoCopyAround (heedingTree []) (heedingTree [surveyed ".codescribe" content])
      root := by
  intro directory _ mark hmark hnew
  refine absurd hnew (Bool.eq_false_iff.mp (Option.isSome_eq_false_iff.mpr ?_))
  rw [Option.isNone_iff_eq_none]
  show (Node.directory (heedingContent [surveyed ".codescribe" content])).at? _ = none
  cases directory with
  | nil =>
    have hmark : mark = Name.of ".git" ∨ mark = Name.of ".jj" := by simpa using hmark
    obtain rfl | rfl := hmark <;> rfl
  | cons first rest =>
    have hother : mark ≠ Name.of Config.outputName := by
      rintro rfl
      exact absurd hmark (by decide)
    rw [List.cons_append, Node.at?_cons]
    cases hfirst : (heedingContent [surveyed ".codescribe" content]).lookup first with
    | none => rfl
    | some node =>
      have hmem := mem_of_lookup hfirst
      simp only [heedingContent, List.mem_cons, List.not_mem_nil, or_false] at hmem
      obtain h | h | h | h := hmem <;> cases h
      · exact Node.at?_file _ rest mark
      · exact Node.at?_file _ rest mark
      · exact Node.at?_file _ rest mark
      · exact at?_surveyed ".codescribe" content hother

/-- A survey beside an ignore file that does not count yet is the same again. -/
theorem build_again_heedingTree :
    let request : Request :=
      { heedingRequest with config := { heedingConfig with outputDirectory := ".codescribe" } }
    (heedingTree []).top.Plain ∧
    ∃ survey t', build (heedingTree []) request (fun _ => .ok []) = .ok survey ∧
      survey.document.write (request.config.outputPath request.root) (heedingTree []) =
        (.ok (), t') ∧
      (request.config.scan.respectIgnoreFiles = true → ∀ names,
        (heedingTree []).names request.root = .ok names →
          Scan.GainsNoCopyAround (heedingTree []) t' names) ∧
      build t' request (fun _ => .ok []) = .ok survey ∧
      survey.document.write (request.config.outputPath request.root) t' = (.ok (), t') := by
  intro request
  have hscan : Scan.entries (heedingTree []) request.root request.config.scan = .ok _ :=
    (scans_heedingWalk []).entries
  obtain ⟨survey, hbuild, -⟩ := exists_build_of_entries hscan (fun _ => .ok [])
  have hwrite : survey.document.write (request.config.outputPath request.root) (heedingTree []) =
      (.ok (), heedingTree [surveyed ".codescribe" (Text.Utf8.encode survey.document.text)]) := by
    cbv
  have hcopy : ∀ names, Scan.GainsNoCopyAround (heedingTree []) _ names :=
    gainsNoCopyAround_heedingTree (Text.Utf8.encode survey.document.text)
  obtain ⟨-, -, hsame, -, hagain⟩ :=
    build_again plain_heedingTree hbuild hwrite fun _ names _ => hcopy names
  exact ⟨plain_heedingTree, survey, _, hbuild, hwrite, fun _ names _ => hcopy names, hsame, hagain⟩

end Survey

end SourceSurvey
