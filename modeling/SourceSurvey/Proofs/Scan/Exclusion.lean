import Mathlib
import SourceSurvey.Proofs.Scan.Rules
import SourceSurvey.Proofs.Scan.Sorting

/-!
What exclusions do to a scan. Every rule for an excluded name leaves paths out and none asks for any,
so a scan finds the files of a scan without exclusions that no rule covers on the way. Hence lists of
excluded names act one after the other as filters.
-/

namespace SourceSurvey.Scan

open Files

/-! ### What the rules leave out -/

/-- Whether a rule covers a path, whose names are given in reverse. -/
def covered (rules : List Rule) (path : List Name) (isDirectory : Bool) : Bool :=
  rules.any fun rule => rule.covers (Text.join [Path.slash] path.reverse) isDirectory

/-- Whether no rule covers a path or a directory on the way to it. Its names are given in reverse. -/
def spares (rules : List Rule) (isDirectory : Bool) : List Name → Bool
  | [] => true
  | name :: above => !covered rules (name :: above) isDirectory && spares rules true above

/-- More rules spare less. -/
theorem spares_eq_and {rules others both : List Rule}
    (h : ∀ rule, rule ∈ both ↔ rule ∈ rules ∨ rule ∈ others) (isDirectory : Bool)
    (path : List Name) :
    spares both isDirectory path = (spares rules isDirectory path && spares others isDirectory path)
    := by
  induction path generalizing isDirectory with
  | nil => rfl
  | cons name above ih =>
    have hcovered : covered both (name :: above) isDirectory =
        (covered rules (name :: above) isDirectory ||
          covered others (name :: above) isDirectory) := by
      rw [Bool.eq_iff_iff]
      simp only [covered, Bool.or_eq_true, List.any_eq_true, h, or_and_right, exists_or]
    rw [spares, spares, spares, hcovered, ih, Bool.not_or]
    ac_rfl

/-- Rules that ask for nothing leave out what one of them covers. -/
theorem verdict_eq_of_wanted {rules : List Rule} (hwanted : ∀ rule ∈ rules, rule.wanted = true)
    (path : List UInt8) (isDirectory : Bool) :
    verdict rules path isDirectory =
      if rules.any fun rule => rule.covers path isDirectory then .wanted else .silent := by
  unfold verdict
  cases hfind : rules.reverse.find? fun rule => rule.covers path isDirectory with
  | none =>
    have hnone : (rules.any fun rule => rule.covers path isDirectory) = false := by
      simpa using hfind
    rw [hnone]
    rfl
  | some rule =>
    have hmem : rule ∈ rules := List.mem_reverse.mp (List.mem_of_find?_eq_some hfind)
    have hcovers := List.find?_some hfind
    rw [if_pos (List.any_eq_true.mpr ⟨rule, hmem, hcovers⟩)]
    exact if_pos (hwanted rule hmem)

namespace Walk

/-- A walk without its exclusions. -/
def including (w : Walk) : Walk := { w with excluded := [] }

theorem exclusion_eq_of_wanted {w : Walk} (hwanted : ∀ rule ∈ w.excluded, rule.wanted = true)
    (path : List Name) (isDirectory : Bool) :
    w.exclusion path isDirectory =
      if covered w.excluded path isDirectory then .ignored else .silent := by
  have hnone : w.excluded.any (fun rule => !rule.wanted) = false := by simpa using hwanted
  rw [exclusion, verdict_eq_of_wanted hwanted, hnone, ← covered]
  cases covered w.excluded path isDirectory with
  | true => rfl
  | false => rfl

/-- What takes part in a walk whose rules ask for nothing takes part without exclusions, and is not
    covered. -/
theorem passes_eq_and {w : Walk} (hwanted : ∀ rule ∈ w.excluded, rule.wanted = true)
    (layers : List Layer) (path : List Name) (isDirectory : Bool) :
    w.passes layers path isDirectory =
      (!covered w.excluded path isDirectory && w.including.passes layers path isDirectory) := by
  have hincluding : w.including.passes layers path isDirectory =
      (!w.respectIgnoreFiles || w.heeds layers path isDirectory) := rfl
  rw [hincluding, passes, exclusion_eq_of_wanted hwanted]
  cases covered w.excluded path isDirectory with
  | true => rfl
  | false => rfl

mutual

/-- A walk whose rules ask for nothing finds what the walk without exclusions finds, as far as its
    rules spare it. -/
theorem filter_nodeFiles {w : Walk} (hwanted : ∀ rule ∈ w.excluded, rule.wanted = true)
    (layers : List Layer) (path : List Name) (node : Node) :
    (w.including.nodeFiles layers path node).filter (spares w.excluded false) =
      if spares w.excluded node.isDirectory path then w.nodeFiles layers path node else [] := by
  cases node with
  | file content =>
    rw [nodeFiles, nodeFiles, List.filter_cons]
    rfl
  | link target =>
    have hleads : w.including.leadsToFile path = w.leadsToFile path := rfl
    rw [nodeFiles, nodeFiles, hleads]
    cases w.leadsToFile path with
    | true => exact List.filter_cons
    | false => exact (ite_self []).symm
  | directory entries =>
    have hopens : w.including.opens path = w.opens path := rfl
    rw [nodeFiles, nodeFiles, hopens]
    cases w.opens path with
    | true => exact filter_entriesFiles hwanted (w.enter path layers) path entries
    | false => exact (ite_self []).symm

theorem filter_entriesFiles {w : Walk} (hwanted : ∀ rule ∈ w.excluded, rule.wanted = true)
    (layers : List Layer) (path : List Name) (entries : List (Name × Node)) :
    (w.including.entriesFiles layers path entries).filter (spares w.excluded false) =
      if spares w.excluded true path then w.entriesFiles layers path entries else [] := by
  cases entries with
  | nil => exact (ite_self []).symm
  | cons entry rest =>
    obtain ⟨name, node⟩ := entry
    have hnode := filter_nodeFiles hwanted layers (name :: path) node
    have hrest := filter_entriesFiles hwanted layers path rest
    rw [entriesFiles, entriesFiles, List.filter_append, hrest, passes_eq_and hwanted]
    rw [spares] at hnode
    cases hpasses : w.including.passes layers (name :: path) node.isDirectory with
    | false => simp
    | true =>
      rw [if_pos rfl, hnode]
      cases spares w.excluded true path with
      | true => simp
      | false => simp

end

/-- The files of a walk whose rules ask for nothing are those without exclusions that its rules
    spare. -/
theorem files_eq_filter {w : Walk} (hwanted : ∀ rule ∈ w.excluded, rule.wanted = true)
    (node : Node) :
    w.files node =
      (w.including.files node).filter fun names => spares w.excluded false names.reverse := by
  have hspares : spares w.excluded node.isDirectory [] = true := rfl
  have hfiles := filter_nodeFiles hwanted w.outside [] node
  rw [if_pos hspares] at hfiles
  have hcomp : (fun names => spares w.excluded false names.reverse) ∘ List.reverse =
      spares w.excluded false := by
    funext path
    rw [Function.comp_apply, List.reverse_reverse]
  have hstream : isStream w.including.start = isStream w.start := rfl
  rw [files, files, hstream]
  cases isStream w.start with
  | true => rfl
  | false =>
    rw [if_neg Bool.false_ne_true, if_neg Bool.false_ne_true, List.filter_map, hcomp, ← hfiles]
    rfl

/-! ### What heeding ignore files leaves out -/

/-- A walk that heeds no ignore files. -/
def heedless (w : Walk) : Walk := { w with respectIgnoreFiles := false }

/-- Ignore files only ever leave something out: where they could ask for something, nothing else
    would have left it out but they themselves or the exclusions. -/
theorem passes_heedless {w : Walk} {layers : List Layer} {path : List Name} {isDirectory : Bool}
    (h : w.passes layers path isDirectory = true) (others : List Layer) :
    w.heedless.passes others path isDirectory = true := by
  have hexclusion : w.heedless.exclusion path isDirectory = w.exclusion path isDirectory := rfl
  rw [passes] at h ⊢
  rw [hexclusion]
  cases hverdict : w.exclusion path isDirectory with
  | ignored =>
    rw [hverdict] at h
    cases h
  | wanted => rfl
  | silent => rfl

mutual

theorem nodeFiles_sublist_heedless (w : Walk) (layers others : List Layer) (path : List Name)
    (node : Node) :
    (w.nodeFiles layers path node).Sublist (w.heedless.nodeFiles others path node) := by
  cases node with
  | file content => exact List.Sublist.refl [path]
  | link target => exact List.Sublist.refl (if w.leadsToFile path then [path] else [])
  | directory entries =>
    have hopens : w.heedless.opens path = w.opens path := rfl
    rw [nodeFiles, nodeFiles, hopens]
    cases w.opens path with
    | true =>
      exact entriesFiles_sublist_heedless w (w.enter path layers) (w.heedless.enter path others)
        path entries
    | false => exact List.Sublist.refl []

theorem entriesFiles_sublist_heedless (w : Walk) (layers others : List Layer) (path : List Name)
    (entries : List (Name × Node)) :
    (w.entriesFiles layers path entries).Sublist (w.heedless.entriesFiles others path entries) := by
  cases entries with
  | nil => exact List.Sublist.refl []
  | cons entry rest =>
    obtain ⟨name, node⟩ := entry
    rw [entriesFiles, entriesFiles]
    refine List.Sublist.append ?_ (entriesFiles_sublist_heedless w layers others path rest)
    cases hpasses : w.passes layers (name :: path) node.isDirectory with
    | true =>
      rw [passes_heedless hpasses others]
      exact nodeFiles_sublist_heedless w layers others (name :: path) node
    | false => exact List.nil_sublist _

end

theorem files_sublist_heedless (w : Walk) (node : Node) :
    (w.files node).Sublist (w.heedless.files node) := by
  have hstream : isStream w.heedless.start = isStream w.start := rfl
  rw [files, files, hstream]
  cases isStream w.start with
  | true => exact List.Sublist.refl []
  | false =>
    exact (nodeFiles_sublist_heedless w w.outside w.heedless.outside [] node).map List.reverse

end Walk

/-! ### Scans with exclusions -/

theorem walked_eq_map {w : Walk} (hwanted : ∀ rule ∈ w.excluded, rule.wanted = true)
    (directory : Node) :
    walked w directory = ((w.including.files directory).filter fun names =>
      FileName.isSupported (Entry.of w.start names).name &&
        spares w.excluded false names.reverse).map (Entry.of w.start) := by
  rw [walked, Walk.files_eq_filter hwanted, List.filter_map, List.filter_filter]
  rfl

/-- A walk finds an entry that it finds without exclusions if its rules spare it. -/
theorem mem_walked_iff {w : Walk} (hwanted : ∀ rule ∈ w.excluded, rule.wanted = true)
    (hstart : w.start ≠ []) {content : List (Name × Node)}
    (hcontent : (Node.directory content).WellFormed) {names : List Name}
    (hnames : names ∈ w.including.files (.directory content)) :
    Entry.of w.start names ∈ walked w (.directory content) ↔
      FileName.isSupported (Entry.of w.start names).name = true ∧
        spares w.excluded false names.reverse = true := by
  rw [walked_eq_map hwanted, List.mem_map, ← Bool.and_eq_true]
  constructor
  · rintro ⟨others, hothers, heq⟩
    obtain ⟨hmem, hkept⟩ := List.mem_filter.mp hothers
    obtain rfl := Walk.path_injOn_files hstart hcontent hmem hnames (congrArg Entry.path heq)
    exact hkept
  · exact fun hkept => ⟨names, List.mem_filter.mpr ⟨hnames, hkept⟩, rfl⟩

/-- A walk with the rules of two others finds what both find. -/
theorem walked_eq_filter {w : Walk} {rules both : List Rule}
    (hwanted : ∀ rule ∈ w.excluded, rule.wanted = true)
    (hothers : ∀ rule ∈ rules, rule.wanted = true)
    (hboth : ∀ rule, rule ∈ both ↔ rule ∈ w.excluded ∨ rule ∈ rules) (hstart : w.start ≠ [])
    {content : List (Name × Node)} (hcontent : (Node.directory content).WellFormed) :
    walked { w with excluded := both } (.directory content) =
      (walked w (.directory content)).filter
        (· ∈ walked { w with excluded := rules } (.directory content)) := by
  have hasked : ∀ rule ∈ both, rule.wanted = true := fun rule hrule =>
    ((hboth rule).mp hrule).elim (hwanted rule) (hothers rule)
  have hincluding : { w with excluded := both }.including = w.including := rfl
  rw [walked_eq_map (w := { w with excluded := both }) hasked, walked_eq_map hwanted, hincluding,
    List.filter_map, List.filter_filter]
  refine congrArg (List.map (Entry.of w.start)) (List.filter_congr fun names hnames => ?_)
  have hmem := mem_walked_iff (w := { w with excluded := rules }) hothers hstart hcontent hnames
  rw [Function.comp_apply, Bool.eq_iff_iff]
  simp only [Bool.and_eq_true, decide_eq_true_eq, hmem, spares_eq_and hboth]
  tauto

variable {w : Walk} {options : ScanConfig} {content : List (Name × Node)}

theorem Walk.Scans.excluding (h : w.Scans options content) {excluded : List String}
    {rules : List Rule} (hrules : exclusions excluded = .ok rules) :
    { w with excluded := rules }.Scans { options with excluded } content :=
  ⟨h.names, h.at_root, hrules, h.respects⟩

theorem Walk.Scans.heedless (h : w.Scans options content) :
    w.heedless.Scans { options with respectIgnoreFiles := false } content :=
  ⟨h.names, h.at_root, h.excluded, rfl⟩

/-- Two scans of one directory that heed the same walk alike, each with its own rules. -/
theorem Walk.Scans.exists_excluding (h : w.Scans options content) {excluded : List String}
    {others : List Entry}
    (hscan : Scan.entries w.tree w.start { options with excluded } = .ok others) :
    ∃ rules, exclusions excluded = .ok rules ∧
      others = sorted (walked { w with excluded := rules } (.directory content)) := by
  obtain ⟨u, _, -, -, hu, -⟩ := exists_scans_of_entries hscan
  exact ⟨u.excluded, hu.excluded,
    Except.ok.inj (hscan.symm.trans (h.excluding hu.excluded).entries)⟩

/-- A scan that excludes the names of two lists finds what both scans that exclude one of them
    find. -/
theorem entries_append {t : Tree} (ht : t.top.WellFormed) {root : List UInt8}
    {first second : List String} {respects : Bool} {found others : List Entry}
    (hfirst : entries t root ⟨first, respects⟩ = .ok found)
    (hsecond : entries t root ⟨second, respects⟩ = .ok others) :
    entries t root ⟨first ++ second, respects⟩ = .ok (found.filter (· ∈ others)) := by
  obtain ⟨w, content, rfl, rfl, hscans, rfl⟩ := exists_scans_of_entries hfirst
  obtain ⟨rules, hrules, rfl⟩ := hscans.exists_excluding hsecond
  obtain ⟨both, hboth, hmem⟩ := exists_exclusions_append hscans.excluded hrules
  have hcontent := (ht.at? hscans.at_root).1
  have hwalked := walked_eq_filter (wanted_of_mem_exclusions hscans.excluded)
    (wanted_of_mem_exclusions hrules) hmem hscans.start_ne_nil hcontent
  have hentries := (hscans.excluding hboth).entries
  rw [hwalked, sorted_filter] at hentries
  simpa only [mem_sorted] using hentries

theorem exists_entries_of_append {t : Tree} {root : List UInt8} {first second : List String}
    {respects : Bool} {found : List Entry}
    (hscan : entries t root ⟨first ++ second, respects⟩ = .ok found) :
    ∃ others, entries t root ⟨second, respects⟩ = .ok others := by
  obtain ⟨w, content, rfl, rfl, hscans, -⟩ := exists_scans_of_entries hscan
  have hlines := (exists_exclusions_iff (first ++ second)).mp ⟨w.excluded, hscans.excluded⟩
  rw [linesOf_append] at hlines
  obtain ⟨rules, hrules⟩ := (exists_exclusions_iff second).mpr
    (List.forall_mem_append.mp hlines).2
  exact ⟨_, (hscans.excluding hrules).entries⟩

/-- The order of excluded names, and how often they are given, do not matter. -/
theorem entries_of_mem_iff {t : Tree} {root : List UInt8} {excluded others : List String}
    {respects : Bool} (hsame : ∀ name, name ∈ excluded ↔ name ∈ others) {found : List Entry}
    (hscan : entries t root ⟨excluded, respects⟩ = .ok found) :
    entries t root ⟨others, respects⟩ = .ok found := by
  obtain ⟨w, content, rfl, rfl, hscans, rfl⟩ := exists_scans_of_entries hscan
  obtain ⟨rules, hrules, hmem⟩ := exists_exclusions_of_mem_iff hsame hscans.excluded
  have htwice : ∀ rule, rule ∈ rules ↔ rule ∈ w.excluded ∨ rule ∈ w.excluded := fun rule =>
    (hmem rule).trans or_self_iff.symm
  have hspares : spares rules = spares w.excluded := by
    funext isDirectory path
    rw [spares_eq_and htwice, Bool.and_self]
  have hentries := (hscans.excluding hrules).entries
  rw [walked_eq_map (wanted_of_mem_exclusions hrules), hspares] at hentries
  rw [walked_eq_map (wanted_of_mem_exclusions hscans.excluded)]
  exact hentries

/-- Heeding ignore files only removes entries. -/
theorem exists_entries_heedless {t : Tree} {root : List UInt8} {excluded : List String}
    {heeding : List Entry} (hscan : entries t root ⟨excluded, true⟩ = .ok heeding) :
    ∃ all, entries t root ⟨excluded, false⟩ = .ok all ∧ heeding.Sublist all := by
  obtain ⟨w, content, rfl, rfl, hscans, rfl⟩ := exists_scans_of_entries hscan
  refine ⟨_, hscans.heedless.entries, sorted_sublist (List.Sublist.filter _ (List.Sublist.map _ ?_))⟩
  exact w.files_sublist_heedless _

/-- Lists of excluded names act one after the other as filters, so that neither their order nor their
    repetitions matter and more of them only remove entries; and so does heeding ignore files. -/
theorem entries_excluding {t : Tree} (ht : t.top.WellFormed) (root : List UInt8) :
    (∀ first second respects found others, entries t root ⟨first, respects⟩ = .ok found →
      entries t root ⟨second, respects⟩ = .ok others →
      entries t root ⟨first ++ second, respects⟩ = .ok (found.filter (· ∈ others))) ∧
    (∀ excluded others respects found, (∀ name, name ∈ excluded ↔ name ∈ others) →
      entries t root ⟨excluded, respects⟩ = .ok found →
      entries t root ⟨others, respects⟩ = .ok found) ∧
    (∀ excluded added respects found fewer, entries t root ⟨excluded, respects⟩ = .ok found →
      entries t root ⟨excluded ++ added, respects⟩ = .ok fewer → fewer.Sublist found) ∧
    ∀ excluded heeding, entries t root ⟨excluded, true⟩ = .ok heeding →
      ∃ all, entries t root ⟨excluded, false⟩ = .ok all ∧ heeding.Sublist all := by
  refine ⟨fun _ _ _ _ _ hfirst hsecond => entries_append ht hfirst hsecond,
    fun _ _ _ _ hsame hscan => entries_of_mem_iff hsame hscan, ?_,
    fun _ _ hscan => exists_entries_heedless hscan⟩
  intro excluded added respects found fewer hscan hfewer
  obtain ⟨others, hothers⟩ := exists_entries_of_append hfewer
  rw [entries_append ht hscan hothers] at hfewer
  rw [← Except.ok.inj hfewer]
  exact List.filter_sublist

/-- Two files of one name, one of them in a directory, and another file. -/
def nestedContent : List (Name × Node) :=
  [(Name.of "d", .directory [(Name.of "a.c", .file [])]), (Name.of "a.c", .file []),
    (Name.of "b.c", .file [])]

theorem wellFormed_nestedContent : (Node.directory nestedContent).WellFormed := by
  have hinner : (Node.directory [(Name.of "a.c", .file [])]).WellFormed := by
    have hname : IsName (Name.of "a.c") := by decide
    refine .directory (by decide) (List.forall_mem_singleton.mpr hname) ?_
    exact List.forall_mem_singleton.mpr (.file [])
  have hnames : ∀ name ∈ nestedContent.map Prod.fst, IsName name := by decide
  refine .directory (by decide) (fun entry hentry => hnames _ (List.mem_map_of_mem hentry))
    fun entry hentry => ?_
  simp only [nestedContent, List.mem_cons, List.not_mem_nil, or_false] at hentry
  obtain rfl | rfl | rfl := hentry
  · exact hinner
  · exact .file []
  · exact .file []

/-- A walk through these files that leaves out those of one name. -/
def nestedWalk : Walk :=
  { topWalk nestedContent with
    excluded := [⟨[.leading, .literal 'a', .literal '.', .literal 'c'], false, true⟩,
      ⟨[.leading, .literal 'a', .literal '.', .literal 'c', .between, .star], false, true⟩] }

/-- Without the files of one name and without what is in the directory, one file is left. -/
theorem entries_excluding_nested :
    ∃ found others heeding, found = [Entry.of [Path.slash] [Name.of "b.c"]] ∧
      entries ⟨.directory nestedContent, []⟩ [Path.slash] ⟨["a.c"], false⟩ = .ok found ∧
      entries ⟨.directory nestedContent, []⟩ [Path.slash] ⟨["d"], false⟩ = .ok others ∧
      entries ⟨.directory nestedContent, []⟩ [Path.slash] ⟨["a.c", "d"], false⟩ =
        .ok (found.filter (· ∈ others)) ∧
      entries ⟨.directory nestedContent, []⟩ [Path.slash] ⟨["d", "a.c", "d"], false⟩ =
        .ok (found.filter (· ∈ others)) ∧
      (found.filter (· ∈ others)).Sublist found ∧
      entries ⟨.directory nestedContent, []⟩ [Path.slash] ⟨["d"], true⟩ = .ok heeding ∧
      heeding.Sublist others := by
  have hscans := scans_topWalk nestedContent
  have hheeding : { topWalk nestedContent with respectIgnoreFiles := true }.Scans ⟨[], true⟩
      nestedContent := ⟨hscans.names, hscans.at_root, hscans.excluded, rfl⟩
  have hfirst : exclusions ["a.c"] = .ok nestedWalk.excluded := by with_unfolding_all rfl
  have hsecond : exclusions ["d"] = .ok [⟨[.leading, .literal 'd'], false, true⟩,
      ⟨[.leading, .literal 'd', .between, .star], false, true⟩] := by
    with_unfolding_all rfl
  have hfound := (hscans.excluding hfirst).entries
  have hothers := (hscans.excluding hsecond).entries
  have hfewer := (hheeding.excluding hsecond).entries
  obtain ⟨hcompose, hsame, hremove, hheed⟩ :=
    entries_excluding (t := (topWalk nestedContent).tree) wellFormed_nestedContent [Path.slash]
  have hboth := hcompose _ _ _ _ _ hfound hothers
  obtain ⟨all, hall, hsublist⟩ := hheed _ _ hfewer
  obtain rfl := Except.ok.inj (hothers.symm.trans hall)
  have hagain := hsame _ ["d", "a.c", "d"] _ _ (by simp [or_comm]) hboth
  refine ⟨_, _, _, ?_, hfound, hothers, hboth, hagain, hremove _ _ _ _ _ hfound hboth, hfewer,
    hsublist⟩
  have hfiles : nestedWalk.files (.directory nestedContent) = [[Name.of "b.c"]] := by decide
  have hwalked : walked nestedWalk (.directory nestedContent) =
      [Entry.of [Path.slash] [Name.of "b.c"]] :=
    (walked_of_isSupported (by rw [hfiles]; decide)).trans (by rw [hfiles]; rfl)
  exact (congrArg sorted hwalked).trans (List.mergeSort_singleton _)

end SourceSurvey.Scan
