import Mathlib.Data.List.Pairwise
import SourceSurvey.Proofs.Files.Alike
import SourceSurvey.Proofs.Scan.Listing

/-!
The order of the entries of a scan. Entries come by their relative paths, in which a backslash counts
as a slash and bytes that are no text count alike. As long as no two files are told apart by these
alone, the order is strict and does not depend on the order in which directories are listed;
otherwise two files share a relative path.
-/

namespace SourceSurvey.Scan

open Files
open Files.Path (slash)

namespace Walk

variable {w : Walk} {u : Tree}

theorem leadsToFile_eq_of_alike (h : w.tree.Alike u) (path : List Name) :
    { w with tree := u }.leadsToFile path = w.leadsToFile path := by
  have hfind := h.find (pathBelow w.start path.reverse)
  rw [leadsToFile, leadsToFile]
  cases ht : w.tree.find (pathBelow w.start path.reverse) with
  | error failure =>
    rw [ht] at hfind
    cases hu : u.find (pathBelow w.start path.reverse) with
    | error other => rfl
    | ok found => rw [hu] at hfind; cases hfind
  | ok node =>
    rw [ht] at hfind
    cases hu : u.find (pathBelow w.start path.reverse) with
    | error other => rw [hu] at hfind; cases hfind
    | ok found =>
      rw [hu] at hfind
      have hface : node.face = found.face := Except.ok.inj hfind
      show found.isFile = node.isFile
      rw [← Node.isFile_face, ← hface, Node.isFile_face]

theorem enter_eq_of_alike (h : w.tree.Alike u) (path : List Name) (layers : List Layer) :
    { w with tree := u }.enter path layers = w.enter path layers := by
  simp only [enter, Layer.ofDirectory_eq_of_alike h]

theorem outside_eq_of_alike (h : w.tree.Alike u) : { w with tree := u }.outside = w.outside := by
  unfold outside
  simp only [layersOf_eq_of_alike h]

theorem admits_iff_of_alike (h : w.tree.Alike u) (names : List Name) :
    ∀ layers path, { w with tree := u }.Admits layers path names ↔ w.Admits layers path names := by
  induction names with
  | nil => exact fun _ _ => Iff.rfl
  | cons name rest ih =>
    intro layers path
    cases rest with
    | nil => exact Iff.rfl
    | cons next rest =>
      have hrest := ih (w.enter (name :: path) layers) (name :: path)
      rw [← enter_eq_of_alike h] at hrest
      exact and_congr Iff.rfl (and_congr Iff.rfl (hrest.trans (by rw [enter_eq_of_alike h])))

/-- Where one walk lists something, the other one does. -/
theorem exists_lists_of_alike (h : w.tree.Alike u) {n m : Node} (hnm : n.Alike m)
    {names : List Name} (hlists : ∃ target, n.at? names = some target ∧
      w.Lists names.reverse target) :
    ∃ target, m.at? names = some target ∧ { w with tree := u }.Lists names.reverse target := by
  obtain ⟨target, hat, hlists⟩ := hlists
  have hface := hnm names
  rw [hat, Option.map_some] at hface
  obtain ⟨found, hfound, hface⟩ := Option.map_eq_some_iff.mp hface.symm
  cases hlists with
  | file content =>
    obtain rfl := Node.eq_of_face_eq rfl hface.symm
    exact ⟨_, hfound, .file content⟩
  | link target hfile =>
    obtain rfl := Node.eq_of_face_eq rfl hface.symm
    exact ⟨_, hfound, .link target (by rw [leadsToFile_eq_of_alike h]; exact hfile)⟩

/-- Walks through alike trees find the same files. -/
theorem files_perm_of_alike (h : w.tree.Alike u) {n m : Node} (hn : n.WellFormed)
    (hm : m.WellFormed) (hnm : n.Alike m) :
    ({ w with tree := u }.files m).Perm (w.files n) := by
  refine (List.perm_ext_iff_of_nodup (nodup_files hm) (nodup_files hn)).mpr fun names => ?_
  rw [mem_files_iff hm, mem_files_iff hn, enter_eq_of_alike h, outside_eq_of_alike h]
  simp only [admits_iff_of_alike h]
  constructor
  · rintro ⟨hstream, target, hat, hlists, hadmits⟩
    obtain ⟨found, hfound, hother⟩ :=
      exists_lists_of_alike (w := { w with tree := u }) h.symm hnm.symm ⟨target, hat, hlists⟩
    exact ⟨hstream, found, hfound, hother, hadmits⟩
  · rintro ⟨hstream, target, hat, hlists, hadmits⟩
    obtain ⟨found, hfound, hother⟩ := exists_lists_of_alike h hnm ⟨target, hat, hlists⟩
    exact ⟨hstream, found, hfound, hother, hadmits⟩

end Walk

/-! ### What a scan gives -/

/-- The order of entries, as a scan sorts them. -/
def sorted (found : List Entry) : List Entry :=
  found.mergeSort fun a b => String.ofList a.relative ≤ String.ofList b.relative

/-- The entries of a walk, in the order of the walk. -/
def walked (w : Walk) (directory : Node) : List Entry :=
  ((w.files directory).map (Entry.of w.start)).filter fun entry => FileName.isSupported entry.name

/-- A walk that a scan takes through a directory. -/
structure Walk.Scans (w : Walk) (options : ScanConfig) (content : List (Name × Node)) : Prop where
  names : w.tree.names w.start = .ok w.root
  at_root : w.tree.top.at? w.root = some (.directory content)
  excluded : exclusions options.excluded = .ok w.excluded
  respects : w.respectIgnoreFiles = options.respectIgnoreFiles

/-- A scan that succeeds has walked through a directory, and sorted what it found. -/
theorem exists_scans_of_entries {t : Tree} {root : List UInt8} {options : ScanConfig}
    {found : List Entry} (hscan : entries t root options = .ok found) :
    ∃ (w : Walk) (content : List (Name × Node)), w.tree = t ∧ w.start = root ∧
      w.Scans options content ∧ found = sorted (walked w (.directory content)) := by
  unfold entries at hscan
  cases hnames : t.names root with
  | error failure =>
    rw [hnames] at hscan
    cases hscan
  | ok above =>
    simp only [hnames, Except.mapError, bind, Except.bind] at hscan
    split at hscan
    · next content hat =>
      cases hrules : exclusions options.excluded with
      | error failure =>
        rw [hrules] at hscan
        cases hscan
      | ok rules =>
        rw [hrules] at hscan
        exact ⟨⟨t, root, above, rules, options.respectIgnoreFiles⟩, content, rfl, rfl,
          ⟨hnames, hat, hrules, rfl⟩, (Except.ok.inj hscan).symm⟩
    · cases hscan

theorem Walk.Scans.entries {w : Walk} {options : ScanConfig} {content : List (Name × Node)}
    (h : w.Scans options content) :
    entries w.tree w.start options = .ok (sorted (walked w (.directory content))) := by
  unfold Scan.entries
  simp only [h.names, Except.mapError, bind, Except.bind, h.at_root, h.excluded, ← h.respects]
  rfl

theorem Walk.Scans.start_ne_nil {w : Walk} {options : ScanConfig} {content : List (Name × Node)}
    (h : w.Scans options content) : w.start ≠ [] := by
  intro hnil
  have hnames := h.names
  rw [hnil] at hnames
  cases hnames

theorem mem_sorted {found : List Entry} {entry : Entry} : entry ∈ sorted found ↔ entry ∈ found :=
  List.mem_mergeSort

theorem shown_append_slash (first rest : List UInt8) :
    Path.shown (first ++ slash :: rest) = Path.shown first ++ '/' :: Path.shown rest := by
  have hslash : slash.toNat < 0x80 := by decide
  rw [Path.shown, Path.text, Text.Utf8.decodeLossy_append hslash, List.map_append, List.map_cons]
  rfl

theorem shown_encode (text : List Char) :
    Path.shown (Text.Utf8.encode text) = text.map fun c => if c == '\\' then '/' else c := by
  rw [Path.shown, Path.text, Text.Utf8.decodeLossy_encode]

theorem shown_nil : Path.shown [] = [] := shown_encode []

/-- A text without backslashes is shown as it is. -/
theorem shown_encode_of_not_mem {text : List Char} (h : '\\' ∉ text) :
    Path.shown (Text.Utf8.encode text) = text := by
  rw [shown_encode]
  refine (List.map_congr_left fun c hc => ?_).trans (List.map_id text)
  have hne : c ≠ '\\' := fun heq => h (heq ▸ hc)
  simp [hne]

/-- All paths below a root are shown with the same text before what comes behind the root. -/
theorem exists_shown_behind {root : List UInt8} (hroot : root ≠ []) :
    ∃ front, ∀ names : List Name, names ≠ [] → (∀ name ∈ names, IsName name) →
      ∃ behind, pathBelow root names = root ++ behind ∧
        Path.shown (root ++ behind) = front ++ Path.shown behind := by
  by_cases hlast : root.getLast? = some slash
  · obtain ⟨start, rfl⟩ := List.getLast?_eq_some_iff.mp hlast
    refine ⟨Path.shown start ++ ['/'], fun names hne hnames => ⟨Text.join [slash] names, ?_, ?_⟩⟩
    · rw [pathBelow_eq_append hroot hne hnames, rooted, hlast, if_pos (beq_self_eq_true _)]
    · rw [List.append_assoc, List.singleton_append, shown_append_slash, List.append_assoc,
        List.singleton_append]
  · refine ⟨Path.shown root, fun names hne hnames => ⟨slash :: Text.join [slash] names, ?_, ?_⟩⟩
    · rw [pathBelow_eq_append hroot hne hnames, rooted, if_neg (by simpa using hlast),
        List.append_assoc, List.singleton_append]
    · have hbehind := shown_append_slash [] (Text.join [slash] names)
      rw [List.nil_append, shown_nil, List.nil_append] at hbehind
      rw [shown_append_slash, hbehind]

theorem exists_names_of_mem_walked {w : Walk} {directory : Node} {entry : Entry}
    (hentry : entry ∈ walked w directory) :
    ∃ names ∈ w.files directory, entry = Entry.of w.start names := by
  obtain ⟨hmem, -⟩ := List.mem_filter.mp hentry
  obtain ⟨names, hfile, rfl⟩ := List.mem_map.mp hmem
  exact ⟨names, hfile, rfl⟩

/-- Entries of a walk are told apart by their paths, and have one relative path exactly if their
    paths are shown alike. -/
theorem relative_eq_iff_of_mem_walked {w : Walk} {content : List (Name × Node)}
    (hcontent : (Node.directory content).WellFormed) (hstart : w.start ≠ []) {a b : Entry}
    (ha : a ∈ walked w (.directory content)) (hb : b ∈ walked w (.directory content)) :
    (a.path = b.path → a = b) ∧
      (a.relative = b.relative ↔ Path.shown a.path = Path.shown b.path) := by
  obtain ⟨names, hfile, rfl⟩ := exists_names_of_mem_walked ha
  obtain ⟨others, hother, rfl⟩ := exists_names_of_mem_walked hb
  obtain ⟨hne, hnames⟩ := Walk.names_of_mem_files hcontent hfile
  obtain ⟨hne', hothers⟩ := Walk.names_of_mem_files hcontent hother
  constructor
  · intro heq
    rw [Walk.path_injOn_files hstart hcontent hfile hother heq]
  · show Path.shown _ = Path.shown _ ↔
      Path.shown (pathBelow w.start names) = Path.shown (pathBelow w.start others)
    obtain ⟨front, hfront⟩ : ∃ front, rooted w.start = front ++ [slash] := by
      rw [rooted]
      split
      · next hlast => exact List.getLast?_eq_some_iff.mp (eq_of_beq hlast)
      · exact ⟨_, rfl⟩
    rw [pathBelow_eq_append hstart hne hnames, pathBelow_eq_append hstart hne' hothers, hfront,
      List.append_assoc, List.append_assoc, List.singleton_append, List.singleton_append,
      shown_append_slash, shown_append_slash, List.append_cancel_left_eq, List.cons.injEq,
      eq_self, true_and]

/-- Files that are all supported are all walked. -/
theorem walked_of_isSupported {w : Walk} {directory : Node}
    (hsupported : ∀ names ∈ w.files directory, IsSupported (names.getLast?.getD [])) :
    walked w directory = (w.files directory).map (Entry.of w.start) := by
  refine List.filter_eq_self.mpr fun entry hentry => ?_
  obtain ⟨names, hnames, rfl⟩ := List.mem_map.mp hentry
  exact (isSupported_iff _).mpr (hsupported names hnames)

theorem nodup_walked {w : Walk} {content : List (Name × Node)}
    (hcontent : (Node.directory content).WellFormed) (hstart : w.start ≠ []) :
    (walked w (.directory content)).Nodup := by
  refine List.Nodup.filter _ (List.Nodup.map_on ?_ (Walk.nodup_files hcontent))
  intro names hnames others hothers heq
  exact Walk.path_injOn_files hstart hcontent hnames hothers (congrArg Entry.path heq)

/-! ### Sorting -/

/-- The strict order of entries. -/
def Ascending (found : List Entry) : Prop :=
  found.Pairwise fun first second =>
    String.ofList first.relative < String.ofList second.relative

theorem string_lt_of_le_of_ne {a b : String} (hle : a ≤ b) (hne : a ≠ b) : a < b := by
  by_contra hlt
  exact hne (String.le_antisymm hle (String.not_lt.mp hlt))

/-- Sorted entries ascend strictly exactly if no two of them have one relative path. -/
theorem ascending_sorted_iff {found : List Entry} (hnodup : found.Nodup) :
    Ascending (sorted found) ↔ ∀ a ∈ found, ∀ b ∈ found, a.relative = b.relative → a = b := by
  have hperm : (sorted found).Perm found := List.mergeSort_perm found _
  constructor
  · intro hascending a ha b hb heq
    by_contra hne
    have hdistinct : (sorted found).Pairwise fun a b => a.relative ≠ b.relative :=
      hascending.imp fun {a b} hlt heq => by
        rw [heq] at hlt
        exact String.lt_irrefl _ hlt
    have hsymm : Std.Symm fun a b : Entry => a.relative ≠ b.relative := ⟨fun _ _ h => h.symm⟩
    exact hdistinct.forall (hperm.mem_iff.mpr ha) (hperm.mem_iff.mpr hb) hne heq
  · intro hdistinct
    have hsorted := pairwise_mergeSort_relative found
    refine (hsorted.and (hperm.nodup_iff.mpr hnodup)).imp_of_mem ?_
    rintro a b ha hb ⟨hle, hne⟩
    refine string_lt_of_le_of_ne hle fun heq => hne ?_
    exact hdistinct a (hperm.mem_iff.mp ha) b (hperm.mem_iff.mp hb) (String.ofList_injective heq)

/-- Sorting entries of different relative paths forgets their order. -/
theorem sorted_eq_of_perm {found others : List Entry} (hperm : found.Perm others)
    (hdistinct : ∀ a ∈ found, ∀ b ∈ found, a.relative = b.relative → a = b) :
    sorted found = sorted others := by
  have hsorted : (sorted found).Perm (sorted others) :=
    (List.mergeSort_perm found _).trans (hperm.trans (List.mergeSort_perm others _).symm)
  refine hsorted.eq_of_pairwise ?_ (pairwise_mergeSort_relative found)
    (pairwise_mergeSort_relative others)
  intro a b ha hb hle hge
  refine hdistinct a (mem_sorted.mp ha) b (hperm.mem_iff.mpr (mem_sorted.mp hb)) ?_
  exact String.ofList_injective (String.le_antisymm hle hge)

/-! ### The order of a scan -/

/-- Two entries clash if their paths differ, but are shown alike: they differ in nothing but that
    some slashes are backslashes, or in bytes that are no text. -/
def Clash (a b : Entry) : Prop := a.path ≠ b.path ∧ Path.shown a.path = Path.shown b.path

theorem ascending_walked_iff {w : Walk} {content : List (Name × Node)}
    (hcontent : (Node.directory content).WellFormed) (hstart : w.start ≠ []) :
    Ascending (sorted (walked w (.directory content))) ↔
      ∀ a ∈ walked w (.directory content), ∀ b ∈ walked w (.directory content), ¬ Clash a b := by
  rw [ascending_sorted_iff (nodup_walked hcontent hstart)]
  constructor
  · rintro hdistinct a ha b hb ⟨hne, hshown⟩
    have hsame := (relative_eq_iff_of_mem_walked hcontent hstart ha hb).2.mpr hshown
    exact hne (congrArg Entry.path (hdistinct a ha b hb hsame))
  · intro hnone a ha b hb hsame
    obtain ⟨hpath, hshown⟩ := relative_eq_iff_of_mem_walked hcontent hstart ha hb
    refine hpath ?_
    by_contra hne
    exact hnone a ha b hb ⟨hne, hshown.mp hsame⟩

/-- A path that is text and has no backslash. -/
def IsPlainText (path : List UInt8) : Prop := ∃ text, '\\' ∉ text ∧ path = Text.Utf8.encode text

/-- Entries whose paths are plain text behind the root do not clash. -/
theorem not_clash_of_plain {w : Walk} {content : List (Name × Node)}
    (hcontent : (Node.directory content).WellFormed) (hstart : w.start ≠ []) {a b : Entry}
    (ha : a ∈ walked w (.directory content)) (hb : b ∈ walked w (.directory content))
    (hplain : IsPlainText (a.path.drop w.start.length))
    (hother : IsPlainText (b.path.drop w.start.length)) : ¬ Clash a b := by
  obtain ⟨front, hfront⟩ := exists_shown_behind hstart
  have hsplit {entry : Entry} (hentry : entry ∈ walked w (.directory content)) :
      ∃ behind, entry.path = w.start ++ behind ∧
        Path.shown (w.start ++ behind) = front ++ Path.shown behind := by
    obtain ⟨names, hfile, rfl⟩ := exists_names_of_mem_walked hentry
    obtain ⟨hne, hnames⟩ := Walk.names_of_mem_files hcontent hfile
    exact hfront names hne hnames
  obtain ⟨first, hfirst, hshownFirst⟩ := hsplit ha
  obtain ⟨second, hsecond, hshownSecond⟩ := hsplit hb
  rintro ⟨hne, hshown⟩
  rw [hfirst, List.drop_left] at hplain
  rw [hsecond, List.drop_left] at hother
  obtain ⟨text, htext, rfl⟩ := hplain
  obtain ⟨other, hothers, rfl⟩ := hother
  rw [hfirst, hsecond, hshownFirst, hshownSecond, List.append_cancel_left_eq,
    shown_encode_of_not_mem htext, shown_encode_of_not_mem hothers] at hshown
  exact hne (by rw [hfirst, hsecond, hshown])

/-- A scan finds the same in a tree that differs in nothing but the order of its entries. -/
theorem Walk.Scans.of_alike {w : Walk} {options : ScanConfig} {content : List (Name × Node)}
    (h : w.Scans options content) (ht : w.tree.top.WellFormed) {u : Tree} (hu : u.top.WellFormed)
    (halike : w.tree.Alike u) :
    ∃ others, { w with tree := u }.Scans options others ∧
      (walked w (.directory content)).Perm
        (walked { w with tree := u } (.directory others)) := by
  obtain ⟨others, hother, -⟩ := halike.top.directory h.at_root
  refine ⟨others, ⟨?_, hother, h.excluded, h.respects⟩, ?_⟩
  · rw [← halike.names]
    exact h.names
  · have hcontent := (ht.at? h.at_root).1
    have hothers := (hu.at? hother).1
    have hfiles := files_perm_of_alike halike hcontent hothers (halike.top.below h.at_root hother)
    exact ((hfiles.map _).filter _).symm

/-- The entries of a scan ascend strictly by their relative paths exactly if no two of them clash,
    and none clash if behind the root all paths are text without backslashes. Entries that ascend
    strictly are found in every tree that differs in nothing but the order of its entries. -/
theorem ascending_entries_iff {t : Tree} (ht : t.top.WellFormed) {root : List UInt8}
    {options : ScanConfig} {found : List Entry} (hscan : entries t root options = .ok found) :
    (Ascending found ↔ ∀ a ∈ found, ∀ b ∈ found, ¬ Clash a b) ∧
    ((∀ entry ∈ found, IsPlainText (entry.path.drop root.length)) → Ascending found) ∧
    (Ascending found → ∀ u : Tree, u.top.WellFormed → t.Alike u →
      entries u root options = .ok found) := by
  obtain ⟨w, content, rfl, rfl, hscans, rfl⟩ := exists_scans_of_entries hscan
  have hstart := hscans.start_ne_nil
  have hcontent := (ht.at? hscans.at_root).1
  have hiff := ascending_walked_iff hcontent hstart
  simp only [mem_sorted]
  refine ⟨hiff, fun hplain => hiff.mpr ?_, fun hascending u hu halike => ?_⟩
  · intro a ha b hb
    exact not_clash_of_plain hcontent hstart ha hb (hplain a ha) (hplain b hb)
  · obtain ⟨others, hother, hperm⟩ := hscans.of_alike ht hu halike
    have hdistinct := (ascending_sorted_iff (nodup_walked hcontent hstart)).mp hascending
    rw [sorted_eq_of_perm hperm hdistinct]
    exact hother.entries

/-- A walk from the top of a tree of some entries that leaves nothing out. -/
def topWalk (content : List (Name × Node)) : Walk := openWalk ⟨.directory content, []⟩ [slash] []

theorem scans_topWalk (content : List (Name × Node)) :
    (topWalk content).Scans ⟨[], false⟩ content :=
  ⟨names_slash rfl, rfl, rfl, rfl⟩

/-- Two files, the second of which comes first by its relative path. -/
def unorderedContent : List (Name × Node) :=
  [(Name.of "b.py", .file []), (Name.of "a.py", .file [])]

theorem ascending_entries_unordered :
    ∃ found, entries ⟨.directory unorderedContent, []⟩ [slash] ⟨[], false⟩ = .ok found ∧
      Ascending found := by
  have hwell : (Node.directory unorderedContent).WellFormed := by
    have hnames : ∀ name ∈ unorderedContent.map Prod.fst, IsName name := by decide
    refine .directory (by decide) (fun entry hentry => hnames _ (List.mem_map_of_mem hentry))
      fun entry hentry => ?_
    simp only [unorderedContent, List.mem_cons, List.not_mem_nil, or_false] at hentry
    obtain rfl | rfl := hentry
    · exact .file []
    · exact .file []
  have hscan := (scans_topWalk unorderedContent).entries
  obtain ⟨-, hplain, -⟩ := ascending_entries_iff hwell hscan
  refine ⟨_, hscan, hplain fun entry hentry => ?_⟩
  have hfiles : (topWalk unorderedContent).files (.directory unorderedContent) =
      [[Name.of "b.py"], [Name.of "a.py"]] := rfl
  have hwalked : walked (topWalk unorderedContent) (.directory unorderedContent) =
      [Entry.of [slash] [Name.of "b.py"], Entry.of [slash] [Name.of "a.py"]] :=
    (walked_of_isSupported (by rw [hfiles]; decide)).trans (by rw [hfiles]; rfl)
  rw [mem_sorted, hwalked, List.mem_cons, List.mem_singleton] at hentry
  obtain rfl | rfl := hentry
  · exact ⟨"b.py".toList, by decide, rfl⟩
  · exact ⟨"a.py".toList, by decide, rfl⟩

/-- A file in two directories, and one in a single directory whose name has a backslash for the
    slash between them. -/
def clashingContent : List (Name × Node) :=
  [(Name.of "a", .directory [(Name.of "b", .directory [(Name.of "c.py", .file [])])]),
    (Name.of "a\\b", .directory [(Name.of "c.py", .file [])])]

theorem sorted_pair {a b : Entry} (h : a.relative = b.relative) : sorted [a, b] = [a, b] := by
  refine List.mergeSort_of_pairwise ?_
  rw [List.pairwise_pair, h]
  exact decide_eq_true (String.le_refl _)

/-- The entries of these files have one relative path, and come in the order in which they are
    listed. -/
theorem not_ascending_entries_clashing :
    ∃ found others, entries ⟨.directory clashingContent, []⟩ [slash] ⟨[], false⟩ = .ok found ∧
      entries ⟨.directory clashingContent.reverse, []⟩ [slash] ⟨[], false⟩ = .ok others ∧
      ¬ Ascending found ∧ found ≠ others := by
  have hscan := (scans_topWalk clashingContent).entries
  have hother := (scans_topWalk clashingContent.reverse).entries
  have hfiles : (topWalk clashingContent).files (.directory clashingContent) =
      [[Name.of "a", Name.of "b", Name.of "c.py"], [Name.of "a\\b", Name.of "c.py"]] := rfl
  have hreversed : (topWalk clashingContent.reverse).files (.directory clashingContent.reverse) =
      [[Name.of "a\\b", Name.of "c.py"], [Name.of "a", Name.of "b", Name.of "c.py"]] := rfl
  have hslashes : Text.join [slash] [Name.of "a", Name.of "b", Name.of "c.py"] =
      Name.of "a/b/c.py" := by decide
  have hbackslash : Text.join [slash] [Name.of "a\\b", Name.of "c.py"] = Name.of "a\\b/c.py" := by
    decide
  have hsame : (Entry.of [slash] [Name.of "a", Name.of "b", Name.of "c.py"]).relative =
      (Entry.of [slash] [Name.of "a\\b", Name.of "c.py"]).relative := by
    show Path.shown (Text.join _ _) = Path.shown (Text.join _ _)
    rw [hslashes, hbackslash, Name.of, Name.of, shown_encode, shown_encode]
    rfl
  have hwalked : walked (topWalk clashingContent) (.directory clashingContent) =
      [Entry.of [slash] [Name.of "a", Name.of "b", Name.of "c.py"],
        Entry.of [slash] [Name.of "a\\b", Name.of "c.py"]] :=
    (walked_of_isSupported (by rw [hfiles]; decide)).trans (by rw [hfiles]; rfl)
  have hothers : walked (topWalk clashingContent.reverse) (.directory clashingContent.reverse) =
      [Entry.of [slash] [Name.of "a\\b", Name.of "c.py"],
        Entry.of [slash] [Name.of "a", Name.of "b", Name.of "c.py"]] :=
    (walked_of_isSupported (by rw [hreversed]; decide)).trans (by rw [hreversed]; rfl)
  rw [hwalked, sorted_pair hsame] at hscan
  rw [hothers, sorted_pair hsame.symm] at hother
  refine ⟨_, _, hscan, hother, ?_, fun heq => ?_⟩
  · rw [Ascending, List.pairwise_pair, hsame]
    exact String.lt_irrefl _
  · have hpath := congrArg Entry.path (List.cons.inj heq).1
    exact absurd hpath (by decide)

end SourceSurvey.Scan
