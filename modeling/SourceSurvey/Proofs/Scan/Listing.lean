import SourceSurvey.Proofs.Scan.Paths
import SourceSurvey.Proofs.Scan.Walk
import SourceSurvey.Proofs.Text.Ascii

/-!
The entries of a scan that leaves nothing out: every file below the scanned directory with a
supported ending, once and in order.
-/

namespace SourceSurvey.Scan

open Files
open Files.Path (slash)

/-- A name with one of the supported endings. -/
def IsSupported (name : Name) : Prop :=
  ∃ ending ∈ FileName.supportedEndings, Text.Utf8.encode ending <:+ name

instance (name : Name) : Decidable (IsSupported name) :=
  inferInstanceAs (Decidable (∃ ending ∈ FileName.supportedEndings, Text.Utf8.encode ending <:+ name))

/-- Whether a name is supported can be told from its bytes, also if it is no text. -/
theorem isSupported_iff (name : Name) :
    FileName.isSupported (Path.text name) = true ↔ IsSupported name := by
  have hascii : ∀ ending ∈ FileName.supportedEndings, ∀ c ∈ ending, c.toNat < 0x80 := by
    simp [FileName.supportedEndings]
  simp only [FileName.isSupported, IsSupported, List.any_eq_true, List.isSuffixOf_iff_suffix]
  refine exists_congr fun ending => and_congr_right fun hending => ?_
  exact Text.Utf8.suffix_decodeLossy_iff (hascii ending hending) name

/-- No ending is empty, so that a way without names has no supported one. -/
theorem isSupported_name_iff (root : List UInt8) (names : List Name) :
    FileName.isSupported (Entry.of root names).name = true ↔
      ∃ name, names.getLast? = some name ∧ IsSupported name := by
  show FileName.isSupported (Path.text (names.getLast?.getD [])) = true ↔ _
  rw [isSupported_iff]
  cases names.getLast? with
  | none => simp [IsSupported, FileName.supportedEndings, Text.Utf8.encode, Text.Utf8.encodeChar]
  | some name => simp

/-- What a survey of a directory is about: what real directories alone lead to, under a supported
    name, and is a file or a link that leads to one. -/
structure IsSource (t : Tree) (root : List UInt8) (directory : Node) (names : List Name) : Prop where
  supported : ∃ name, names.getLast? = some name ∧ IsSupported name
  reached : (∃ content, directory.at? names = some (.file content)) ∨
    ∃ target content, directory.at? names = some (.link target) ∧
      t.find (pathBelow root names) = .ok (.file content)

/-- What takes part in a survey if nothing is left out: what the survey is about, if the path to the
    directory that holds it is not too long for that to be opened. -/
structure TakesPart (t : Tree) (root : List UInt8) (directory : Node) (names : List Name) : Prop
    extends IsSource t root directory names where
  opened : (pathBelow root names.dropLast).length ≤ pathLimit

/-- A walk that leaves nothing out. -/
def openWalk (t : Tree) (root : List UInt8) (names : List Name) : Walk where
  tree := t
  start := root
  root := names
  excluded := []
  respectIgnoreFiles := false

namespace Walk

theorem passes_openWalk (t : Tree) (root : List UInt8) (names : List Name) (layers : List Layer)
    (path : List Name) (isDirectory : Bool) :
    (openWalk t root names).passes layers path isDirectory = true := rfl

/-- A directory that can be opened stands in others that can. -/
theorem opens_of_append {w : Walk} (hstart : w.start ≠ []) {above path : List Name}
    (hnames : ∀ name ∈ above ++ path, IsName name) (hopens : w.opens (above ++ path) = true) :
    w.opens path = true := by
  rw [opens, List.reverse_append] at hopens
  have hreverse : ∀ name ∈ path.reverse ++ above.reverse, IsName name := by
    rw [← List.reverse_append]
    exact fun name hname => hnames name (List.mem_reverse.mp hname)
  exact decide_eq_true (Nat.le_trans (length_pathBelow_le hstart hreverse)
    (of_decide_eq_true hopens))

/-- A walk that leaves nothing out goes everywhere if it can open the last directory on the way. -/
theorem admits_openWalk_iff {t : Tree} {root : List UInt8} (hroot : root ≠ []) {above names : List Name}
    (hne : names ≠ []) {path : List Name} (hpath : ∀ name ∈ names.reverse ++ path, IsName name)
    (layers : List Layer) :
    (openWalk t root above).Admits layers path names ↔
      (openWalk t root above).opens (names.dropLast.reverse ++ path) = true := by
  induction names generalizing layers path with
  | nil => exact absurd rfl hne
  | cons name rest ih =>
    cases rest with
    | nil => exact and_iff_left (passes_openWalk ..)
    | cons next rest =>
      rw [List.reverse_cons, List.append_assoc, List.singleton_append] at hpath
      have hrest := ih (List.cons_ne_nil next rest) hpath
        ((openWalk t root above).enter (name :: path) layers)
      rw [List.dropLast_cons_cons, List.reverse_cons, List.append_assoc, List.singleton_append,
        ← hrest]
      refine ⟨fun h => h.2.2, fun hadmits => ⟨?_, passes_openWalk .., hadmits⟩⟩
      have hopens := hrest.mp hadmits
      rw [← List.singleton_append (l := path), ← List.append_assoc] at hopens
      refine opens_of_append hroot (fun step hstep => hpath step ?_) hopens
      simp only [List.mem_append, List.mem_reverse, List.mem_cons, List.not_mem_nil,
        or_false] at hstep ⊢
      obtain (hstep | rfl) | hstep := hstep
      · exact .inl (List.mem_cons.mp (List.dropLast_subset _ hstep))
      · exact .inr (.inl rfl)
      · exact .inr (.inr hstep)

theorem leadsToFile_iff {w : Walk} {names : List Name} : w.leadsToFile names.reverse = true ↔
    ∃ content, w.tree.find (pathBelow w.start names) = .ok (.file content) := by
  rw [leadsToFile, List.reverse_reverse]
  cases w.tree.find (pathBelow w.start names) with
  | error failure => simp
  | ok node => cases node <;> simp [Node.isFile]

theorem names_of_mem_files {w : Walk} {content : List (Name × Node)}
    (hcontent : (Node.directory content).WellFormed) {names : List Name}
    (hnames : names ∈ w.files (.directory content)) :
    names ≠ [] ∧ ∀ name ∈ names, IsName name := by
  obtain ⟨-, found, hat, hlists, -⟩ := (mem_files_iff hcontent).mp hnames
  refine ⟨?_, (hcontent.at? hat).2⟩
  rintro rfl
  cases hat
  cases hlists

/-- The files of a walk that leaves nothing out, but for their endings, are what takes part. -/
theorem mem_files_openWalk_iff {t : Tree} {root : List UInt8} (hroot : root ≠ [])
    (hstream : isStream root = false) {above : List Name} {content : List (Name × Node)}
    (hcontent : (Node.directory content).WellFormed) {names : List Name} :
    names ∈ (openWalk t root above).files (.directory content) ↔
      ((∃ bytes, (Node.directory content).at? names = some (.file bytes)) ∨
        ∃ target bytes, (Node.directory content).at? names = some (.link target) ∧
          t.find (pathBelow root names) = .ok (.file bytes)) ∧
      (pathBelow root names.dropLast).length ≤ pathLimit := by
  have hadmits {found : Node} (hat : (Node.directory content).at? names = some found)
      (hne : names ≠ []) : (openWalk t root above).Admits
        ((openWalk t root above).enter [] (openWalk t root above).outside) [] names ↔
          (pathBelow root names.dropLast).length ≤ pathLimit := by
    have hnames : ∀ name ∈ names.reverse ++ [], IsName name := by
      rw [List.append_nil]
      exact fun name hname => (hcontent.at? hat).2 name (List.mem_reverse.mp hname)
    rw [admits_openWalk_iff hroot hne hnames, opens, List.append_nil, List.reverse_reverse,
      decide_eq_true_eq]
    rfl
  have hne {found : Node} (hat : (Node.directory content).at? names = some found)
      (hfound : found.isDirectory = false) : names ≠ [] := by
    rintro rfl
    cases hat
    cases hfound
  rw [mem_files_iff hcontent]
  constructor
  · rintro ⟨-, found, hat, hlists, hopened⟩
    cases hlists with
    | file bytes => exact ⟨.inl ⟨bytes, hat⟩, (hadmits hat (hne hat rfl)).mp hopened⟩
    | link target hfile =>
      obtain ⟨bytes, hfind⟩ := leadsToFile_iff.mp hfile
      exact ⟨.inr ⟨target, bytes, hat, hfind⟩, (hadmits hat (hne hat rfl)).mp hopened⟩
  · rintro ⟨⟨bytes, hat⟩ | ⟨target, bytes, hat, hfind⟩, hopened⟩
    · exact ⟨hstream, _, hat, .file bytes, (hadmits hat (hne hat rfl)).mpr hopened⟩
    · exact ⟨hstream, _, hat, .link target (leadsToFile_iff.mpr ⟨bytes, hfind⟩),
        (hadmits hat (hne hat rfl)).mpr hopened⟩

/-- What is found below a directory has names, which tell the path to it from all others. -/
theorem path_injOn_files {w : Walk} {root : List UInt8} (hroot : root ≠ [])
    {content : List (Name × Node)} (hcontent : (Node.directory content).WellFormed)
    {names others : List Name} (hnames : names ∈ w.files (.directory content))
    (hothers : others ∈ w.files (.directory content))
    (heq : pathBelow root names = pathBelow root others) : names = others := by
  obtain ⟨hne, hname⟩ := names_of_mem_files hcontent hnames
  obtain ⟨hother, hotherName⟩ := names_of_mem_files hcontent hothers
  rw [pathBelow_eq_append hroot hne hname, pathBelow_eq_append hroot hother hotherName] at heq
  exact join_injective hne hother hname hotherName (List.append_cancel_left heq)

end Walk

/-- The entries of a scan that leaves nothing out are those of a walk, filtered and sorted. -/
theorem entries_eq_of_names {t : Tree} {root : List UInt8} {above : List Name}
    {content : List (Name × Node)} (hnames : t.names root = .ok above)
    (hat : t.top.at? above = some (.directory content)) :
    entries t root ⟨[], false⟩ = .ok
      (((((openWalk t root above).files (.directory content)).map (Entry.of root)).filter
        fun entry => FileName.isSupported entry.name).mergeSort
          fun a b => String.ofList a.relative ≤ String.ofList b.relative) := by
  unfold entries
  simp only [hnames, bind, Except.bind, Except.mapError, hat]
  rfl

theorem ne_nil_of_find {t : Tree} {root : List UInt8} {node : Node} (hroot : t.find root = .ok node) :
    root ≠ [] := by
  rintro rfl
  cases hroot

/-- Whether an entry may stand before another one. -/
def notAfter (a b : Entry) : Bool := String.ofList a.relative ≤ String.ofList b.relative

theorem notAfter_trans (a b c : Entry) (hab : notAfter a b = true) (hbc : notAfter b c = true) :
    notAfter a c = true :=
  decide_eq_true (String.le_trans (of_decide_eq_true hab) (of_decide_eq_true hbc))

theorem notAfter_total (a b : Entry) : (notAfter a b || notAfter b a) = true := by
  obtain h | h := String.le_total (.ofList a.relative) (.ofList b.relative)
  · rw [notAfter, decide_eq_true h, Bool.true_or]
  · rw [notAfter, notAfter, decide_eq_true h, Bool.or_true]

theorem pairwise_mergeSort_relative (entries : List Entry) :
    (entries.mergeSort fun a b => String.ofList a.relative ≤ String.ofList b.relative).Pairwise
      fun first second => String.ofList first.relative ≤ String.ofList second.relative :=
  (List.pairwise_mergeSort notAfter_trans notAfter_total entries).imp of_decide_eq_true

/-- A scan that excludes nothing and heeds no ignore files succeeds for every directory whose path is
    not taken for a stream, and its entries are exactly the files that take part, each once and in the
    order of their relative paths. -/
theorem entries_open {t : Tree} {root : List UInt8} {content : List (Name × Node)}
    (ht : t.top.WellFormed) (hroot : t.find root = .ok (.directory content))
    (hstream : isStream root = false) :
    ∃ found, entries t root ⟨[], false⟩ = .ok found ∧
      (∀ entry, entry ∈ found ↔
        ∃ names, TakesPart t root (.directory content) names ∧ entry = Entry.of root names) ∧
      (found.map Entry.path).Nodup ∧
      found.Pairwise fun first second =>
        String.ofList first.relative ≤ String.ofList second.relative := by
  obtain ⟨above, hnames, hat⟩ := Tree.find_eq_ok_iff.mp hroot
  have hcontent := (ht.at? hat).1
  have hne := ne_nil_of_find hroot
  refine ⟨_, entries_eq_of_names hnames hat, ?_, ?_, ?_⟩
  · intro entry
    rw [List.mem_mergeSort, List.mem_filter, List.mem_map]
    constructor
    · rintro ⟨⟨names, hmem, rfl⟩, hsupported⟩
      obtain ⟨hreached, hopened⟩ := (Walk.mem_files_openWalk_iff hne hstream hcontent).mp hmem
      exact ⟨names, ⟨⟨(isSupported_name_iff root names).mp hsupported, hreached⟩, hopened⟩, rfl⟩
    · rintro ⟨names, ⟨⟨hsupported, hreached⟩, hopened⟩, rfl⟩
      exact ⟨⟨names, (Walk.mem_files_openWalk_iff hne hstream hcontent).mpr ⟨hreached, hopened⟩, rfl⟩,
        (isSupported_name_iff root names).mpr hsupported⟩
  · have hperm := List.mergeSort_perm
      ((((openWalk t root above).files (.directory content)).map (Entry.of root)).filter
        fun entry => FileName.isSupported entry.name)
      fun a b => String.ofList a.relative ≤ String.ofList b.relative
    rw [(hperm.map Entry.path).nodup_iff]
    refine List.Nodup.sublist (List.filter_sublist.map Entry.path) ?_
    rw [List.map_map]
    refine List.Nodup.map_on ?_ (Walk.nodup_files hcontent)
    intro names hmem others hother heq
    exact Walk.path_injOn_files hne hcontent hmem hother heq
  · exact pairwise_mergeSort_relative _

/-- Slashes alone lead to the top of a tree. -/
theorem names_slashes {t : Tree} {content : List (Name × Node)} (htop : t.top = .directory content)
    {count : Nat} (hpos : 0 < count) (hlimit : count ≤ pathLimit) :
    t.names (List.replicate count slash) = .ok [] := by
  have hat : t.top.at? [].reverse = some (.directory content) := by
    rw [htop, List.reverse_nil, Node.at?]
  have hsplit (n : Nat) : Text.split slash (List.replicate n slash) = List.replicate (n + 1) [] := by
    induction n with
    | zero => rfl
    | succ n ih => rw [List.replicate_succ, Text.split, if_pos rfl, ih, ← List.replicate_succ]
  have hfollow (n : Nat) : Tree.follow t.top true linkLimit [] (List.replicate n []) =
      .ok (.taken []) := by
    induction n with
    | zero => rw [List.replicate_zero, Tree.follow, List.reverse_nil]
    | succ n ih =>
      rw [List.replicate_succ, Tree.follow]
      simp only [hat, true_or, if_true]
      exact ih
  obtain ⟨n, rfl⟩ : ∃ n, count = n + 1 := ⟨count - 1, by omega⟩
  have habsolute : Path.isAbsolute (List.replicate (n + 1) slash) = true := rfl
  have hzero : (List.replicate (n + 1) slash).contains 0 = false := by
    rw [← Bool.not_eq_true, List.contains_iff_mem]
    exact fun hmem => absurd (List.eq_of_mem_replicate hmem) (by decide)
  have hlocate : t.locate true (List.replicate (n + 1) slash) = .ok (.taken []) := by
    rw [Tree.locate, hzero, if_neg (by decide), if_neg (by simp),
      if_neg (by rw [List.length_replicate]; omega), habsolute, if_pos rfl, hsplit]
    exact hfollow (n + 2)
  rw [Tree.names, hlocate]
  rfl

theorem names_slash {t : Tree} {content : List (Name × Node)} (htop : t.top = .directory content) :
    t.names [slash] = .ok [] :=
  names_slashes htop Nat.one_pos (by decide)

theorem find_of_names {t : Tree} {root : List UInt8} {names : List Name} {node : Node}
    (hnames : t.names root = .ok names) (hat : t.top.at? names = some node) :
    t.find root = .ok node :=
  Tree.find_eq_ok_iff.mpr ⟨names, hnames, hat⟩

/-- A directory with the name of a file and a hidden file in it, a file, one whose name is no text,
    and links to the file, to the directory and to themselves. -/
def sampleContent : List (Name × Node) :=
  [(Name.of "d.py", .directory [(Name.of ".b.c", .file [])]), (Name.of "a.py", .file []),
    (0xFF :: Name.of ".py", .file []), (Name.of "l.js", .link (Name.of "a.py")),
    (Name.of "o.py", .link (Name.of "d.py")), (Name.of "x.py", .link (Name.of "x.py"))]

/-- A tree of these entries. -/
def sampleTree : Tree := ⟨.directory sampleContent, []⟩

theorem wellFormed_sampleTree : sampleTree.top.WellFormed := by
  have hinner : (Node.directory [(Name.of ".b.c", .file [])]).WellFormed := by
    have hname : IsName (Name.of ".b.c") := by decide
    refine .directory (by decide) (List.forall_mem_singleton.mpr hname) ?_
    exact List.forall_mem_singleton.mpr (.file [])
  have hnames : ∀ name ∈ sampleContent.map Prod.fst, IsName name := by decide
  refine .directory (by decide) (fun entry hentry => hnames _ (List.mem_map_of_mem hentry))
    fun entry hentry => ?_
  simp only [sampleContent, List.mem_cons, List.not_mem_nil, or_false] at hentry
  obtain rfl | rfl | rfl | rfl | rfl | rfl := hentry
  · exact hinner
  · exact .file []
  · exact .file []
  · exact .link _
  · exact .link _
  · exact .link _

theorem entries_open_sample :
    sampleTree.top.WellFormed ∧ sampleTree.find [slash] = .ok (.directory sampleContent) ∧
      isStream [slash] = false ∧ ∃ found, entries sampleTree [slash] ⟨[], false⟩ = .ok found ∧
        (∀ entry, entry ∈ found ↔ ∃ names,
          TakesPart sampleTree [slash] (.directory sampleContent) names ∧
            entry = Entry.of [slash] names) ∧
        (found.map Entry.path).Nodup ∧
        found.Pairwise fun first second =>
          String.ofList first.relative ≤ String.ofList second.relative := by
  have hfind : sampleTree.find [slash] = .ok (.directory sampleContent) :=
    find_of_names (names_slash rfl) rfl
  have hstream : isStream [slash] = false := rfl
  exact ⟨wellFormed_sampleTree, hfind, hstream, entries_open wellFormed_sampleTree hfind hstream⟩

/-! ### What no scan finds -/

/-- A scan of a directory that finds nothing, although there is something to find. -/
def Overlooks (t : Tree) (root : List UInt8) : Prop :=
  ∃ content names, t.top.WellFormed ∧ t.find root = .ok (.directory content) ∧
    IsSource t root (.directory content) names ∧ entries t root ⟨[], false⟩ = .ok []

theorem entries_eq_nil {t : Tree} {root : List UInt8} {above : List Name}
    {content : List (Name × Node)} (hnames : t.names root = .ok above)
    (hat : t.top.at? above = some (.directory content))
    (hfiles : (openWalk t root above).files (.directory content) = []) :
    entries t root ⟨[], false⟩ = .ok [] := by
  rw [entries_eq_of_names hnames hat, hfiles, List.map_nil, List.filter_nil, List.mergeSort_nil]

/-- A directory with a file in it. -/
def holding (name : Name) : List (Name × Node) :=
  [(name, .directory [(Name.of "a.py", .file [])])]

/-- A tree of such a directory. -/
def holder (name : Name) : Tree := ⟨.directory (holding name), []⟩

theorem wellFormed_holder {name : Name} (hname : IsName name) : (holder name).top.WellFormed := by
  have hfile : IsName (Name.of "a.py") := by decide
  have hinner : (Node.directory [(Name.of "a.py", .file [])]).WellFormed :=
    .directory (List.nodup_singleton _) (List.forall_mem_singleton.mpr hfile)
      (List.forall_mem_singleton.mpr (.file []))
  exact .directory (List.nodup_singleton _) (List.forall_mem_singleton.mpr hname)
    (List.forall_mem_singleton.mpr hinner)

theorem names_dash : (holder (Name.of "-")).names (Name.of "-") = .ok [Name.of "-"] := by
  have hlocate : (holder (Name.of "-")).locate true (Name.of "-") = .ok (.taken [Name.of "-"]) := by
    rw [Tree.locate, if_neg (by decide), if_neg (by decide), if_neg (by decide)]
    show Tree.follow _ true linkLimit [] [Name.of "-"] = _
    rw [Tree.follow]
    simp only [holder, holding, List.reverse_nil, Node.at?]
    rw [if_neg (by decide), if_neg (by decide), if_neg (by decide)]
    simp only [List.lookup_cons_self]
    rw [Tree.follow]
    rfl
  rw [Tree.names, hlocate]
  rfl

/-- A file in a directory whose path, were it opened, would be too long is not found. -/
theorem files_holder {name : Name} (hname : IsName name) :
    (openWalk (holder name) (List.replicate pathLimit slash) []).files
      (.directory (holding name)) = [] := by
  have hpath : pathBelow (List.replicate pathLimit slash) [name] =
      List.replicate pathLimit slash ++ name := by
    have hlast : (List.replicate pathLimit slash).getLast? = some slash := by
      rw [List.getLast?_replicate, if_neg (by decide)]
    have hroot : List.replicate pathLimit slash ≠ [] := List.cons_ne_nil _ _
    rw [pathBelow, List.foldl_cons, List.foldl_nil, join_of_isName hroot hname, rooted, hlast,
      if_pos (beq_self_eq_true _)]
  have hopens : (openWalk (holder name) (List.replicate pathLimit slash) []).opens [name] =
      false := by
    have hlength := List.length_pos_of_ne_nil hname.ne_nil
    refine decide_eq_false ?_
    show ¬ (pathBelow (List.replicate pathLimit slash) [name]).length ≤ pathLimit
    rw [hpath, List.length_append, List.length_replicate]
    omega
  rw [Walk.files, holding, Walk.nodeFiles, Walk.entriesFiles, Walk.nodeFiles, hopens,
    Walk.entriesFiles]
  simp

/-- Nothing is found where the path to the directory is a lone dash, or leaves no room for a
    name. -/
theorem overlooks_dash_and_longest :
    Overlooks (holder (Name.of "-")) (Name.of "-") ∧
      Overlooks (holder (Name.of "d")) (List.replicate pathLimit slash) := by
  have hdash : IsName (Name.of "-") := by decide
  have hd : IsName (Name.of "d") := by decide
  have hsupported : IsSupported (Name.of "a.py") := by decide
  constructor
  · refine ⟨[(Name.of "a.py", .file [])], [Name.of "a.py"], wellFormed_holder hdash,
      find_of_names names_dash rfl, ⟨⟨_, rfl, hsupported⟩, .inl ⟨[], rfl⟩⟩, ?_⟩
    have hfiles : (openWalk (holder (Name.of "-")) (Name.of "-") [Name.of "-"]).files
        (.directory [(Name.of "a.py", .file [])]) = [] := if_pos rfl
    exact entries_eq_nil names_dash rfl hfiles
  · have hnames : (holder (Name.of "d")).names (List.replicate pathLimit slash) = .ok [] :=
      names_slashes rfl (by decide) (Nat.le_refl _)
    refine ⟨holding (Name.of "d"), [Name.of "d", Name.of "a.py"], wellFormed_holder hd,
      find_of_names hnames rfl, ⟨⟨_, rfl, hsupported⟩, .inl ⟨[], rfl⟩⟩, ?_⟩
    exact entries_eq_nil hnames rfl (files_holder hd)

end SourceSurvey.Scan
