import SourceSurvey.Proofs.Files.Writing
import SourceSurvey.Proofs.Scan.Order

/-!
Scans of trees without links that grow by directories and by files of an unsupported name. Ignore
files say the same, as long as no working copy begins where none began, and so the entries are the
same.
-/

namespace SourceSurvey.Scan

open Files
open Files.Path (slash)

/-! ### Paths below a root -/

/-- A root is cut before its last slash, or where one is added. -/
theorem exists_rooted (root : List UInt8) :
    ∃ body, rooted root = body ++ [slash] ∧ (root = body ∨ root = body ++ [slash]) := by
  unfold rooted
  split
  · next hlast =>
    obtain ⟨body, hbody⟩ := List.getLast?_eq_some_iff.mp (beq_iff_eq.mp hlast)
    exact ⟨body, hbody, .inr hbody⟩
  · exact ⟨root, rfl, .inl rfl⟩

/-- A slash at the end of a path that leads somewhere makes no difference. -/
theorem descends_body {top : Node} {here above : List Name} {root body : List UInt8}
    (hroot : root = body ∨ root = body ++ [slash])
    (h : Tree.Descends top here (Text.split slash root) (.taken above)) :
    Tree.Descends top here (Text.split slash body) (.taken above) := by
  obtain rfl | rfl := hroot
  · exact h
  · rw [Text.split_append, ← Tree.descend_eq_ok_iff, Tree.descend_append] at h
    rw [← Tree.descend_eq_ok_iff]
    split at h
    · next names hnames =>
      rw [hnames]
      cases Tree.descend_eq_ok_iff.mp h with
      | stay _ _ next =>
        cases next
        rw [List.reverse_reverse]
      | into _ hstep _ _ => exact absurd (.inl rfl) hstep.moves
    · cases h
    · cases h

section Below

variable {t : Tree} {root : List UInt8} {above names : List Name} (ht : t.top.Linkless)
  (hroot : t.names root = .ok above) (hne : names ≠ []) (hnames : ∀ name ∈ names, IsProper name)
include ht hroot hne hnames

theorem locate_below (followLast : Bool) :
    t.locate followLast (pathBelow root names) = match Tree.refusal? (pathBelow root names) with
      | some failure => .error failure
      | none => Tree.descend t.top above.reverse names := by
  have hlocate := Tree.names_eq_ok_iff.mp hroot
  have hstart : root ≠ [] := by
    rintro rfl
    cases hlocate
  obtain ⟨-, hdescends⟩ := (Tree.locate_eq_ok_iff ht).mp hlocate
  obtain ⟨body, hrooted, hbody⟩ := exists_rooted root
  have hsplit : Text.split slash (pathBelow root names) = Text.split slash body ++ names := by
    rw [pathBelow_eq_append hstart hne fun name hname => (hnames name hname).toIsName, hrooted,
      List.append_assoc, List.singleton_append, Text.split_append,
      Text.split_join hne fun name hname => (hnames name hname).noSlash]
  have horigin : t.origin (pathBelow root names) = t.origin root := by
    obtain ⟨c, rest, rfl⟩ := List.exists_cons_of_ne_nil hstart
    rw [pathBelow_eq_append hstart hne fun name hname => (hnames name hname).toIsName]
    unfold rooted
    split <;> rfl
  have hway := Tree.locate_eq_descend ht followLast (pathBelow root names)
  rw [hsplit, horigin, Tree.descend_append,
    Tree.descend_eq_ok_iff.mpr (descends_body hbody hdescends)] at hway
  exact hway

/-- What stands below a root is found, unless the path to it is refused in any tree. -/
theorem find_below {node : Node} (hat : t.top.at? (above ++ names) = some node) :
    t.find (pathBelow root names) = match Tree.refusal? (pathBelow root names) with
      | some failure => .error failure
      | none =>
        if names.any (nameLimit < ·.length) then .error .nameTooLong else .ok node := by
  have hlocate := locate_below ht hroot hne hnames true
  have hway : Tree.descend t.top above.reverse names =
      if names.any (nameLimit < ·.length) then .error .nameTooLong
      else .ok (.taken (above.reverse.reverse ++ names)) :=
    Tree.descend_of_at? hnames (by rwa [List.reverse_reverse])
  rw [List.reverse_reverse] at hway
  rw [hway] at hlocate
  rw [Tree.find, Tree.names, hlocate]
  cases Tree.refusal? (pathBelow root names) with
  | some failure => rfl
  | none =>
    dsimp only
    split
    · rfl
    · simp only [bind, Except.bind, pure, Except.pure, hat]

/-- What is found below a root stands there. -/
theorem at?_of_find_below {node : Node} (hfind : t.find (pathBelow root names) = .ok node) :
    t.top.at? (above ++ names) = some node := by
  obtain ⟨found, hfound, hat⟩ := Tree.find_eq_ok_iff.mp hfind
  have hlocate := Tree.names_eq_ok_iff.mp hfound
  rw [locate_below ht hroot hne hnames] at hlocate
  split at hlocate
  · cases hlocate
  · have heq := (Tree.descend_eq_ok_iff.mp hlocate).eq_append hnames
    rw [List.reverse_reverse] at heq
    rw [← heq]
    exact hat

end Below

/-! ### Ignore files -/

/-- The path from the top to some names. -/
theorem absolute_eq_pathBelow {names : List Name} (hne : names ≠ [])
    (hnames : ∀ name ∈ names, IsProper name) :
    slash :: Text.join [slash] names = pathBelow [slash] names := by
  rw [pathBelow_eq_append (List.cons_ne_nil _ _) hne fun name hname => (hnames name hname).toIsName]
  rfl

/-- No working copy begins in a directory of a tree that does not begin there in another one. -/
def GainsNoCopy (t u : Tree) (directory : List Name) : Prop :=
  ∀ mark ∈ [Name.of ".git", Name.of ".jj"],
    (u.top.at? (directory ++ [mark])).isSome → (t.top.at? (directory ++ [mark])).isSome

/-- No working copy begins in a directory, nor anywhere above or below it. -/
def GainsNoCopyAround (t u : Tree) (root : List Name) : Prop :=
  ∀ directory, directory <+: root ∨ root <+: directory → GainsNoCopy t u directory

theorem toOption_eq_some_iff {ε α : Type} {answer : Except ε α} {a : α} :
    answer.toOption = some a ↔ answer = .ok a := by
  cases answer <;> simp [Except.toOption]

theorem isSome_toOption_iff {ε α : Type} {answer : Except ε α} :
    answer.toOption.isSome = true ↔ ∃ a, answer = .ok a := by
  cases answer <;> simp [Except.toOption]

theorem rulesAt_eq_toOption (t : Tree) (directory names : List Name) :
    Layer.rulesAt t directory names =
      ((t.read (slash :: Text.join [slash] (directory ++ names))).toOption.map rulesOf).getD [] := by
  rw [Layer.rulesAt]
  cases t.read (slash :: Text.join [slash] (directory ++ names)) <;> rfl

theorem has_eq_toOption (t : Tree) (directory : List Name) (name : Name) :
    Layer.has t directory name =
      (t.find (slash :: Text.join [slash] (directory ++ [name]))).toOption.isSome := by
  rw [Layer.has]
  cases t.find (slash :: Text.join [slash] (directory ++ [name])) <;> rfl

section Growing

variable {output : Name} {t u : Tree} (h : t.Grows output u) (ht : t.top.Linkless)
include h ht

theorem names_of_grows {root : List UInt8} {above : List Name} (hroot : t.names root = .ok above) :
    u.names root = .ok above :=
  Tree.names_eq_ok_iff.mpr (h.locate_taken ht (Tree.names_eq_ok_iff.mp hroot) true)

section Below

variable {root : List UInt8} {above names : List Name} {last : Name}
  (hroot : t.names root = .ok above) (hnames : ∀ name ∈ names ++ [last], IsProper name)
include hroot hnames

/-- A path to a file of another name leads to it before and after. -/
theorem find_of_grows (hother : last ≠ output) {content : List UInt8}
    (hat : t.top.at? (above ++ (names ++ [last])) = some (.file content)) :
    u.find (pathBelow root (names ++ [last])) = t.find (pathBelow root (names ++ [last])) := by
  have hne : names ++ [last] ≠ [] := by simp
  have hat' : u.top.at? (above ++ (names ++ [last])) = some (.file content) := by
    rw [← List.append_assoc] at hat ⊢
    exact (h.file_iff hother).mpr hat
  rw [find_below ht hroot hne hnames hat,
    find_below (h.linkless ht) (names_of_grows h ht hroot) hne hnames hat']

/-- Files of another name read the same before and after. -/
theorem read_of_grows (hother : last ≠ output) :
    (u.read (pathBelow root (names ++ [last]))).toOption =
      (t.read (pathBelow root (names ++ [last]))).toOption := by
  have hne : names ++ [last] ≠ [] := by simp
  refine Option.ext fun content => ?_
  rw [toOption_eq_some_iff, toOption_eq_some_iff, Tree.read_eq_ok_iff, Tree.read_eq_ok_iff]
  constructor
  · intro hfind
    have hat := at?_of_find_below (h.linkless ht) (names_of_grows h ht hroot) hne hnames hfind
    rw [← List.append_assoc, h.file_iff hother, List.append_assoc] at hat
    rwa [← find_of_grows h ht hroot hnames hother hat]
  · intro hfind
    rwa [find_of_grows h ht hroot hnames hother (at?_of_find_below ht hroot hne hnames hfind)]

/-- Something is found below a root after as before, unless it is new. -/
theorem isSome_find_of_grows (hold : (u.top.at? (above ++ (names ++ [last]))).isSome →
      (t.top.at? (above ++ (names ++ [last]))).isSome) :
    (u.find (pathBelow root (names ++ [last]))).toOption.isSome =
      (t.find (pathBelow root (names ++ [last]))).toOption.isSome := by
  rw [Bool.eq_iff_iff, isSome_toOption_iff, isSome_toOption_iff]
  have hne : names ++ [last] ≠ [] := by simp
  have hboth {node node' : Node} (hat : t.top.at? (above ++ (names ++ [last])) = some node)
      (hat' : u.top.at? (above ++ (names ++ [last])) = some node') :
      (∃ node, u.find (pathBelow root (names ++ [last])) = .ok node) ↔
        ∃ node, t.find (pathBelow root (names ++ [last])) = .ok node := by
    rw [find_below ht hroot hne hnames hat,
      find_below (h.linkless ht) (names_of_grows h ht hroot) hne hnames hat']
    cases Tree.refusal? (pathBelow root (names ++ [last])) with
    | some failure => simp
    | none =>
      dsimp only
      split <;> simp
  constructor
  · rintro ⟨node', hfind⟩
    have hat' := at?_of_find_below (h.linkless ht) (names_of_grows h ht hroot) hne hnames hfind
    obtain ⟨node, hat⟩ := Option.isSome_iff_exists.mp (hold (by rw [hat']; rfl))
    exact (hboth hat hat').mp ⟨node', hfind⟩
  · rintro ⟨node, hfind⟩
    have hat := at?_of_find_below ht hroot hne hnames hfind
    have hbecomes := h.at? (above ++ names) last
    rw [List.append_assoc, hat] at hbecomes
    obtain ⟨node', hat'⟩ := hbecomes.exists_of_some
    exact (hboth hat hat').mpr ⟨node, hfind⟩

end Below

omit ht in
theorem names_top : t.names [slash] = .ok [] := by
  obtain ⟨entries, -, htop, -⟩ := h.top
  exact names_slash htop

/-- The rules in an ignore file of a directory are the same before and after. -/
theorem rulesAt_of_grows {directory : List Name} (names : List Name) {last : Name}
    (hother : last ≠ output) (hnames : ∀ name ∈ directory ++ (names ++ [last]), IsProper name) :
    Layer.rulesAt u directory (names ++ [last]) = Layer.rulesAt t directory (names ++ [last]) := by
  rw [rulesAt_eq_toOption, rulesAt_eq_toOption, absolute_eq_pathBelow (by simp) hnames]
  rw [← List.append_assoc] at hnames ⊢
  rw [read_of_grows h ht (names_top h) hnames hother]

theorem has_of_grows {directory : List Name} {mark : Name}
    (hnames : ∀ name ∈ directory ++ [mark], IsProper name)
    (hnew : (u.top.at? (directory ++ [mark])).isSome → (t.top.at? (directory ++ [mark])).isSome) :
    Layer.has u directory mark = Layer.has t directory mark := by
  rw [has_eq_toOption, has_eq_toOption, absolute_eq_pathBelow (by simp) hnames]
  exact isSome_find_of_grows h ht (names_top h) hnames hnew

end Growing

section Ignoring

variable {t u : Tree} (h : t.Grows (Name.of Config.outputName) u) (ht : t.top.Linkless)
include h ht

/-- Ignore files say the same in a directory before and after. -/
theorem ofDirectory_of_grows {directory : List Name} (hcopy : GainsNoCopy t u directory)
    (hnames : ∀ name ∈ directory, IsProper name) :
    Layer.ofDirectory u directory = Layer.ofDirectory t directory := by
  have hbelow {names : List Name} (hproper : ∀ name ∈ names, IsProper name) :
      ∀ name ∈ directory ++ names, IsProper name := List.forall_mem_append.mpr ⟨hnames, hproper⟩
  have hplain : Layer.rulesAt u directory [Name.of ".ignore"] =
      Layer.rulesAt t directory [Name.of ".ignore"] :=
    rulesAt_of_grows h ht [] (by decide) (hbelow (by decide))
  have hshared : Layer.rulesAt u directory [Name.of ".gitignore"] =
      Layer.rulesAt t directory [Name.of ".gitignore"] :=
    rulesAt_of_grows h ht [] (by decide) (hbelow (by decide))
  have hown : Layer.rulesAt u directory [Name.of ".git", Name.of "info", Name.of "exclude"] =
      Layer.rulesAt t directory [Name.of ".git", Name.of "info", Name.of "exclude"] :=
    rulesAt_of_grows h ht [Name.of ".git", Name.of "info"] (by decide)
      (hbelow (by decide))
  have hgit : Layer.has u directory (Name.of ".git") = Layer.has t directory (Name.of ".git") :=
    has_of_grows h ht (hbelow (by decide)) (hcopy _ (by decide))
  have hjj : Layer.has u directory (Name.of ".jj") = Layer.has t directory (Name.of ".jj") :=
    has_of_grows h ht (hbelow (by decide)) (hcopy _ (by decide))
  rw [Layer.ofDirectory, Layer.ofDirectory, hplain, hshared, hown, hgit, hjj]

theorem layersOf_of_grows {names : List Name}
    (hcopy : ∀ above, above <:+ names → GainsNoCopy t u above.reverse)
    (hnames : ∀ name ∈ names, IsProper name) : layersOf u names = layersOf t names := by
  induction names with
  | nil =>
    have hhere : Layer.ofDirectory u [] = Layer.ofDirectory t [] :=
      ofDirectory_of_grows h ht (hcopy [] (List.suffix_refl _)) hnames
    rw [layersOf, layersOf, hhere]
  | cons name above ih =>
    have hrest := ih (fun rest hrest => hcopy rest (hrest.trans (List.suffix_cons name above)))
      (List.forall_mem_cons.mp hnames).2
    have hhere := ofDirectory_of_grows h ht (hcopy _ (List.suffix_refl _)) fun name hname =>
      hnames name (List.mem_reverse.mp hname)
    rw [layersOf, layersOf, hrest, hhere]

end Ignoring

/-! ### Walks -/

/-- Whether the file at a path, whose names are given in reverse, has a supported name. -/
def namedSupported (path : List Name) : Bool := IsSupported (path.head?.getD [])

/-- What is found in a new entry has no supported name. -/
theorem filter_nodeFiles_of_fresh (w : Walk) {entry : Name × Node}
    (hfresh : Fresh (Name.of Config.outputName) entry) (layers : List Layer) (path : List Name) :
    (w.nodeFiles layers (entry.1 :: path) entry.2).filter namedSupported = [] := by
  induction hfresh generalizing layers path with
  | file content =>
    rw [Walk.nodeFiles, List.filter_singleton]
    rfl
  | directory name inner ih =>
    rw [Walk.nodeFiles]
    split
    · rw [Walk.entriesFiles_eq_flatMap, List.filter_flatMap, List.flatMap_eq_nil_iff]
      intro entry hentry
      split
      · exact ih entry hentry _ _
      · rfl
    · rfl

section Walking

variable {w : Walk} {u : Tree}
  (henter : ∀ path layers, (∀ name ∈ path, IsProper name) →
    { w with tree := u }.enter path layers = w.enter path layers)
include henter

/-- A walk through what has not grown finds the same if ignore files say the same. -/
theorem nodeFiles_of_plain {node : Node} (hnode : node.Plain) (layers : List Layer)
    (path : List Name) (hpath : ∀ name ∈ path, IsProper name) :
    { w with tree := u }.nodeFiles layers path node = w.nodeFiles layers path node := by
  induction hnode generalizing layers path with
  | file content => rfl
  | @directory entries distinct named inner ih =>
    have hopens : ({ w with tree := u } : Walk).opens path = w.opens path := rfl
    rw [Walk.nodeFiles, Walk.nodeFiles, Walk.entriesFiles_eq_flatMap, Walk.entriesFiles_eq_flatMap,
      henter path layers hpath, hopens]
    refine if_congr Iff.rfl (List.flatMap_congr fun entry hentry => ?_) rfl
    have hproper := List.forall_mem_cons.mpr ⟨named entry hentry, hpath⟩
    have hpasses : ({ w with tree := u } : Walk).passes = w.passes := rfl
    rw [hpasses, ih entry hentry _ _ hproper]

/-- A walk through entries that have grown finds the same files of supported names. -/
theorem filter_entriesFiles_of_grown {entries others : List (Name × Node)}
    (hgrown : Grown (Name.of Config.outputName) entries others)
    (hplain : ∀ entry ∈ entries, IsProper entry.1 ∧ entry.2.Plain) (layers : List Layer)
    (path : List Name) (hpath : ∀ name ∈ path, IsProper name) :
    ({ w with tree := u }.entriesFiles layers path others).filter namedSupported =
      (w.entriesFiles layers path entries).filter namedSupported := by
  have hpasses : ({ w with tree := u } : Walk).passes = w.passes := rfl
  induction hgrown generalizing layers path with
  | added fresh =>
    rw [Walk.entriesFiles_eq_flatMap, List.filter_flatMap]
    refine List.flatMap_eq_nil_iff.mpr fun entry hentry => ?_
    split
    · exact filter_nodeFiles_of_fresh _ (fresh entry hentry) _ _
    · rfl
  | same entry rest ih =>
    obtain ⟨⟨hname, hnode⟩, hrest⟩ := List.forall_mem_cons.mp hplain
    obtain ⟨name, node⟩ := entry
    rw [Walk.entriesFiles, Walk.entriesFiles, List.filter_append, List.filter_append, hpasses,
      ih hrest layers path hpath,
      nodeFiles_of_plain henter hnode _ _ (List.forall_mem_cons.mpr ⟨hname, hpath⟩)]
  | inside name within rest ihwithin ihrest =>
    obtain ⟨⟨hname, hnode⟩, hrest⟩ := List.forall_mem_cons.mp hplain
    have hproper := List.forall_mem_cons.mpr ⟨hname, hpath⟩
    rw [Walk.entriesFiles, Walk.entriesFiles, List.filter_append, List.filter_append, hpasses,
      ihrest hrest layers path hpath, Walk.nodeFiles, Walk.nodeFiles, henter _ _ hproper]
    congr 1
    cases hnode with
    | directory distinct named inner =>
      have hinner := ihwithin (fun entry hentry => ⟨named entry hentry, inner entry hentry⟩)
        (w.enter (name :: path) layers) (name :: path) hproper
      have hdirectory (inner : List (Name × Node)) : (Node.directory inner).isDirectory = true := rfl
      have hopens : ({ w with tree := u } : Walk).opens (name :: path) = w.opens (name :: path) :=
        rfl
      rw [hdirectory, hdirectory, hopens]
      by_cases hpass : w.passes layers (name :: path) true = true
      · rw [if_pos hpass, if_pos hpass]
        split
        · exact hinner
        · rfl
      · rw [if_neg hpass, if_neg hpass]
  | written content content' rest ih =>
    obtain ⟨-, hrest⟩ := List.forall_mem_cons.mp hplain
    rw [Walk.entriesFiles, Walk.entriesFiles, List.filter_append, List.filter_append, hpasses,
      ih hrest layers path hpath, Walk.nodeFiles, Walk.nodeFiles]
    rfl

end Walking

section Scanning

variable {w : Walk} {u : Tree} (h : w.tree.Grows (Name.of Config.outputName) u)
  (hplain : w.tree.top.Plain)
  (hcopy : w.respectIgnoreFiles = true → GainsNoCopyAround w.tree u w.root)
  (hroot : ∀ name ∈ w.root, IsProper name)
include h hplain hcopy hroot

theorem enter_of_grows (path : List Name) (layers : List Layer)
    (hpath : ∀ name ∈ path, IsProper name) :
    { w with tree := u }.enter path layers = w.enter path layers := by
  unfold Walk.enter
  split
  · next hrespects =>
    rw [ofDirectory_of_grows h hplain.linkless
      (hcopy hrespects _ (.inr (List.prefix_append w.root path.reverse)))]
    refine List.forall_mem_append.mpr ⟨hroot, fun name hname => ?_⟩
    exact hpath name (List.mem_reverse.mp hname)
  · rfl

theorem outside_of_grows : { w with tree := u }.outside = w.outside := by
  unfold Walk.outside
  split
  · next hrespects =>
    cases hreverse : w.root.reverse with
    | nil => rfl
    | cons last above =>
      have hsuffix : above <:+ w.root.reverse := by
        rw [hreverse]
        exact List.suffix_cons last above
      refine layersOf_of_grows h hplain.linkless (fun rest hrest => ?_) fun name hname =>
        hroot name (List.mem_reverse.mp (hsuffix.subset hname))
      refine hcopy hrespects _ (.inl ?_)
      rw [← List.reverse_suffix, List.reverse_reverse]
      exact hrest.trans hsuffix
  · rfl

theorem walked_of_grows {content others : List (Name × Node)}
    (hcontent : (Node.directory content).Plain)
    (hgrown : Grown (Name.of Config.outputName) content others) :
    walked { w with tree := u } (.directory others) = walked w (.directory content) := by
  have henter := enter_of_grows h hplain hcopy hroot
  cases hcontent with
  | directory distinct named inner =>
    have hfiles := filter_entriesFiles_of_grown henter hgrown
      (fun entry hentry => ⟨named entry hentry, inner entry hentry⟩) (w.enter [] w.outside) []
      (List.forall_mem_nil _)
    have hnamed (path : List Name) :
        FileName.isSupported (Entry.of w.start path.reverse).name = namedSupported path := by
      show FileName.isSupported (Path.text (path.reverse.getLast?.getD [])) = _
      rw [List.getLast?_reverse, Bool.eq_iff_iff, isSupported_iff, namedSupported, decide_eq_true_eq]
    have hopens : ({ w with tree := u } : Walk).opens [] = w.opens [] := rfl
    simp only [walked, Walk.files, Walk.nodeFiles, outside_of_grows h hplain hcopy hroot,
      henter [] w.outside (List.forall_mem_nil _), hopens]
    split
    · rfl
    · split
      · simp only [List.filter_map, Function.comp_def, hnamed, hfiles]
      · rfl

end Scanning

/-- A scan of a plain tree finds the same once the tree has grown by directories and by files with
    the name of a survey, but where ignore files count and a working copy has begun. -/
theorem entries_of_grows {t u : Tree} (h : t.Grows (Name.of Config.outputName) u)
    (hplain : t.top.Plain) {root : List UInt8} {options : ScanConfig} {found : List Entry}
    (hcopy : options.respectIgnoreFiles = true →
      ∀ names, t.names root = .ok names → GainsNoCopyAround t u names)
    (hscan : entries t root options = .ok found) : entries u root options = .ok found := by
  obtain ⟨w, content, rfl, rfl, hscans, rfl⟩ := exists_scans_of_entries hscan
  obtain ⟨hcontent, hroot⟩ := hplain.at? hscans.at_root
  obtain ⟨others, hat, hgrown⟩ := h.directory hscans.at_root
  have hscans' : { w with tree := u }.Scans options others :=
    ⟨names_of_grows h hplain.linkless hscans.names, hat, hscans.excluded, hscans.respects⟩
  have haround (hrespects : w.respectIgnoreFiles = true) : GainsNoCopyAround w.tree u w.root :=
    hcopy (hscans.respects.symm.trans hrespects) _ hscans.names
  rw [← walked_of_grows h hplain haround hroot hcontent hgrown]
  exact hscans'.entries

/-- The files that a scan finds read the same once the tree has grown. -/
theorem read_of_mem_entries {t u : Tree} (h : t.Grows (Name.of Config.outputName) u)
    (hplain : t.top.Plain) {root : List UInt8} {options : ScanConfig} {found : List Entry}
    (hscan : entries t root options = .ok found) {entry : Entry} (hentry : entry ∈ found) :
    u.read entry.path = t.read entry.path := by
  obtain ⟨w, content, rfl, rfl, hscans, rfl⟩ := exists_scans_of_entries hscan
  obtain ⟨hmem, hsupported⟩ := List.mem_filter.mp (mem_sorted.mp hentry)
  obtain ⟨names, hfile, rfl⟩ := List.mem_map.mp hmem
  obtain ⟨hcontent, -⟩ := hplain.at? hscans.at_root
  obtain ⟨-, target, hat, hlists, -⟩ := (Walk.mem_files_iff hcontent.wellFormed).mp hfile
  obtain ⟨last, hlast, hending⟩ := (isSupported_name_iff w.start names).mp hsupported
  obtain ⟨inner, rfl⟩ := List.getLast?_eq_some_iff.mp hlast
  have hother : last ≠ Name.of Config.outputName := by
    rintro rfl
    exact absurd hending (by decide)
  have hnames := (hcontent.at? hat).2
  have hfull : w.tree.top.at? (w.root ++ (inner ++ [last])) = some target := by
    rw [Node.at?_append, hscans.at_root]
    exact hat
  cases hlists with
  | file content =>
    have hfind := find_of_grows h hplain.linkless hscans.names hnames hother hfull
    show u.read (pathBelow w.start (inner ++ [last])) =
      w.tree.read (pathBelow w.start (inner ++ [last]))
    rw [Tree.read, Tree.read, hfind]
  | link target _ => exact absurd hat (hcontent.linkless _ target)

end SourceSurvey.Scan
