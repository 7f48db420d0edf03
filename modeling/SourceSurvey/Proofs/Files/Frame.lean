import SourceSurvey.Proofs.Files.Growth
import SourceSurvey.Proofs.Files.Links

/-!
What writing a file leaves as it is. Directories are made above the path, the file that the path leads
to is made or rewritten, and everything else stands where it stood, in trees with links too.
-/

namespace SourceSurvey.Files

namespace Node

variable {name : Name} {node : Node} {inner : List (Name × Node)}

theorem lookup_putEntry_of_ne {other : Name} (h : other ≠ name) (node : Node)
    (entries : List (Name × Node)) :
    (putEntry name node entries).lookup other = entries.lookup other := by
  induction entries with
  | nil => rw [putEntry, lookup_cons_of_ne h]
  | cons entry rest ih =>
    obtain ⟨first, old⟩ := entry
    rw [putEntry]
    split
    · next heq =>
      subst heq
      rw [lookup_cons_of_ne h, lookup_cons_of_ne h]
    · rw [List.lookup_cons, List.lookup_cons, ih]

/-- A node with nothing below it. -/
def IsLeaf (node : Node) : Prop := ∀ name, node.child? name = none

theorem isLeaf_file (content : List UInt8) : (file content).IsLeaf := fun _ => rfl

theorem isLeaf_directory : (directory []).IsLeaf := fun _ => rfl

theorem IsLeaf.at? (h : node.IsLeaf) (name : Name) (rest : List Name) :
    node.at? (name :: rest) = none := by
  rw [Node.at?, h name, Option.bind_none]

/-- Putting a leaf in the place of another one, or of nothing, is not seen from anywhere else. -/
theorem at?_put_of_ne {top : Node} {above other : List Name} (hnode : node.IsLeaf)
    (hat : top.at? above = some (.directory inner))
    (hold : ∀ old, inner.lookup name = some old → old.IsLeaf) (hne : other ≠ above ++ [name]) :
    ((put node (above ++ [name]) top).at? other).map face = (top.at? other).map face := by
  induction above generalizing top other with
  | nil =>
    cases hat
    rw [List.nil_append, put]
    cases other with
    | nil => rfl
    | cons first rest =>
      rw [at?_cons, at?_cons]
      by_cases hfirst : first = name
      · subst hfirst
        cases rest with
        | nil => exact absurd rfl hne
        | cons second rest =>
          rw [lookup_putEntry, Option.bind_some, hnode.at?]
          cases hlookup : inner.lookup first with
          | none => rfl
          | some old => rw [Option.bind_some, (hold old hlookup).at?]
      · rw [lookup_putEntry_of_ne hfirst]
  | cons step above ih =>
    obtain ⟨entries, rfl⟩ := exists_directory_of_at? hat
    rw [at?_cons] at hat
    obtain ⟨child, hchild, hwithin⟩ := Option.bind_eq_some_iff.mp hat
    rw [List.cons_append, put_cons hchild]
    cases other with
    | nil => rfl
    | cons first rest =>
      rw [at?_cons, at?_cons]
      by_cases hfirst : first = step
      · subst hfirst
        rw [lookup_putEntry, hchild, Option.bind_some, Option.bind_some]
        exact ih hwithin fun heq => hne (congrArg (first :: ·) heq)
      · rw [lookup_putEntry_of_ne hfirst]

theorem outline_face (node : Node) : node.face.outline = node.outline := by cases node <;> rfl

theorem map_outline_face (found : Option Node) :
    (found.map face).map outline = found.map outline := by
  cases found with
  | none => rfl
  | some node => rw [Option.map_some, Option.map_some, Option.map_some, outline_face]

/-- What stands in a tree stays there when a leaf takes the place of nothing or of a leaf of its
    kind. -/
theorem stays_put {top : Node} {above : List Name} (hnode : node.IsLeaf)
    (hat : top.at? above = some (.directory inner))
    (hold : ∀ old, inner.lookup name = some old → old.IsLeaf ∧ old.outline = node.outline) :
    top.Stays (put node (above ++ [name]) top) := by
  intro names kind hkind
  by_cases hnames : names = above ++ [name]
  · subst hnames
    rw [at?_concat_of_directory hat] at hkind
    obtain ⟨old, hlookup, rfl⟩ := Option.map_eq_some_iff.mp hkind
    rw [at?_put hat, Option.map_some, (hold old hlookup).2]
  · rw [← map_outline_face, at?_put_of_ne hnode hat (fun old h => (hold old h).1) hnames,
      map_outline_face, hkind]

/-- Leaves of one kind in one place are the same to everything that only follows paths. -/
theorem stays_put_put {top other : Node} {above : List Name} (hnode : node.IsLeaf)
    (hother : other.IsLeaf) (hkind : node.outline = other.outline)
    (hat : top.at? above = some (.directory inner))
    (hold : ∀ old, inner.lookup name = some old → old.IsLeaf) :
    (put node (above ++ [name]) top).Stays (put other (above ++ [name]) top) := by
  intro names kind houtline
  by_cases hnames : names = above ++ [name]
  · subst hnames
    rw [at?_put hat, Option.map_some, ← hkind, ← Option.map_some, ← at?_put hat, houtline]
  · rw [← map_outline_face, at?_put_of_ne hother hat hold hnames,
      ← at?_put_of_ne hnode hat hold hnames, map_outline_face, houtline]

end Node

namespace Path

/-- A path above another one: its parent, or the parent of one that is above it. -/
inductive IsAbove : List UInt8 → List UInt8 → Prop
  | parent {path above : List UInt8} (h : parent? path = some above) : IsAbove above path
  | further {path between above : List UInt8} (h : parent? between = some above)
      (hbetween : IsAbove between path) : IsAbove above path

end Path

namespace Tree

/-- What has become of what stands at some names in a tree, if all that has been done is to write the
    file that a path leads to, and to make directories for it. -/
inductive Fate (path : List UInt8) (t u : Tree) (names : List Name) : Prop
  | kept (hsame : (u.top.at? names).map Node.face = (t.top.at? names).map Node.face)
  | made {above : List UInt8} {entries : List (Name × Node)} (habove : Path.IsAbove above path)
      (hbefore : t.top.at? names = none) (hafter : u.top.at? names = some (.directory entries))
      (hleads : u.names above = .ok names)
  | written {content : List UInt8} (hbefore : ∀ node, t.top.at? names = some node → node.isFile)
      (hafter : u.top.at? names = some (.file content)) (hleads : u.names path = .ok names)

/-- A tree that differs from another one in the file that a path leads to and in new directories above
    it, and in nothing else. -/
structure Confined (path : List UInt8) (t u : Tree) : Prop where
  working : u.working = t.working
  fate (names : List Name) : Fate path t u names

variable {path : List UInt8} {t u : Tree}

theorem Confined.refl (path : List UInt8) (t : Tree) : t.Confined path t := ⟨rfl, fun _ => .kept rfl⟩

/-- What has become of something is still so once something else has been put into the tree. -/
theorem Fate.of_face_eq {v : Tree} {names : List Name} (h : Fate path t u names)
    (hworking : u.working = v.working) (hstays : u.top.Stays v.top)
    (hface : (v.top.at? names).map Node.face = (u.top.at? names).map Node.face) :
    Fate path t v names := by
  cases h with
  | kept hsame => exact .kept (hface.trans hsame)
  | @made above entries habove hbefore hafter hleads =>
    rw [hafter, Option.map_some] at hface
    obtain ⟨node, hnode, hkind⟩ := Option.map_eq_some_iff.mp hface
    obtain ⟨others, rfl⟩ := Node.exists_of_face_eq_directory hkind
    exact .made habove hbefore hnode (names_of_stays hworking hstays hleads)
  | written hbefore hafter hleads =>
    rw [hafter, Option.map_some] at hface
    obtain ⟨node, hnode, hkind⟩ := Option.map_eq_some_iff.mp hface
    obtain rfl := Node.eq_of_face_eq rfl hkind.symm
    exact .written hbefore hnode (names_of_stays hworking hstays hleads)

/-- Where there is nothing now there was nothing before. -/
theorem Fate.eq_none {names : List Name} (h : Fate path t u names) (hnone : u.top.at? names = none) :
    t.top.at? names = none := by
  cases h with
  | kept hsame =>
    rw [hnone, Option.map_none] at hsame
    exact Option.map_eq_none_iff.mp hsame.symm
  | made _ hbefore _ _ => exact hbefore
  | written _ hafter _ => cases hnone.symm.trans hafter

/-- Where there is a file now there was a file or nothing before. -/
theorem Fate.isFile {names : List Name} {content : List UInt8} (h : Fate path t u names)
    (hfile : u.top.at? names = some (.file content)) {node : Node}
    (hnode : t.top.at? names = some node) : node.isFile = true := by
  cases h with
  | kept hsame =>
    rw [hfile, hnode] at hsame
    obtain rfl := Node.eq_of_face_eq rfl (Option.some.inj hsame)
    rfl
  | made _ hbefore _ _ => cases hbefore.symm.trans hnode
  | written hbefore _ _ => exact hbefore node hnode

/-- The tree with a leaf in a place where there is nothing or a leaf of its kind. -/
theorem Confined.put {node : Node} {above : List Name} {name : Name} {inner : List (Name × Node)}
    (h : t.Confined path u) (hnode : node.IsLeaf)
    (hat : u.top.at? above = some (.directory inner))
    (hold : ∀ old, inner.lookup name = some old → old.IsLeaf ∧ old.outline = node.outline)
    (hfate : Fate path t { u with top := Node.put node (above ++ [name]) u.top } (above ++ [name])) :
    t.Confined path { u with top := Node.put node (above ++ [name]) u.top } := by
  refine ⟨h.working, fun names => ?_⟩
  by_cases hnames : names = above ++ [name]
  · exact hnames ▸ hfate
  · exact (h.fate names).of_face_eq rfl (Node.stays_put hnode hat hold)
      (Node.at?_put_of_ne hnode hat (fun old hlookup => (hold old hlookup).1) hnames)

/-- A directory is made above the path. -/
theorem Confined.putDirectory {above : List UInt8} {names : List Name} (h : t.Confined path u)
    (habove : Path.IsAbove above path) (hfree : u.locate false above = .ok (.free names)) :
    t.Confined path { u with top := Node.put (.directory []) names u.top } := by
  obtain ⟨parent, name, entries, rfl, hat, hnone⟩ :=
    (locate_eq_ok_iff_follows.mp hfree).2.exists_directory
  have hold : ∀ old, entries.lookup name = some old →
      old.IsLeaf ∧ old.outline = Node.outline (.directory []) := fun old hlookup => by
    cases hnone.symm.trans hlookup
  have hmade : (Node.put (.directory []) (parent ++ [name]) u.top).at? (parent ++ [name]) =
      some (.directory []) := at?_put hat name
  refine h.put Node.isLeaf_directory hat hold (.made habove ?_ hmade ?_)
  · exact (h.fate _).eq_none ((Node.at?_concat_of_directory hat name).trans hnone)
  · exact names_of_free (t := u) rfl (Node.stays_put Node.isLeaf_directory hat hold) hmade hfree

/-- A file is written where the path leads to. -/
theorem Confined.putFile {names : List Name} (content : List UInt8) (h : t.Confined path u)
    (hspot : (u.locate true path = .ok (.free names) ∧ Change.takesFile u path names = true) ∨
      ∃ old, u.locate true path = .ok (.taken names) ∧ u.top.at? names = some (.file old)) :
    t.Confined path { u with top := Node.put (.file content) names u.top } := by
  obtain ⟨hfree, htakes⟩ | ⟨old, htaken, hfile⟩ := hspot
  · obtain ⟨parent, name, entries, rfl, hat, hnone⟩ :=
      (locate_eq_ok_iff_follows.mp hfree).2.exists_directory
    have hold : ∀ old, entries.lookup name = some old → old.IsLeaf ∧ old.outline = .file [] :=
      fun old hlookup => by cases hnone.symm.trans hlookup
    have hnothing : u.top.at? (parent ++ [name]) = none :=
      (Node.at?_concat_of_directory hat name).trans hnone
    refine h.put (Node.isLeaf_file content) hat hold
      (.written (fun node hnode => ?_) (at?_put hat name) ?_)
    · cases ((h.fate _).eq_none hnothing).symm.trans hnode
    · have hsame := Node.stays_put_put (Node.isLeaf_file []) (Node.isLeaf_file content) rfl hat
        fun old hlookup => (hold old hlookup).1
      exact names_of_stays (t := { u with top := Node.put (.file []) (parent ++ [name]) u.top })
        rfl hsame (Change.takesFile_iff.mp htakes)
  · obtain ⟨parent, name, rfl⟩ : ∃ parent name, names = parent ++ [name] := by
      obtain rfl | hnames := List.eq_nil_or_concat' names
      · obtain ⟨entries, htop⟩ := exists_top_eq_directory htaken
        rw [htop] at hfile
        cases hfile
      · exact hnames
    obtain ⟨entries, hat⟩ := Node.exists_directory_of_at?_concat hfile
    have hold : ∀ old, entries.lookup name = some old → old.IsLeaf ∧ old.outline = .file [] :=
      fun other hlookup => by
        rw [← Node.at?_concat_of_directory hat name, hfile] at hlookup
        cases hlookup
        exact ⟨Node.isLeaf_file old, rfl⟩
    refine h.put (Node.isLeaf_file content) hat hold
      (.written (fun node hnode => (h.fate _).isFile hfile hnode) (at?_put hat name) ?_)
    exact names_of_stays (t := u) rfl (Node.stays_put (Node.isLeaf_file content) hat hold)
      (names_eq_ok_iff.mpr htaken)

/-! ### What is to be seen -/

/-- Whatever stood somewhere stands there still, be it as a file with another content. -/
theorem Confined.stays (h : t.Confined path u) : t.top.Stays u.top := by
  intro names kind hkind
  cases h.fate names with
  | kept hsame => rw [← Node.map_outline_face, hsame, Node.map_outline_face, hkind]
  | made _ hbefore _ _ =>
    rw [hbefore] at hkind
    cases hkind
  | written hbefore hafter _ =>
    obtain ⟨node, hnode, rfl⟩ := Option.map_eq_some_iff.mp hkind
    have hfile := hbefore node hnode
    cases node with
    | file content => rw [hafter]; rfl
    | directory entries => cases hfile
    | link target => cases hfile

/-- Every other file that a path leads to, through links or not, has the content that it had. -/
theorem Confined.read (h : t.Confined path u) {other : List UInt8} {content : List UInt8}
    (hread : t.read other = .ok content) :
    u.read other = .ok content ∨ ∃ names, u.names other = .ok names ∧ u.names path = .ok names := by
  obtain ⟨names, hnames, hat⟩ := find_eq_ok_iff.mp (read_eq_ok_iff.mp hread)
  have hleads := names_of_stays h.working.symm h.stays hnames
  cases h.fate names with
  | kept hsame =>
    rw [hat] at hsame
    obtain ⟨node, hnode, hkind⟩ := Option.map_eq_some_iff.mp hsame
    obtain rfl := Node.eq_of_face_eq rfl hkind.symm
    exact .inl (read_eq_ok_iff.mpr (find_eq_ok_iff.mpr ⟨names, hleads, hnode⟩))
  | made _ hbefore _ _ => cases hbefore.symm.trans hat
  | written _ _ hpath => exact .inr ⟨names, hleads, hpath⟩

end Tree

namespace Change

/-- Making the directories of a path changes nothing but them. -/
theorem confined_makeAll {path parent : List UInt8} (hparent : Path.parent? path = some parent)
    (t : Tree) : t.Confined path (t.after (makeAll parent)).2 :=
  preserves_makeDirectories_within (P := t.Confined path) (Q := (Path.IsAbove · path))
    (fun _ _ hbetween hnext => .further hnext hbetween)
    (fun _ _ _ habove hconfined hfree => hconfined.putDirectory habove hfree)
    (parent.length + 1) (.parent hparent) t (.refl path t)

/-- Writing a file changes nothing but the file. -/
theorem confined_write {path : List UInt8} {t u : Tree} (content : List UInt8)
    (h : t.Confined path u) : t.Confined path (u.after (write path content)).2 :=
  preserves_write (P := t.Confined path) (fun _ _ hconfined hspot => hconfined.putFile content hspot) u h

/-- Whether a file can be written does not depend on what is written. -/
theorem after_write_congr (path : List UInt8) (content other : List UInt8) (t : Tree) :
    (t.after (write path content)).1 = (t.after (write path other)).1 := by
  rw [after_write, after_write]
  split
  · split <;> rfl
  · split
    · rfl
    · split <;> rfl
    · split <;> rfl

end Change
end SourceSurvey.Files
