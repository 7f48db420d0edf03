import SourceSurvey.Files.Ignore

/-!
Trees that differ in the order in which directories list their entries, and in nothing else. Paths
lead to the same places in them, so that files read the same and ignore files say the same.
-/

namespace SourceSurvey.Files

namespace Node

/-- What is seen of a node from outside: of a directory, only that it is one. -/
def face : Node → Node
  | directory _ => directory []
  | other => other

/-- Two nodes below which the same names lead to the same things. -/
def Alike (n m : Node) : Prop := ∀ names, (n.at? names).map face = (m.at? names).map face

theorem Alike.symm {n m : Node} (h : n.Alike m) : m.Alike n := fun names => (h names).symm

@[simp] theorem isFile_face (n : Node) : n.face.isFile = n.isFile := by cases n <;> rfl

theorem at?_append (n : Node) (first second : List Name) :
    n.at? (first ++ second) = (n.at? first).bind fun inner => inner.at? second := by
  induction first generalizing n with
  | nil => rfl
  | cons name rest ih =>
    rw [List.cons_append, at?, at?]
    cases n.child? name with
    | none => rfl
    | some child => exact ih child

/-- Faces tell files and links from everything else. -/
theorem eq_of_face_eq {n m : Node} (hn : n.isDirectory = false) (h : n.face = m.face) : m = n := by
  cases n with
  | directory entries => cases hn
  | file content => cases m <;> cases h; rfl
  | link target => cases m <;> cases h; rfl

theorem exists_of_face_eq_directory {n : Node} {entries : List (Name × Node)}
    (h : n.face = face (.directory entries)) : ∃ others, n = .directory others := by
  cases n with
  | directory others => exact ⟨others, rfl⟩
  | file content => cases h
  | link target => cases h

theorem Alike.below {n m : Node} (h : n.Alike m) {names : List Name} {a b : Node}
    (ha : n.at? names = some a) (hb : m.at? names = some b) : a.Alike b := by
  intro rest
  have hrest := h (names ++ rest)
  rw [at?_append, at?_append, ha, hb] at hrest
  exact hrest

/-- Where a directory stands in one of two alike nodes, one stands in the other, with alike entries
    under the same names. -/
theorem Alike.directory {n m : Node} (h : n.Alike m) {names : List Name}
    {entries : List (Name × Node)} (hat : n.at? names = some (.directory entries)) :
    ∃ others, m.at? names = some (.directory others) ∧
      ∀ name, (entries.lookup name).map face = (others.lookup name).map face := by
  have hnames := h names
  rw [hat, Option.map_some] at hnames
  obtain ⟨found, hfound, hface⟩ := Option.map_eq_some_iff.mp hnames.symm
  obtain ⟨others, rfl⟩ := exists_of_face_eq_directory hface
  refine ⟨others, hfound, fun name => ?_⟩
  have hstep := h (names ++ [name])
  rw [at?_append, at?_append, hat, hfound] at hstep
  simpa [at?, child?] using hstep

end Node

namespace Tree

/-- Two trees that differ in the order of their entries alone. -/
structure Alike (t u : Tree) : Prop where
  working : t.working = u.working
  top : t.top.Alike u.top

theorem Alike.symm {t u : Tree} (h : t.Alike u) : u.Alike t := ⟨h.working.symm, h.top.symm⟩

/-- Every step leads to the same place in alike trees, through links as well. -/
theorem follow_eq_of_alike {n m : Node} (h : n.Alike m) (followLast : Bool) (links : Nat)
    (here steps : List Name) :
    follow n followLast links here steps = follow m followLast links here steps := by
  cases steps with
  | nil => rw [follow, follow]
  | cons step rest =>
    rw [follow, follow]
    by_cases hdirectory : ∃ entries, n.at? here.reverse = some (.directory entries)
    · obtain ⟨entries, hat⟩ := hdirectory
      obtain ⟨others, hother, hlookup⟩ := h.directory hat
      simp only [hat, hother]
      split
      · exact follow_eq_of_alike h followLast links here rest
      split
      · exact follow_eq_of_alike h followLast links (here.drop 1) rest
      split
      · rfl
      have hstep := hlookup step
      cases hchild : entries.lookup step with
      | none =>
        rw [hchild, Option.map_none] at hstep
        rw [Option.map_eq_none_iff.mp hstep.symm]
      | some child =>
        rw [hchild, Option.map_some] at hstep
        obtain ⟨found, hfound, hface⟩ := Option.map_eq_some_iff.mp hstep.symm
        rw [hfound]
        cases child with
        | link target =>
          obtain rfl := Node.eq_of_face_eq rfl hface.symm
          cases links with
          | zero => rfl
          | succ links =>
            simp only [follow_eq_of_alike h followLast links]
        | file content =>
          obtain rfl := Node.eq_of_face_eq rfl hface.symm
          exact follow_eq_of_alike h followLast links (step :: here) rest
        | directory inner =>
          obtain ⟨inner', rfl⟩ := Node.exists_of_face_eq_directory hface
          exact follow_eq_of_alike h followLast links (step :: here) rest
    · have hother : ¬ ∃ entries, m.at? here.reverse = some (.directory entries) := by
        rintro ⟨entries, hat⟩
        obtain ⟨others, hother, -⟩ := h.symm.directory hat
        exact hdirectory ⟨others, hother⟩
      split
      · next entries hat => exact absurd ⟨entries, hat⟩ hdirectory
      · split
        · next entries hat => exact absurd ⟨entries, hat⟩ hother
        · rfl
termination_by (links, steps.length)

variable {t u : Tree}

theorem Alike.names (h : t.Alike u) (path : List UInt8) : t.names path = u.names path := by
  have hlocate : t.locate true path = u.locate true path := by
    rw [locate, locate, h.working]
    split
    · rfl
    split
    · rfl
    split
    · rfl
    exact follow_eq_of_alike h.top true linkLimit _ _
  rw [Tree.names, Tree.names, hlocate]

/-- What a path leads to looks the same in alike trees. -/
theorem Alike.find (h : t.Alike u) (path : List UInt8) :
    (t.find path).map Node.face = (u.find path).map Node.face := by
  rw [Tree.find, Tree.find, h.names]
  cases u.names path with
  | error failure => rfl
  | ok names =>
    have hnames := h.top names
    simp only [bind, Except.bind]
    cases hat : t.top.at? names with
    | none =>
      rw [hat, Option.map_none] at hnames
      rw [Option.map_eq_none_iff.mp hnames.symm]
    | some node =>
      rw [hat, Option.map_some] at hnames
      obtain ⟨found, hfound, hface⟩ := Option.map_eq_some_iff.mp hnames.symm
      rw [hfound]
      exact congrArg Except.ok hface.symm

theorem Alike.read (h : t.Alike u) (path : List UInt8) : t.read path = u.read path := by
  have hfind := h.find path
  rw [Tree.read, Tree.read]
  cases ht : t.find path with
  | error failure =>
    cases hu : u.find path with
    | error other =>
      rw [ht, hu] at hfind
      cases hfind
      rfl
    | ok found =>
      rw [ht, hu] at hfind
      cases hfind
  | ok node =>
    cases hu : u.find path with
    | error other =>
      rw [ht, hu] at hfind
      cases hfind
    | ok found =>
      rw [ht, hu] at hfind
      have hface : node.face = found.face := Except.ok.inj hfind
      cases node <;> cases found <;> cases hface <;> rfl

end Tree

namespace Layer

variable {t u : Tree}

/-- Ignore files say the same in alike trees. -/
theorem ofDirectory_eq_of_alike (h : t.Alike u) (directory : List Name) :
    ofDirectory t directory = ofDirectory u directory := by
  have hrules (names : List Name) : rulesAt t directory names = rulesAt u directory names := by
    rw [rulesAt, rulesAt, h.read]
  have hhas (name : Name) : has t directory name = has u directory name := by
    have hfind := h.find (Path.slash :: Text.join [Path.slash] (directory ++ [name]))
    rw [has, has]
    cases ht : t.find (Path.slash :: Text.join [Path.slash] (directory ++ [name])) with
    | error failure =>
      rw [ht] at hfind
      cases hu : u.find (Path.slash :: Text.join [Path.slash] (directory ++ [name])) with
      | error other => rfl
      | ok found => rw [hu] at hfind; cases hfind
    | ok node =>
      rw [ht] at hfind
      cases hu : u.find (Path.slash :: Text.join [Path.slash] (directory ++ [name])) with
      | error other => rw [hu] at hfind; cases hfind
      | ok found => rfl
  simp only [ofDirectory, hrules, hhas]

end Layer

theorem layersOf_eq_of_alike {t u : Tree} (h : t.Alike u) (names : List Name) :
    layersOf t names = layersOf u names := by
  induction names with
  | nil => rw [layersOf, layersOf, Layer.ofDirectory_eq_of_alike h]
  | cons name above ih => rw [layersOf, layersOf, Layer.ofDirectory_eq_of_alike h, ih]

end SourceSurvey.Files
