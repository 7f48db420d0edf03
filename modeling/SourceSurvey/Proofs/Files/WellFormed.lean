import SourceSurvey.Proofs.Files.Changes

/-!
Well-formed trees: no directory has a name twice, and no name is empty or has a slash. Looking up
and listing come to the same in them, and changes keep them well-formed.
-/

namespace SourceSurvey.Files

/-- A name that an entry of a directory can have. -/
structure IsName (name : Name) : Prop where
  ne_nil : name ≠ []
  noSlash : Path.slash ∉ name

instance (name : Name) : Decidable (IsName name) :=
  decidable_of_iff (name ≠ [] ∧ Path.slash ∉ name) ⟨fun h => ⟨h.1, h.2⟩, fun h => ⟨h.1, h.2⟩⟩

/-- In every directory at or below a node the names are distinct and are names that entries can
    have. -/
inductive Node.WellFormed : Node → Prop
  | file (content : List UInt8) : WellFormed (.file content)
  | link (target : List UInt8) : WellFormed (.link target)
  | directory {entries : List (Name × Node)} (distinct : (entries.map Prod.fst).Nodup)
      (named : ∀ entry ∈ entries, IsName entry.1)
      (inner : ∀ entry ∈ entries, WellFormed entry.2) : WellFormed (.directory entries)

theorem mem_of_lookup {entries : List (Name × Node)} {name : Name} {node : Node}
    (hlookup : entries.lookup name = some node) : (name, node) ∈ entries := by
  obtain ⟨first, rest, rfl, -⟩ := List.lookup_eq_some_iff.mp hlookup
  simp

theorem lookup_cons_of_ne {name other : Name} (h : name ≠ other) (node : Node)
    (rest : List (Name × Node)) : ((other, node) :: rest).lookup name = rest.lookup name := by
  rw [List.lookup_cons, beq_eq_false_iff_ne.mpr h]

/-- With distinct names, what a directory lists is what it finds. -/
theorem lookup_eq_some_iff_mem {entries : List (Name × Node)}
    (hdistinct : (entries.map Prod.fst).Nodup) (name : Name) (node : Node) :
    entries.lookup name = some node ↔ (name, node) ∈ entries := by
  refine ⟨mem_of_lookup, fun hmem => ?_⟩
  obtain ⟨first, rest, rfl⟩ := List.append_of_mem hmem
  refine List.lookup_eq_some_iff.mpr ⟨first, rest, rfl, fun entry hentry => ?_⟩
  rw [List.map_append, List.nodup_append] at hdistinct
  have hne := hdistinct.2.2 entry.1 (List.mem_map_of_mem hentry) name (by simp)
  simpa using Ne.symm hne

namespace Node

/-- What a directory passes on to its entries holds of everything that names lead to in it. -/
theorem at?_inherits {p : Node → Prop} {q : Name → Prop}
    (hentry : ∀ entries, p (.directory entries) → ∀ entry ∈ entries, q entry.1 ∧ p entry.2)
    {node found : Node} (hnode : p node) {names : List Name}
    (hfound : node.at? names = some found) : p found ∧ ∀ name ∈ names, q name := by
  induction names generalizing node with
  | nil =>
    rw [Node.at?, Option.some.injEq] at hfound
    subst hfound
    exact ⟨hnode, List.forall_mem_nil _⟩
  | cons name rest ih =>
    rw [Node.at?, Option.bind_eq_some_iff] at hfound
    obtain ⟨child, hchild, hfound⟩ := hfound
    cases node with
    | file content => cases hchild
    | link target => cases hchild
    | directory entries =>
      obtain ⟨hname, hinner⟩ := hentry entries hnode _ (mem_of_lookup hchild)
      obtain ⟨hinside, hrest⟩ := ih hinner hfound
      exact ⟨hinside, List.forall_mem_cons.mpr ⟨hname, hrest⟩⟩

/-- What names lead to in a well-formed node is well-formed, and so are the names. -/
theorem WellFormed.at? {node found : Node} (hnode : node.WellFormed) {names : List Name}
    (hfound : node.at? names = some found) :
    found.WellFormed ∧ ∀ name ∈ names, IsName name := by
  refine at?_inherits (fun entries hentries entry hentry => ?_) hnode hfound
  cases hentries with
  | directory _ named inner => exact ⟨named entry hentry, inner entry hentry⟩

theorem mem_putEntry {name : Name} {node : Node} {entries : List (Name × Node)}
    {entry : Name × Node} (hentry : entry ∈ putEntry name node entries) :
    entry = (name, node) ∨ entry ∈ entries := by
  induction entries with
  | nil => exact .inl (by simpa [putEntry] using hentry)
  | cons other rest ih =>
    rw [putEntry] at hentry
    split at hentry
    · obtain rfl | hrest := List.mem_cons.mp hentry
      · exact .inl rfl
      · exact .inr (List.mem_cons_of_mem _ hrest)
    · obtain rfl | hrest := List.mem_cons.mp hentry
      · exact .inr List.mem_cons_self
      · exact (ih hrest).imp_right (List.mem_cons_of_mem _)

theorem nodup_putEntry {name : Name} {node : Node} {entries : List (Name × Node)}
    (hdistinct : (entries.map Prod.fst).Nodup) :
    ((putEntry name node entries).map Prod.fst).Nodup := by
  induction entries with
  | nil => simp [putEntry]
  | cons other rest ih =>
    obtain ⟨hother, hrest⟩ := List.nodup_cons.mp hdistinct
    rw [putEntry]
    split
    · next heq => exact List.nodup_cons.mpr ⟨heq ▸ hother, hrest⟩
    · next hne =>
      refine List.nodup_cons.mpr ⟨fun hmem => ?_, ih hrest⟩
      obtain ⟨entry, hentry, hname⟩ := List.mem_map.mp hmem
      obtain rfl | hentry := mem_putEntry hentry
      · exact hne hname.symm
      · exact hother (List.mem_map.mpr ⟨entry, hentry, hname⟩)

theorem WellFormed.putEntry {name : Name} {node : Node} {entries : List (Name × Node)}
    (hentries : (Node.directory entries).WellFormed) (hname : IsName name)
    (hnode : node.WellFormed) :
    (Node.directory (Node.putEntry name node entries)).WellFormed := by
  cases hentries with
  | directory distinct named inner =>
    refine .directory (nodup_putEntry distinct) (fun entry hentry => ?_) (fun entry hentry => ?_)
    · obtain rfl | hentry := mem_putEntry hentry
      · exact hname
      · exact named _ hentry
    · obtain rfl | hentry := mem_putEntry hentry
      · exact hnode
      · exact inner _ hentry

/-- Putting a node somewhere keeps a tree well-formed. -/
theorem WellFormed.put {node : Node} (hnode : node.WellFormed) :
    ∀ {names : List Name} {top : Node}, (∀ name ∈ names, IsName name) → top.WellFormed →
      (put node names top).WellFormed := by
  intro names top hnames htop
  fun_induction Node.put node names top with
  | case1 => exact hnode
  | case2 name entries => exact htop.putEntry (hnames name List.mem_cons_self) hnode
  | case3 name rest entries _ child hlookup ih =>
    have hchild : child.WellFormed := by
      cases htop with
      | directory distinct named inner => exact inner _ (mem_of_lookup hlookup)
    obtain ⟨hname, hrest⟩ := List.forall_mem_cons.mp hnames
    exact htop.putEntry hname (ih hrest hchild)
  | case4 => exact htop
  | case5 => exact htop

end Node

/-- A well-formed tree: its nodes are, and its relative paths begin below names. -/
structure Tree.WellFormed (t : Tree) : Prop where
  top : t.top.WellFormed
  working : ∀ name ∈ t.working, IsName name

theorem Tree.names_eq_ok_iff {t : Tree} {path : List UInt8} {names : List Name} :
    t.names path = .ok names ↔ t.locate true path = .ok (.taken names) := by
  unfold Tree.names
  cases t.locate true path with
  | error failure => simp [bind, Except.bind]
  | ok spot => cases spot <;> simp [bind, Except.bind, pure, Except.pure, throw, throwThe,
      MonadExceptOf.throw]

/-- What a path leads to stands at the names that it leads along. -/
theorem Tree.find_eq_ok_iff {t : Tree} {path : List UInt8} {node : Node} :
    t.find path = .ok node ↔ ∃ names, t.names path = .ok names ∧ t.top.at? names = some node := by
  unfold Tree.find
  cases t.names path with
  | error failure => simp [bind, Except.bind]
  | ok names =>
    cases hat : t.top.at? names <;>
      simp [bind, Except.bind, hat, pure, Except.pure, throw, throwThe, MonadExceptOf.throw]

theorem Tree.read_eq_ok_iff {t : Tree} {path : List UInt8} {content : List UInt8} :
    t.read path = .ok content ↔ t.find path = .ok (.file content) := by
  unfold Tree.read
  cases t.find path with
  | error failure => simp [bind, Except.bind]
  | ok node =>
    cases node <;>
      simp [bind, Except.bind, pure, Except.pure, throw, throwThe, MonadExceptOf.throw]

/-- The names of a spot. -/
def Spot.names : Spot → List Name
  | taken names | free names => names

/-- Wherever steps lead, they lead along names. -/
theorem Tree.isName_of_follow {top : Node} {followLast : Bool} {links : Nat} {here steps : List Name}
    {spot : Spot} (hspot : follow top followLast links here steps = .ok spot)
    (hhere : ∀ name ∈ here, IsName name) (hsteps : ∀ step ∈ steps, Path.slash ∉ step) :
    ∀ name ∈ spot.names, IsName name := by
  cases steps with
  | nil =>
    rw [follow, Except.ok.injEq] at hspot
    subst hspot
    exact fun name hname => hhere name (List.mem_reverse.mp hname)
  | cons step rest =>
    obtain ⟨hstep, hrest⟩ := List.forall_mem_cons.mp hsteps
    rw [follow] at hspot
    split at hspot
    · split at hspot
      · exact isName_of_follow hspot hhere hrest
      · next hproper =>
        have hnext : ∀ name ∈ step :: here, IsName name :=
          List.forall_mem_cons.mpr ⟨⟨fun h => hproper (.inl h), hstep⟩, hhere⟩
        split at hspot
        · exact isName_of_follow hspot (fun name hname => hhere name (List.mem_of_mem_drop hname))
            hrest
        split at hspot
        · cases hspot
        split at hspot
        · split at hspot
          · cases hspot
            exact fun name hname => hnext name (List.mem_reverse.mp hname)
          · cases hspot
        · split at hspot
          · cases hspot
            exact fun name hname => hnext name (List.mem_reverse.mp hname)
          · split at hspot
            · cases hspot
            · refine isName_of_follow hspot ?_ ?_
              · split
                · exact List.forall_mem_nil _
                · exact hhere
              · exact List.forall_mem_append.mpr
                  ⟨fun _ hfield => Text.not_mem_of_mem_split hfield, hrest⟩
        · exact isName_of_follow hspot hnext hrest
    · cases hspot
termination_by (links, steps.length)

theorem Tree.WellFormed.isName_of_locate {t : Tree} (ht : t.WellFormed) {followLast : Bool}
    {path : List UInt8} {spot : Spot} (hspot : t.locate followLast path = .ok spot) :
    ∀ name ∈ spot.names, IsName name := by
  unfold locate at hspot
  split at hspot
  · cases hspot
  split at hspot
  · cases hspot
  split at hspot
  · cases hspot
  refine isName_of_follow hspot ?_ fun step hstep => Text.not_mem_of_mem_split hstep
  split
  · simp
  · exact fun name hname => ht.working name (List.mem_reverse.mp hname)

theorem Tree.WellFormed.put {t : Tree} (ht : t.WellFormed) {names : List Name} {node : Node}
    (hnames : ∀ name ∈ names, IsName name) (hnode : node.WellFormed) :
    Tree.WellFormed { t with top := Node.put node names t.top } :=
  ⟨hnode.put hnames ht.top, ht.working⟩

namespace Change

/-- A change that keeps trees well-formed, even where it is refused. -/
def Keeps {α : Type} (change : Change α) : Prop :=
  ∀ t : Tree, t.WellFormed → (t.after change).2.WellFormed

theorem keeps_makeAll (path : List UInt8) : Keeps (makeAll path) :=
  preserves_makeDirectories (fun _ _ _ ht hlocate => ht.put (ht.isName_of_locate hlocate)
    (.directory List.nodup_nil (List.forall_mem_nil _) (List.forall_mem_nil _))) _ path

theorem keeps_write (path : List UInt8) (content : List UInt8) : Keeps (write path content) :=
  preserves_write fun _ _ ht hlocate => by
    obtain ⟨hlocate, -⟩ | ⟨_, hlocate, -⟩ := hlocate
    · exact ht.put (ht.isName_of_locate hlocate) (.file content)
    · exact ht.put (ht.isName_of_locate hlocate) (.file content)

end Change
end SourceSurvey.Files
