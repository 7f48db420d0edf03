import Mathlib.Data.List.Basic
import SourceSurvey.Proofs.Files.Linkless

/-!
Trees that grow by directories and by files of one name. All else stays in its place and in its
order, so that what led somewhere before still does.
-/

namespace SourceSurvey.Files

/-- A new entry: a file of the one name, or a directory with nothing but new entries. -/
inductive Fresh (output : Name) : Name × Node → Prop
  | file (content : List UInt8) : Fresh output (output, .file content)
  | directory (name : Name) {entries : List (Name × Node)}
      (inner : ∀ entry ∈ entries, Fresh output entry) : Fresh output (name, .directory entries)

/-- How the entries of a directory grow: new ones come behind the old ones, and of the old ones
    directories grow and a file of the one name is written anew. -/
inductive Grown (output : Name) : List (Name × Node) → List (Name × Node) → Prop
  | added {others : List (Name × Node)} (fresh : ∀ entry ∈ others, Fresh output entry) :
      Grown output [] others
  | same {entries others : List (Name × Node)} (entry : Name × Node)
      (rest : Grown output entries others) : Grown output (entry :: entries) (entry :: others)
  | inside {entries others inner inner' : List (Name × Node)} (name : Name)
      (within : Grown output inner inner') (rest : Grown output entries others) :
      Grown output ((name, .directory inner) :: entries) ((name, .directory inner') :: others)
  | written {entries others : List (Name × Node)} (content content' : List UInt8)
      (rest : Grown output entries others) :
      Grown output ((output, .file content) :: entries) ((output, .file content') :: others)

/-- What may become of what a name stands for in a growing directory. -/
inductive Turns (output name : Name) : Node → Node → Prop
  | same (node : Node) : Turns output name node node
  | inside {inner inner' : List (Name × Node)} (within : Grown output inner inner') :
      Turns output name (.directory inner) (.directory inner')
  | written (hname : name = output) (content content' : List UInt8) :
      Turns output name (.file content) (.file content')

/-- What may become of what stands at some names, the last of which is given, when a tree grows. -/
inductive Becomes (output name : Name) : Option Node → Option Node → Prop
  | absent : Becomes output name none none
  | fresh {node : Node} (hfresh : Fresh output (name, node)) : Becomes output name none (some node)
  | turned {node node' : Node} (hturns : Turns output name node node') :
      Becomes output name (some node) (some node')

variable {output name : Name} {entries others : List (Name × Node)}

theorem Becomes.refl (found : Option Node) : Becomes output name found found := by
  cases found with
  | none => exact .absent
  | some node => exact .turned (.same node)

theorem Grown.refl (entries : List (Name × Node)) : Grown output entries entries := by
  induction entries with
  | nil => exact .added (List.forall_mem_nil _)
  | cons entry rest ih => exact .same entry ih

theorem Fresh.grown (h : Grown output entries others) (hfresh : ∀ entry ∈ entries, Fresh output entry) :
    ∀ entry ∈ others, Fresh output entry := by
  induction h with
  | added fresh => exact fresh
  | same entry rest ih =>
    obtain ⟨hentry, hrest⟩ := List.forall_mem_cons.mp hfresh
    exact List.forall_mem_cons.mpr ⟨hentry, ih hrest⟩
  | inside name within rest ihwithin ihrest =>
    obtain ⟨hentry, hrest⟩ := List.forall_mem_cons.mp hfresh
    cases hentry with
    | directory _ inner =>
      exact List.forall_mem_cons.mpr ⟨.directory name (ihwithin inner), ihrest hrest⟩
  | written content content' rest ih =>
    obtain ⟨-, hrest⟩ := List.forall_mem_cons.mp hfresh
    exact List.forall_mem_cons.mpr ⟨.file content', ih hrest⟩

theorem Grown.trans {last : List (Name × Node)} (h : Grown output entries others)
    (h' : Grown output others last) : Grown output entries last := by
  induction h generalizing last with
  | added fresh => exact .added (Fresh.grown h' fresh)
  | same entry rest ih =>
    cases h' with
    | same _ rest' => exact .same entry (ih rest')
    | inside name within rest' => exact .inside name within (ih rest')
    | written content content' rest' => exact .written content content' (ih rest')
  | inside name within rest ihwithin ihrest =>
    cases h' with
    | same _ rest' => exact .inside name within (ihrest rest')
    | inside _ within' rest' => exact .inside name (ihwithin within') (ihrest rest')
  | written content content' rest ih =>
    cases h' with
    | same _ rest' => exact .written content content' (ih rest')
    | written _ content'' rest' => exact .written content content'' (ih rest')

/-! ### Looking something up -/

theorem Grown.lookup (h : Grown output entries others) (name : Name) :
    Becomes output name (entries.lookup name) (others.lookup name) := by
  induction h with
  | @added others fresh =>
    cases hfound : others.lookup name with
    | none => exact .absent
    | some node => exact .fresh (fresh _ (mem_of_lookup hfound))
  | same entry rest ih =>
    obtain ⟨other, node⟩ := entry
    rw [List.lookup_cons, List.lookup_cons]
    split
    · exact .turned (.same node)
    · exact ih
  | inside other within rest ihwithin ihrest =>
    rw [List.lookup_cons, List.lookup_cons]
    split
    · exact .turned (.inside within)
    · exact ihrest
  | written content content' rest ih =>
    rw [List.lookup_cons, List.lookup_cons]
    split
    · next heq => exact .turned (.written (beq_iff_eq.mp heq) content content')
    · exact ih

/-- What is there stays there in some form. -/
theorem Becomes.exists_of_some {node : Node} {found : Option Node}
    (h : Becomes output name (some node) found) : ∃ node', found = some node' := by
  cases h with
  | turned _ => exact ⟨_, rfl⟩

/-- What stands at some names is still there or has turned into something; what was not there is
    new. -/
theorem Grown.at? (h : Grown output entries others) (above : List Name) (name : Name) :
    Becomes output name ((Node.directory entries).at? (above ++ [name]))
      ((Node.directory others).at? (above ++ [name])) := by
  induction above generalizing entries others with
  | nil =>
    rw [List.nil_append, Node.at?_singleton, Node.at?_singleton]
    exact h.lookup name
  | cons first rest ih =>
    rw [List.cons_append, Node.at?_cons, Node.at?_cons]
    have hfirst := h.lookup first
    generalize entries.lookup first = old, others.lookup first = new at hfirst
    cases hfirst with
    | absent => exact .absent
    | fresh hfresh =>
      cases hfresh with
      | file content =>
        rw [Option.bind_some, Node.at?_file]
        exact .absent
      | directory _ inner =>
        -- A new directory has grown from nothing.
        have hnew := ih (.added inner)
        rw [Node.at?_nil] at hnew
        exact hnew
    | turned hturns =>
      cases hturns with
      | same node => exact Becomes.refl _
      | inside within => exact ih within
      | written _ content content' =>
        rw [Option.bind_some, Option.bind_some, Node.at?_file, Node.at?_file]
        exact .absent

/-- A directory is still there, and has grown. -/
theorem Grown.directory (h : Grown output entries others) {names : List Name}
    {inner : List (Name × Node)} (hat : (Node.directory entries).at? names = some (.directory inner)) :
    ∃ inner', (Node.directory others).at? names = some (.directory inner') ∧
      Grown output inner inner' := by
  obtain rfl | ⟨above, name, rfl⟩ := List.eq_nil_or_concat' names
  · cases hat
    exact ⟨others, rfl, h⟩
  · have hbecomes := h.at? above name
    rw [hat] at hbecomes
    cases hfound : (Node.directory others).at? (above ++ [name]) with
    | none =>
      rw [hfound] at hbecomes
      cases hbecomes
    | some node =>
      rw [hfound] at hbecomes
      cases hbecomes with
      | turned hturns =>
        cases hturns with
        | same _ => exact ⟨inner, rfl, .refl inner⟩
        | inside within => exact ⟨_, rfl, within⟩

/-- A file of another name is where it was before. -/
theorem Grown.file_iff (h : Grown output entries others) {above : List Name} (hname : name ≠ output)
    {content : List UInt8} :
    (Node.directory others).at? (above ++ [name]) = some (.file content) ↔
      (Node.directory entries).at? (above ++ [name]) = some (.file content) := by
  have hbecomes := h.at? above name
  constructor
  · intro hfound
    rw [hfound] at hbecomes
    generalize (Node.directory entries).at? (above ++ [name]) = found at hbecomes ⊢
    cases hbecomes with
    | fresh hfresh =>
      cases hfresh
      exact absurd rfl hname
    | turned hturns =>
      cases hturns with
      | same _ => rfl
      | written heq _ _ => exact absurd heq hname
  · intro hfound
    rw [hfound] at hbecomes
    generalize (Node.directory others).at? (above ++ [name]) = found at hbecomes ⊢
    cases hbecomes with
    | turned hturns =>
      cases hturns with
      | same _ => rfl
      | written heq _ _ => exact absurd heq hname

/-- Nothing turns into a link. -/
theorem Grown.linkless (h : Grown output entries others)
    (hentries : (Node.directory entries).Linkless) : (Node.directory others).Linkless := by
  intro names target hlink
  obtain rfl | ⟨above, name, rfl⟩ := List.eq_nil_or_concat' names
  · cases hlink
  · have hbecomes := h.at? above name
    rw [hlink] at hbecomes
    have hnone := hentries (above ++ [name]) target
    generalize (Node.directory entries).at? (above ++ [name]) = found at hbecomes hnone
    cases hbecomes with
    | fresh hfresh => cases hfresh
    | turned hturns =>
      cases hturns
      exact hnone rfl

/-! ### Putting something somewhere -/

theorem Grown.putEntry {node : Node} (h : Becomes output name (entries.lookup name) (some node)) :
    Grown output entries (Node.putEntry name node entries) := by
  induction entries with
  | nil =>
    cases h with
    | fresh hfresh => exact .added (List.forall_mem_singleton.mpr hfresh)
  | cons entry rest ih =>
    obtain ⟨other, old⟩ := entry
    rw [Node.putEntry]
    split
    · next heq =>
      subst heq
      rw [List.lookup_cons_self] at h
      cases h with
      | turned hturns =>
        cases hturns with
        | same _ => exact .refl _
        | inside within => exact .inside other within (.refl rest)
        | written heq content content' =>
          subst heq
          exact .written content content' (.refl rest)
    · next hne =>
      rw [lookup_cons_of_ne (Ne.symm hne)] at h
      exact .same _ (ih h)

theorem put_cons {node child : Node} {first : Name} (hchild : entries.lookup first = some child)
    (rest : List Name) (name : Name) :
    Node.put node (first :: (rest ++ [name])) (.directory entries) =
      .directory (Node.putEntry first (Node.put node (rest ++ [name]) child) entries) := by
  cases rest <;> simp only [List.nil_append, List.cons_append, Node.put, hchild]

/-- Putting something new, or what an old thing may turn into, lets a tree grow. -/
theorem Grown.put {above : List Name} {node : Node} {inner : List (Name × Node)}
    (hat : (Node.directory entries).at? above = some (.directory inner))
    (h : Becomes output name (inner.lookup name) (some node)) :
    ∃ others, Node.put node (above ++ [name]) (.directory entries) = .directory others ∧
      Grown output entries others := by
  induction above generalizing entries with
  | nil =>
    cases hat
    exact ⟨_, rfl, .putEntry h⟩
  | cons first rest ih =>
    rw [Node.at?_cons] at hat
    obtain ⟨child, hchild, hat⟩ := Option.bind_eq_some_iff.mp hat
    obtain ⟨within, rfl⟩ : ∃ within, child = .directory within := by
      cases child with
      | directory within => exact ⟨within, rfl⟩
      | file content => cases rest <;> cases hat
      | link target => cases rest <;> cases hat
    obtain ⟨within', hput, hwithin⟩ := ih hat
    rw [List.cons_append, put_cons hchild, hput]
    refine ⟨_, rfl, .putEntry ?_⟩
    rw [hchild]
    exact .turned (.inside hwithin)

/-! ### Putting is seen -/

theorem lookup_putEntry (name : Name) (node : Node) (entries : List (Name × Node)) :
    (Node.putEntry name node entries).lookup name = some node := by
  induction entries with
  | nil => exact List.lookup_cons_self
  | cons entry rest ih =>
    obtain ⟨other, old⟩ := entry
    rw [Node.putEntry]
    split
    · exact List.lookup_cons_self
    · next hne =>
      rw [lookup_cons_of_ne (Ne.symm hne)]
      exact ih

theorem at?_put {above : List Name} {top node : Node} {inner : List (Name × Node)}
    (hat : top.at? above = some (.directory inner)) (name : Name) :
    (Node.put node (above ++ [name]) top).at? (above ++ [name]) = some node := by
  induction above generalizing top with
  | nil =>
    cases hat
    exact (Node.at?_singleton _ name).trans (lookup_putEntry name node inner)
  | cons first rest ih =>
    cases top with
    | file content => cases hat
    | link target => cases hat
    | directory entries =>
      rw [Node.at?_cons] at hat
      obtain ⟨child, hchild, hat⟩ := Option.bind_eq_some_iff.mp hat
      rw [List.cons_append, put_cons hchild, Node.at?_cons, lookup_putEntry]
      exact ih hat

theorem putEntry_eq_self {node : Node} (h : entries.lookup name = some node) :
    Node.putEntry name node entries = entries := by
  induction entries with
  | nil => cases h
  | cons entry rest ih =>
    obtain ⟨other, old⟩ := entry
    rw [Node.putEntry]
    split
    · next heq =>
      subst heq
      rw [List.lookup_cons_self] at h
      cases h
      rfl
    · next hne =>
      rw [lookup_cons_of_ne (Ne.symm hne)] at h
      rw [ih h]

/-- Putting a node where it stands changes nothing. -/
theorem put_eq_self {above : List Name} {top node : Node}
    (hat : top.at? (above ++ [name]) = some node) : Node.put node (above ++ [name]) top = top := by
  induction above generalizing top with
  | nil =>
    cases top with
    | file content => cases hat
    | link target => cases hat
    | directory entries =>
      rw [List.nil_append, Node.at?_singleton] at hat
      exact congrArg Node.directory (putEntry_eq_self hat)
  | cons first rest ih =>
    cases top with
    | file content => cases hat
    | link target => cases hat
    | directory entries =>
      rw [List.cons_append, Node.at?_cons] at hat
      obtain ⟨child, hchild, hat⟩ := Option.bind_eq_some_iff.mp hat
      rw [List.cons_append, put_cons hchild, ih hat, putEntry_eq_self hchild]

/-! ### Going down a path -/

namespace Tree

/-- Steps that lead somewhere lead there when a tree has grown. -/
theorem Descends.taken_of_grown (h : Grown output entries others) {here steps names : List Name}
    (htaken : Descends (.directory entries) here steps (.taken names)) :
    Descends (.directory others) here steps (.taken names) := by
  generalize hspot : Spot.taken names = spot at htaken ⊢
  induction htaken with
  | done here => exact .done here
  | stay hat hstep _ ih =>
    obtain ⟨_, hat', -⟩ := h.directory hat
    exact .stay hat' hstep (ih hspot)
  | up hat _ ih =>
    obtain ⟨_, hat', -⟩ := h.directory hat
    exact .up hat' (ih hspot)
  | @into _ _ step _ _ _ hat hstep hchild _ ih =>
    obtain ⟨inner', hat', hinner⟩ := h.directory hat
    have hbecomes := hinner.lookup step
    rw [hchild] at hbecomes
    obtain ⟨child', hchild'⟩ := hbecomes.exists_of_some
    exact .into hat' hstep hchild' (ih hspot)
  | free _ _ _ _ => cases hspot

/-- Steps without a name lead nowhere else. -/
theorem Descends.of_all_isEmpty {top : Node} {here steps : List Name} {inner : List (Name × Node)}
    (hat : top.at? here.reverse = some (.directory inner)) (hsteps : steps.all (·.isEmpty) = true) :
    Descends top here steps (.taken here.reverse) := by
  induction steps with
  | nil => exact .done here
  | cons step rest ih =>
    rw [List.all_cons, Bool.and_eq_true] at hsteps
    exact .stay hat (.inl (List.isEmpty_iff.mp hsteps.1)) (ih hsteps.2)

/-- What leads to a free name has steps, of which the last is that of the whole way. -/
theorem Descends.getLast?_of_free {top : Node} {here rest names : List Name}
    (h : Descends top here rest (.free names)) (step : Name) :
    (step :: rest).getLast? = rest.getLast? := by
  cases rest with
  | nil => cases h
  | cons next rest => exact List.getLast?_cons_cons

/-- Steps that led to a free name lead to what has come there, unless that is a file and they end
    in a slash. -/
theorem Descends.free_of_grown (h : Grown output entries others) {here steps names : List Name}
    (hfree : Descends (.directory entries) here steps (.free names)) {node : Node}
    (hat : (Node.directory others).at? names = some node)
    (hends : node.isDirectory = true ∨ steps.getLast? ≠ some []) :
    Descends (.directory others) here steps (.taken names) := by
  generalize hspot : Spot.free names = spot at hfree
  induction hfree with
  | done _ => cases hspot
  | stay hinside hstep next ih =>
    subst hspot
    obtain ⟨_, hinside', -⟩ := h.directory hinside
    rw [next.getLast?_of_free] at hends
    exact .stay hinside' hstep (ih hends rfl)
  | up hinside next ih =>
    subst hspot
    obtain ⟨_, hinside', -⟩ := h.directory hinside
    rw [next.getLast?_of_free] at hends
    exact .up hinside' (ih hends rfl)
  | @into _ _ step _ _ _ hinside hstep hchild next ih =>
    subst hspot
    obtain ⟨inner', hinside', hinner⟩ := h.directory hinside
    have hbecomes := hinner.lookup step
    rw [hchild] at hbecomes
    obtain ⟨child', hchild'⟩ := hbecomes.exists_of_some
    rw [next.getLast?_of_free] at hends
    exact .into hinside' hstep hchild' (ih hends rfl)
  | @free here rest step _ hinside hstep hnone hempty =>
    cases hspot
    obtain ⟨inner', hinside', -⟩ := h.directory hinside
    have hchild := hat
    rw [List.reverse_cons, Node.at?_concat_of_directory hinside'] at hchild
    refine .into hinside' hstep hchild ?_
    obtain hdirectory | hends := hends
    · cases node with
      | directory entries => exact .of_all_isEmpty hat hempty
      | file content => cases hdirectory
      | link target => cases hdirectory
    · cases rest with
      | nil => exact .done (step :: here)
      | cons next rest =>
        -- All that comes behind a free name is without a name, the last step as well.
        have hlast := List.getLast?_eq_getLast_of_ne_nil (List.cons_ne_nil next rest)
        have hnil : (next :: rest).getLast (List.cons_ne_nil next rest) = [] :=
          List.isEmpty_iff.mp (List.all_eq_true.mp hempty _ (List.getLast_mem _))
        rw [List.getLast?_cons_cons, hlast, hnil] at hends
        exact absurd rfl hends

end Tree
end SourceSurvey.Files
