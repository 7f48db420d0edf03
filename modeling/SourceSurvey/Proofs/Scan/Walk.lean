import Mathlib.Data.List.Nodup
import SourceSurvey.Proofs.Files.WellFormed
import SourceSurvey.Scan

/-!
What a walk through a well-formed tree finds: everything that counts as a file and that no step on
the way to it leaves out, each once.
-/

namespace SourceSurvey.Scan.Walk

open Files

theorem entriesFiles_eq_flatMap (w : Walk) (layers : List Layer) (path : List Name)
    (entries : List (Name × Node)) :
    w.entriesFiles layers path entries = entries.flatMap fun entry =>
      if w.passes layers (entry.1 :: path) entry.2.isDirectory then
        w.nodeFiles layers (entry.1 :: path) entry.2
      else [] := by
  induction entries with
  | nil => rfl
  | cons entry rest ih => rw [entriesFiles, ih, List.flatMap_cons]

/-- What a walk lists when it comes to it: files, and links that lead to files. -/
inductive Lists (w : Walk) (path : List Name) : Node → Prop
  | file (content : List UInt8) : Lists w path (.file content)
  | link (target : List UInt8) (hfile : w.leadsToFile path = true) : Lists w path (.link target)

/-- On the way from a directory along some names to something that is not a directory, a walk opens
    every directory and leaves nothing out. -/
def Admits (w : Walk) (layers : List Layer) (path : List Name) : List Name → Prop
  | [] => True
  | [name] => w.opens path = true ∧ w.passes layers (name :: path) false
  | name :: rest =>
    w.opens path = true ∧ w.passes layers (name :: path) true ∧
      Admits w (w.enter (name :: path) layers) (name :: path) rest

/-- The first step of a way is judged by whether anything comes behind it. -/
theorem admits_cons_iff {w : Walk} {layers : List Layer} {path names : List Name} {name : Name}
    {node found : Node} (hfound : node.at? names = some found)
    (hlists : w.Lists (names.reverse ++ name :: path) found) :
    w.Admits layers path (name :: names) ↔ w.opens path = true ∧
      w.passes layers (name :: path) node.isDirectory = true ∧
        w.Admits (w.enter (name :: path) layers) (name :: path) names := by
  cases names with
  | nil =>
    rw [Node.at?, Option.some.injEq] at hfound
    subst hfound
    have hfile : node.isDirectory = false := by cases hlists <;> rfl
    rw [hfile]
    simp [Admits]
  | cons next rest =>
    have hdirectory : node.isDirectory = true := by
      cases node with
      | directory entries => rfl
      | file content => cases hfound
      | link target => cases hfound
    rw [hdirectory]
    rfl

/-- A walk finds what it lists and does not leave out, and nothing else. -/
theorem mem_nodeFiles_iff {w : Walk} {node : Node} (hnode : node.WellFormed) :
    ∀ {layers : List Layer} {path found : List Name}, found ∈ w.nodeFiles layers path node ↔
      ∃ names target, node.at? names = some target ∧ w.Lists (names.reverse ++ path) target ∧
        w.Admits (w.enter path layers) path names ∧ found = names.reverse ++ path := by
  induction hnode with
  | file content =>
    intro layers path found
    rw [nodeFiles, List.mem_singleton]
    constructor
    · rintro rfl
      exact ⟨[], .file content, rfl, .file content, trivial, rfl⟩
    · rintro ⟨names, target, hat, -, -, rfl⟩
      cases names with
      | nil => rfl
      | cons name rest => cases hat
  | link target =>
    intro layers path found
    rw [nodeFiles]
    constructor
    · intro hmem
      split at hmem
      · next hfile =>
        obtain rfl := List.mem_singleton.mp hmem
        exact ⟨[], .link target, rfl, .link target hfile, trivial, rfl⟩
      · cases hmem
    · rintro ⟨names, other, hat, hlists, -, rfl⟩
      cases names with
      | nil =>
        cases hat
        cases hlists with
        | link _ hfile =>
          rw [List.reverse_nil, List.nil_append] at hfile ⊢
          rw [if_pos hfile]
          exact List.mem_singleton_self path
      | cons name rest => cases hat
  | @directory entries distinct named inner ih =>
    intro layers path found
    rw [nodeFiles, List.mem_ite_nil_right, entriesFiles_eq_flatMap, List.mem_flatMap]
    constructor
    · rintro ⟨hopens, ⟨name, child⟩, hmem, hfound⟩
      split at hfound
      · next hpasses =>
        obtain ⟨names, target, hat, hlists, hadmits, rfl⟩ := (ih _ hmem).mp hfound
        have hlookup := (lookup_eq_some_iff_mem distinct name child).mpr hmem
        refine ⟨name :: names, target, ?_, ?_,
          (admits_cons_iff hat hlists).mpr ⟨hopens, hpasses, hadmits⟩, ?_⟩
        · rw [Node.at?, Node.child?, hlookup]
          exact hat
        · simpa using hlists
        · simp
      · cases hfound
    · rintro ⟨names, target, hat, hlists, hadmits, rfl⟩
      cases names with
      | nil =>
        cases hat
        cases hlists
      | cons name rest =>
        rw [Node.at?, Option.bind_eq_some_iff] at hat
        obtain ⟨child, hlookup, hat⟩ := hat
        have hmem := (lookup_eq_some_iff_mem distinct name child).mp hlookup
        rw [List.reverse_cons, List.append_assoc, List.singleton_append] at hlists ⊢
        obtain ⟨hopens, hpasses, hadmits⟩ := (admits_cons_iff hat hlists).mp hadmits
        refine ⟨hopens, (name, child), hmem, ?_⟩
        rw [if_pos hpasses]
        exact (ih _ hmem).mpr ⟨rest, target, hat, hlists, hadmits, rfl⟩

/-- A walk finds nothing twice: the name of an entry tells what is found in it from the rest. -/
theorem nodup_nodeFiles {w : Walk} {node : Node} (hnode : node.WellFormed) :
    ∀ {layers : List Layer} {path : List Name}, (w.nodeFiles layers path node).Nodup := by
  induction hnode with
  | file content => exact List.nodup_singleton _
  | link target =>
    intro layers path
    rw [nodeFiles]
    split
    · exact List.nodup_singleton path
    · exact List.nodup_nil
  | @directory entries distinct named inner ih =>
    intro layers path
    rw [nodeFiles]
    split
    swap
    · exact List.nodup_nil
    rw [entriesFiles_eq_flatMap, List.nodup_flatMap]
    constructor
    · intro entry hentry
      split
      · exact ih entry hentry
      · exact List.nodup_nil
    · have hnames : entries.Pairwise fun first second => first.1 ≠ second.1 :=
        List.pairwise_map.mp distinct
      refine hnames.imp_of_mem ?_
      intro first second hfirst hsecond hne found hin hother
      simp only at hin hother
      split at hin
      · split at hother
        · obtain ⟨names, _, _, _, _, rfl⟩ := (mem_nodeFiles_iff (inner first hfirst)).mp hin
          obtain ⟨others, _, _, _, _, heq⟩ := (mem_nodeFiles_iff (inner second hsecond)).mp hother
          have htail := (List.append_inj' heq rfl).2
          exact hne (List.cons.inj htail).1
        · cases hother
      · cases hin

/-- The files of a walk are found at names that no step on the way leaves out. -/
theorem mem_files_iff {w : Walk} {node : Node} (hnode : node.WellFormed) {names : List Name} :
    names ∈ w.files node ↔ isStream w.start = false ∧ ∃ target, node.at? names = some target ∧
      w.Lists names.reverse target ∧ w.Admits (w.enter [] w.outside) [] names := by
  rw [files, List.mem_ite_nil_left, Bool.not_eq_true, List.mem_map]
  refine and_congr_right fun _ => ?_
  constructor
  · rintro ⟨found, hfound, rfl⟩
    obtain ⟨names, target, hat, hlists, hadmits, rfl⟩ := (mem_nodeFiles_iff hnode).mp hfound
    rw [List.append_nil] at hlists ⊢
    rw [List.reverse_reverse]
    exact ⟨target, hat, hlists, hadmits⟩
  · rintro ⟨target, hat, hlists, hadmits⟩
    refine ⟨names.reverse, ?_, List.reverse_reverse names⟩
    exact (mem_nodeFiles_iff hnode).mpr
      ⟨names, target, hat, by rwa [List.append_nil], hadmits, (List.append_nil _).symm⟩

theorem nodup_files {w : Walk} {node : Node} (hnode : node.WellFormed) : (w.files node).Nodup := by
  rw [files]
  split
  · exact List.nodup_nil
  · exact (nodup_nodeFiles hnode).map List.reverse_injective

end SourceSurvey.Scan.Walk
