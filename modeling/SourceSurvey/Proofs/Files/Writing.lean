import SourceSurvey.Proofs.Files.Changes
import SourceSurvey.Proofs.Files.Growth

/-!
Making directories and writing a file in a tree without links. The tree grows by them and by nothing
else, and doing the same again changes nothing.
-/

namespace SourceSurvey.Files

variable {output : Name}

namespace Tree

/-- What a path leads to in a tree without links, if it is not refused. -/
theorem locate_eq_ok_iff {t : Tree} (ht : t.top.Linkless) {followLast : Bool} {path : List UInt8}
    {spot : Spot} : t.locate followLast path = .ok spot ↔
      refusal? path = none ∧ Descends t.top (t.origin path) (Text.split Path.slash path) spot := by
  rw [locate_eq_descend ht, ← descend_eq_ok_iff]
  cases refusal? path <;> simp

theorem isDirectory_iff {t : Tree} {path : List UInt8} : t.isDirectory path = true ↔
    ∃ names entries, t.locate true path = .ok (.taken names) ∧
      t.top.at? names = some (.directory entries) := by
  constructor
  · intro h
    unfold isDirectory at h
    split at h
    · next node hfind =>
      obtain ⟨names, hnames, hat⟩ := find_eq_ok_iff.mp hfind
      cases node with
      | directory entries => exact ⟨names, entries, names_eq_ok_iff.mp hnames, hat⟩
      | file content => cases h
      | link target => cases h
    · cases h
  · rintro ⟨names, entries, hlocate, hat⟩
    have hfind := find_eq_ok_iff.mpr ⟨names, names_eq_ok_iff.mpr hlocate, hat⟩
    rw [isDirectory, hfind]
    rfl

/-- A tree of which the top has grown. -/
structure Grows (output : Name) (t u : Tree) : Prop where
  working : u.working = t.working
  top : ∃ entries others, t.top = .directory entries ∧ u.top = .directory others ∧
    Grown output entries others

theorem Grows.refl {t : Tree} {entries : List (Name × Node)} (htop : t.top = .directory entries) :
    t.Grows output t :=
  ⟨rfl, entries, entries, htop, htop, .refl entries⟩

namespace Grows

variable {t u : Tree} (h : t.Grows output u)
include h

theorem trans {v : Tree} (h' : u.Grows output v) : t.Grows output v := by
  obtain ⟨entries, others, htop, hother, hgrown⟩ := h.top
  obtain ⟨_, last, hother', hlast, hgrown'⟩ := h'.top
  cases hother.symm.trans hother'
  exact ⟨h'.working.trans h.working, entries, last, htop, hlast, hgrown.trans hgrown'⟩

theorem linkless (ht : t.top.Linkless) : u.top.Linkless := by
  obtain ⟨entries, others, htop, hother, hgrown⟩ := h.top
  rw [htop] at ht
  rw [hother]
  exact hgrown.linkless ht

theorem at? (above : List Name) (name : Name) :
    Becomes output name (t.top.at? (above ++ [name])) (u.top.at? (above ++ [name])) := by
  obtain ⟨entries, others, htop, hother, hgrown⟩ := h.top
  rw [htop, hother]
  exact hgrown.at? above name

theorem directory {names : List Name} {inner : List (Name × Node)}
    (hat : t.top.at? names = some (.directory inner)) :
    ∃ inner', u.top.at? names = some (.directory inner') ∧ Grown output inner inner' := by
  obtain ⟨entries, others, htop, hother, hgrown⟩ := h.top
  rw [htop] at hat
  rw [hother]
  exact hgrown.directory hat

theorem file_iff {above : List Name} {name : Name} (hname : name ≠ output)
    {content : List UInt8} :
    u.top.at? (above ++ [name]) = some (.file content) ↔
      t.top.at? (above ++ [name]) = some (.file content) := by
  obtain ⟨entries, others, htop, hother, hgrown⟩ := h.top
  rw [htop, hother]
  exact hgrown.file_iff hname

theorem origin (path : List UInt8) : u.origin path = t.origin path := by
  rw [Tree.origin, Tree.origin, h.working]

variable (ht : t.top.Linkless) {path : List UInt8} {names : List Name}
include ht

/-- A path that led somewhere leads there still. -/
theorem locate_taken {followLast : Bool} (hpath : t.locate followLast path = .ok (.taken names))
    (followLast' : Bool) : u.locate followLast' path = .ok (.taken names) := by
  obtain ⟨hrefusal, hdescends⟩ := (locate_eq_ok_iff ht).mp hpath
  obtain ⟨entries, others, htop, hother, hgrown⟩ := h.top
  rw [htop] at hdescends
  refine (locate_eq_ok_iff (h.linkless ht)).mpr ⟨hrefusal, ?_⟩
  rw [hother, h.origin]
  exact hdescends.taken_of_grown hgrown

/-- A path that led to a free name leads to what has come there. -/
theorem locate_free {followLast : Bool} (hpath : t.locate followLast path = .ok (.free names))
    {node : Node} (hat : u.top.at? names = some node)
    (hends : node.isDirectory = true ∨ (Text.split Path.slash path).getLast? ≠ some [])
    (followLast' : Bool) : u.locate followLast' path = .ok (.taken names) := by
  obtain ⟨hrefusal, hdescends⟩ := (locate_eq_ok_iff ht).mp hpath
  obtain ⟨entries, others, htop, hother, hgrown⟩ := h.top
  rw [htop] at hdescends
  rw [hother] at hat
  refine (locate_eq_ok_iff (h.linkless ht)).mpr ⟨hrefusal, ?_⟩
  rw [hother, h.origin]
  exact hdescends.free_of_grown hgrown hat hends

theorem isDirectory (hpath : t.isDirectory path = true) : u.isDirectory path = true := by
  obtain ⟨names, entries, hlocate, hat⟩ := isDirectory_iff.mp hpath
  obtain ⟨others, hat', -⟩ := h.directory hat
  exact isDirectory_iff.mpr ⟨names, others, h.locate_taken ht hlocate true, hat'⟩

end Grows

/-- Putting something new, or what an old thing may turn into, lets a tree grow. -/
theorem Grows.put {t : Tree} {above : List Name} {name : Name} {node : Node}
    {inner : List (Name × Node)} (hat : t.top.at? above = some (.directory inner))
    (hnode : Becomes output name (t.top.at? (above ++ [name])) (some node)) :
    t.Grows output { t with top := Node.put node (above ++ [name]) t.top } := by
  obtain ⟨entries, htop⟩ := Node.exists_directory_of_at? hat
  rw [Node.at?_concat_of_directory hat] at hnode
  rw [htop] at hat ⊢
  obtain ⟨others, hput, hgrown⟩ := Grown.put hat hnode
  exact ⟨rfl, entries, others, htop, hput, hgrown⟩

end Tree

namespace Change

open SourceSurvey.Files.Tree

/-! ### Making directories -/

section Directories

variable {t u v : Tree} {path : List UInt8}

/-- A tree grows by a directory that is made at a free name. -/
theorem grows_putDirectory (ht : t.top.Linkless) {names : List Name}
    (hlocate : t.locate false path = .ok (.free names)) :
    t.Grows output { t with top := Node.put (.directory []) names t.top } ∧
      Tree.isDirectory { t with top := Node.put (.directory []) names t.top } path = true := by
  obtain ⟨-, hdescends⟩ := (locate_eq_ok_iff ht).mp hlocate
  obtain ⟨above, name, entries, rfl, hat, hnone⟩ := hdescends.exists_directory
  have hgrows : t.Grows output { t with top := Node.put (.directory []) (above ++ [name]) t.top } := by
    refine .put hat ?_
    rw [Node.at?_concat_of_directory hat, hnone]
    exact .fresh (.directory name (List.forall_mem_nil _))
  have hput : (Node.put (.directory []) (above ++ [name]) t.top).at? (above ++ [name]) =
      some (.directory []) := at?_put hat name
  exact ⟨hgrows, isDirectory_iff.mpr
    ⟨_, _, hgrows.locate_free ht hlocate hput (.inl rfl) true, hput⟩⟩

theorem isDirectory_of_makeDirectory (ht : t.top.Linkless)
    (h : t.after (makeDirectory path) = (.ok (), u)) : u.isDirectory path = true := by
  rw [makeDirectory, after_create] at h
  split at h
  · cases h
  · cases h
  · next names hlocate =>
    cases h
    have hmade : t.Grows [] { t with top := Node.put (.directory []) names t.top } ∧ _ :=
      grows_putDirectory ht hlocate
    exact hmade.2

theorem preserves_grows_makeDirectories (ht : t.top.Linkless) (n : Nat) (path : List UInt8) :
    Preserves (t.Grows output) (makeDirectories n path) :=
  preserves_makeDirectories (fun _ _ _ hgrows hlocate =>
    hgrows.trans (grows_putDirectory (hgrows.linkless ht) hlocate).1) n path

/-- Once all directories above a path have been made, it leads to one. -/
theorem isDirectory_of_makeDirectories {entries : List (Name × Node)}
    (htop : t.top = .directory entries) (ht : t.top.Linkless) {n : Nat}
    (h : t.after (makeDirectories n path) = (.ok (), u)) : path = [] ∨ u.isDirectory path = true := by
  have hensured {w : Tree} (hw : w.top.Linkless)
      (h : w.after (ensureDirectory path) = (.ok (), u)) : u.isDirectory path = true :=
    (exists_of_after_ensureDirectory h).elim (isDirectory_of_makeDirectory hw) id
  cases n with
  | zero => exact .inr (hensured ht h)
  | succ n =>
    unfold makeDirectories at h
    cases hempty : path.isEmpty with
    | true => exact .inl (List.isEmpty_iff.mp hempty)
    | false =>
      rw [hempty] at h
      refine .inr ?_
      obtain hmade | ⟨failure, w, hfailed, hhandled⟩ := exists_of_after_tryCatch h
      · exact isDirectory_of_makeDirectory ht hmade
      · obtain rfl := eq_of_after_create_error hfailed
        by_cases hfailure : failure = .notFound
        · rw [if_pos hfailure] at hhandled
          cases hparent : Path.parent? path with
          | none =>
            rw [hparent] at hhandled
            obtain ⟨_, _, hthrown, -⟩ := exists_of_after_bind hhandled
            cases hthrown
          | some parent =>
            rw [hparent] at hhandled
            obtain ⟨_, w', habove, hmade⟩ := exists_of_after_bind hhandled
            have hgrows : t.Grows [] (t.after (makeDirectories n parent)).2 :=
              preserves_grows_makeDirectories ht n parent t (.refl htop)
            rw [habove] at hgrows
            exact hensured (hgrows.linkless ht) hmade
        · rw [if_neg hfailure, after_unless_isDirectory] at hhandled
          split at hhandled
          · next hdirectory =>
            cases hhandled
            exact hdirectory
          · cases hhandled

/-- Where a path leads to a directory, nothing is left to be made. -/
theorem makeAll_of_isDirectory (ht : t.top.Linkless)
    (hpath : path = [] ∨ t.isDirectory path = true) : t.after (makeAll path) = (.ok (), t) := by
  obtain rfl | hpath := hpath
  · rfl
  · obtain ⟨names, entries, hlocate, hat⟩ := isDirectory_iff.mp hpath
    have hthere : t.locate false path = .ok (.taken names) :=
      (locate_eq_ok_iff ht).mpr ((locate_eq_ok_iff ht).mp hlocate)
    have hmade : t.after (makeDirectory path) = (.error .alreadyExists, t) := by
      rw [makeDirectory, after_create, hthere]
    have hempty : path.isEmpty = false := by
      cases path with
      | nil => cases hlocate
      | cons c rest => rfl
    unfold makeAll makeDirectories
    rw [hempty]
    show t.after (tryCatch (makeDirectory path) _) = _
    rw [after_tryCatch, hmade]
    show t.after (ite _ _ _) = _
    rw [if_neg (by decide), after_unless_isDirectory, if_pos hpath]

end Directories

/-! ### Writing a file -/

section Writing

variable {t u : Tree} {path : List UInt8} {content : List UInt8} {steps : List Name}

/-- Where a file can be written, it is put at the end of its path. -/
theorem exists_names_of_write (ht : t.top.Linkless)
    (hpath : Text.split Path.slash path = steps ++ [output]) (houtput : IsProper output)
    (h : t.after (write path content) = (.ok (), u)) :
    ∃ above, t.Grows output u ∧ u.locate true path = .ok (.taken (above ++ [output])) ∧
      u.top.at? (above ++ [output]) = some (.file content) := by
  rw [after_write] at h
  split at h
  · split at h <;> cases h
  split at h
  · cases h
  · next names hlocate =>
    obtain ⟨-, hdescends⟩ := (locate_eq_ok_iff ht).mp hlocate
    obtain ⟨above, name, entries, rfl, hat, hnone⟩ := hdescends.exists_directory
    rw [hpath] at hdescends
    obtain ⟨_, hnames⟩ := hdescends.exists_names houtput
    obtain ⟨-, hname⟩ := List.append_inj' hnames rfl
    obtain rfl := List.singleton_inj.mp hname
    split at h
    swap
    · cases h
    cases h
    have hput : (Node.put (.file content) (above ++ [name]) t.top).at? (above ++ [name]) =
        some (.file content) := at?_put hat name
    have hgrows : t.Grows name
        { t with top := Node.put (.file content) (above ++ [name]) t.top } := by
      refine .put hat ?_
      rw [Node.at?_concat_of_directory hat, hnone]
      exact .fresh (.file content)
    refine ⟨above, hgrows, hgrows.locate_free ht hlocate hput (.inr ?_) true, hput⟩
    rw [hpath, List.getLast?_concat]
    exact fun heq => houtput.ne_nil (Option.some.inj heq)
  · next names hlocate =>
    split at h
    · next old hold =>
      obtain ⟨-, hdescends⟩ := (locate_eq_ok_iff ht).mp hlocate
      rw [hpath] at hdescends
      obtain ⟨above, hnames⟩ := hdescends.exists_names houtput
      obtain rfl : names = above ++ [output] := hnames
      cases h
      obtain ⟨entries, hat⟩ := Node.exists_directory_of_at?_concat hold
      have hgrows : t.Grows output
          { t with top := Node.put (.file content) (above ++ [output]) t.top } := by
        refine .put hat ?_
        rw [hold]
        exact .turned (.written rfl old content)
      exact ⟨above, hgrows, hgrows.locate_taken ht hlocate true, at?_put hat output⟩
    · cases h

/-- A file that has been written under the one name is there, the tree has grown by nothing else, and
    writing it again changes nothing. -/
theorem write_spec (ht : t.top.Linkless) (hpath : Text.split Path.slash path = steps ++ [output])
    (houtput : IsProper output) (h : t.after (write path content) = (.ok (), u)) :
    t.Grows output u ∧ u.read path = .ok content ∧
      u.after (write path content) = (.ok (), u) := by
  obtain ⟨above, hgrows, hlocate, hat⟩ := exists_names_of_write ht hpath houtput h
  refine ⟨hgrows, read_eq_ok_iff.mpr (find_eq_ok_iff.mpr ⟨_, names_eq_ok_iff.mpr hlocate, hat⟩), ?_⟩
  have hends : ¬ (path.getLast? == some Path.slash) = true := by
    intro hslash
    rw [after_write, if_pos hslash] at h
    split at h <;> cases h
  rw [after_write, if_neg hends, hlocate]
  simp only [hat, put_eq_self hat]

end Writing

end Change
end SourceSurvey.Files
