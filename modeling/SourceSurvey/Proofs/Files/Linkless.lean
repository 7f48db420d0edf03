import SourceSurvey.Proofs.Files.Alike
import SourceSurvey.Proofs.Files.WellFormed

/-!
Trees without links. In them a path is descended step by step, so that the way along some names
leads to what stands at these names, unless it is too long.
-/

namespace SourceSurvey.Files

/-- A name that stands for itself in a path. -/
structure IsProper (name : Name) : Prop extends IsName name where
  ne_here : name ≠ [Path.dot]
  ne_above : name ≠ [Path.dot, Path.dot]

instance (name : Name) : Decidable (IsProper name) :=
  decidable_of_iff (IsName name ∧ name ≠ [Path.dot] ∧ name ≠ [Path.dot, Path.dot])
    ⟨fun h => ⟨h.1, h.2.1, h.2.2⟩, fun h => ⟨h.1, h.2, h.3⟩⟩

namespace Node

/-- Files and directories alone: in every directory at or below a node the names are distinct and
    stand for themselves. -/
inductive Plain : Node → Prop
  | file (content : List UInt8) : Plain (.file content)
  | directory {entries : List (Name × Node)} (distinct : (entries.map Prod.fst).Nodup)
      (named : ∀ entry ∈ entries, IsProper entry.1) (inner : ∀ entry ∈ entries, Plain entry.2) :
      Plain (.directory entries)

theorem Plain.wellFormed {node : Node} (h : node.Plain) : node.WellFormed := by
  induction h with
  | file content => exact .file content
  | directory distinct named inner ih =>
    exact .directory distinct (fun entry hentry => (named entry hentry).toIsName) ih

/-- What names lead to in a plain node is plain, and so are the names. -/
theorem Plain.at? {node found : Node} (hnode : node.Plain) {names : List Name}
    (hfound : node.at? names = some found) : found.Plain ∧ ∀ name ∈ names, IsProper name := by
  refine at?_inherits (fun entries hentries entry hentry => ?_) hnode hfound
  cases hentries with
  | directory _ named inner => exact ⟨named entry hentry, inner entry hentry⟩

/-- No names lead to a link. -/
def Linkless (node : Node) : Prop := ∀ names target, node.at? names ≠ some (.link target)

theorem Plain.linkless {node : Node} (h : node.Plain) : node.Linkless := fun names target hat => by
  obtain ⟨hlink, -⟩ := h.at? hat
  cases hlink

theorem at?_cons (entries : List (Name × Node)) (name : Name) (rest : List Name) :
    (directory entries).at? (name :: rest) =
      (entries.lookup name).bind fun child => child.at? rest := rfl

theorem at?_singleton (entries : List (Name × Node)) (name : Name) :
    (directory entries).at? [name] = entries.lookup name := Option.bind_fun_some _

theorem at?_file (content : List UInt8) (above : List Name) (name : Name) :
    (file content).at? (above ++ [name]) = none := by
  cases above <;> rfl

theorem at?_nil (above : List Name) (name : Name) :
    (directory []).at? (above ++ [name]) = none := by
  cases above <;> rfl

/-- Only directories have something below them. -/
theorem at?_append_cons {node : Node} {above : List Name} {name : Name} {rest : List Name} :
    node.at? (above ++ name :: rest) =
      match node.at? above with
      | some (.directory entries) => (entries.lookup name).bind fun child => child.at? rest
      | _ => none := by
  rw [at?_append]
  cases node.at? above with
  | none => rfl
  | some found => cases found <;> rfl

/-- Only from a directory do names lead to one. -/
theorem exists_directory_of_at? {node : Node} {names : List Name} {inner : List (Name × Node)}
    (h : node.at? names = some (.directory inner)) : ∃ entries, node = .directory entries := by
  cases names with
  | nil => exact ⟨inner, Option.some.inj h⟩
  | cons name rest =>
    cases node with
    | directory entries => exact ⟨entries, rfl⟩
    | file content => cases h
    | link target => cases h

theorem exists_directory_of_at?_concat {node found : Node} {above : List Name} {name : Name}
    (h : node.at? (above ++ [name]) = some found) :
    ∃ entries, node.at? above = some (.directory entries) := by
  rw [at?_append_cons] at h
  split at h
  · next entries hat => exact ⟨entries, hat⟩
  · cases h

theorem at?_concat_of_directory {node : Node} {above : List Name} {entries : List (Name × Node)}
    (h : node.at? above = some (.directory entries)) (name : Name) :
    node.at? (above ++ [name]) = entries.lookup name := by
  rw [at?_append_cons, h]
  exact Option.bind_fun_some _

end Node

namespace Tree

/-! ### Going down a path -/

/-- Where some steps lead from a directory if there are no links. The names so far are in
    reverse. -/
def descend (top : Node) (here : List Name) : List Name → Except Failure Spot
  | [] => .ok (.taken here.reverse)
  | step :: rest =>
    match top.at? here.reverse with
    | some (.directory entries) =>
      if step = [] ∨ step = [Path.dot] then descend top here rest
      else if step = [Path.dot, Path.dot] then descend top (here.drop 1) rest
      else if nameLimit < step.length then .error .nameTooLong
      else
        match entries.lookup step with
        | none =>
          if rest.all (·.isEmpty) then .ok (.free (step :: here).reverse) else .error .notFound
        | some _ => descend top (step :: here) rest
    | _ => .error .notDirectory

theorem follow_eq_descend {top : Node} (htop : top.Linkless) (followLast : Bool) (links : Nat)
    (here steps : List Name) : follow top followLast links here steps = descend top here steps := by
  induction steps generalizing here with
  | nil => rw [follow, descend]
  | cons step rest ih =>
    rw [follow, descend]
    cases hat : top.at? here.reverse with
    | none => rfl
    | some node =>
      cases node with
      | file content => rfl
      | link target => rfl
      | directory entries =>
        simp only [ih]
        cases hstep : entries.lookup step with
        | none => rfl
        | some child =>
          cases child with
          | file content => rfl
          | directory inner => rfl
          | link target =>
            refine absurd ?_ (htop (here.reverse ++ [step]) target)
            rw [Node.at?_concat_of_directory hat, hstep]

/-- The directory in which a path begins, with its names in reverse. -/
def origin (t : Tree) (path : List UInt8) : List Name :=
  if Path.isAbsolute path then [] else t.working.reverse

/-- What is wrong with a path in any tree. -/
def refusal? (path : List UInt8) : Option Failure :=
  if path.contains 0 then some .zeroInPath
  else if path.isEmpty then some .notFound
  else if pathLimit < path.length then some .nameTooLong
  else none

theorem locate_eq_descend {t : Tree} (ht : t.top.Linkless) (followLast : Bool) (path : List UInt8) :
    t.locate followLast path = match refusal? path with
      | some failure => .error failure
      | none => descend t.top (t.origin path) (Text.split Path.slash path) := by
  unfold locate refusal?
  simp only [follow_eq_descend ht]
  split
  · rfl
  split
  · rfl
  split
  · rfl
  · rfl

/-- Steps are gone one after the other. -/
theorem descend_append (top : Node) (here first second : List Name) :
    descend top here (first ++ second) = match descend top here first with
      | .ok (.taken names) => descend top names.reverse second
      | .ok (.free names) =>
        if second.all (·.isEmpty) then .ok (.free names) else .error .notFound
      | .error failure => .error failure := by
  induction first generalizing here with
  | nil => simp only [List.nil_append, descend, List.reverse_reverse]
  | cons step rest ih =>
    rw [List.cons_append, descend, descend]
    cases top.at? here.reverse with
    | none => rfl
    | some node =>
      cases node with
      | file content => rfl
      | link target => rfl
      | directory entries =>
        simp only
        split
        · exact ih here
        split
        · exact ih (here.drop 1)
        split
        · rfl
        cases entries.lookup step with
        | some child => exact ih (step :: here)
        | none =>
          simp only [List.all_append]
          cases rest.all (·.isEmpty) with
          | false => rfl
          | true => rfl

/-- A step to what a name stands for: not one that stays or goes up, and not too long. -/
structure IsStep (step : Name) : Prop where
  moves : ¬ (step = [] ∨ step = [Path.dot])
  inside : step ≠ [Path.dot, Path.dot]
  fits : ¬ nameLimit < step.length

/-- The steps of a descent that is not refused. -/
inductive Descends (top : Node) : List Name → List Name → Spot → Prop
  | done (here : List Name) : Descends top here [] (.taken here.reverse)
  | stay {here rest : List Name} {step : Name} {spot : Spot} {entries : List (Name × Node)}
      (hat : top.at? here.reverse = some (.directory entries)) (hstep : step = [] ∨ step = [Path.dot])
      (next : Descends top here rest spot) : Descends top here (step :: rest) spot
  | up {here rest : List Name} {spot : Spot} {entries : List (Name × Node)}
      (hat : top.at? here.reverse = some (.directory entries))
      (next : Descends top (here.drop 1) rest spot) : Descends top here ([Path.dot, Path.dot] :: rest) spot
  | into {here rest : List Name} {step : Name} {spot : Spot} {entries : List (Name × Node)}
      {child : Node} (hat : top.at? here.reverse = some (.directory entries)) (hstep : IsStep step)
      (hchild : entries.lookup step = some child) (next : Descends top (step :: here) rest spot) :
      Descends top here (step :: rest) spot
  | free {here rest : List Name} {step : Name} {entries : List (Name × Node)}
      (hat : top.at? here.reverse = some (.directory entries)) (hstep : IsStep step)
      (hnone : entries.lookup step = none) (hends : rest.all (·.isEmpty) = true) :
      Descends top here (step :: rest) (.free (step :: here).reverse)

theorem descend_eq_ok_iff {top : Node} {here steps : List Name} {spot : Spot} :
    descend top here steps = .ok spot ↔ Descends top here steps spot := by
  constructor
  · intro h
    induction steps generalizing here with
    | nil =>
      cases h
      exact .done here
    | cons step rest ih =>
      rw [descend] at h
      split at h
      · next entries hat =>
        split at h
        · next hstay => exact .stay hat hstay (ih h)
        next hmoves =>
        split at h
        · next habove => exact habove ▸ .up hat (ih h)
        next hinside =>
        split at h
        · cases h
        next hfits =>
        have hstep : IsStep step := ⟨hmoves, hinside, hfits⟩
        cases hlookup : entries.lookup step with
        | some child =>
          rw [hlookup] at h
          exact .into hat hstep hlookup (ih h)
        | none =>
          rw [hlookup] at h
          dsimp only at h
          split at h
          · next hends =>
            cases h
            exact .free hat hstep hlookup hends
          · cases h
      · cases h
  · intro h
    induction h with
    | done here => rfl
    | stay hat hstep _ ih => rw [descend, hat]; simp only; rw [if_pos hstep, ih]
    | up hat _ ih => rw [descend, hat]; exact ih
    | into hat hstep hchild _ ih =>
      rw [descend, hat]
      simp only
      rw [if_neg hstep.moves, if_neg hstep.inside, if_neg hstep.fits, hchild]
      exact ih
    | free hat hstep hnone hends =>
      rw [descend, hat]
      simp only
      rw [if_neg hstep.moves, if_neg hstep.inside, if_neg hstep.fits, hnone]
      exact if_pos hends

/-- The way along names that lead to something is taken to the end, unless a name is too long. -/
theorem descend_of_at? {top : Node} {here names : List Name} {node : Node}
    (hnames : ∀ name ∈ names, IsProper name) (hat : top.at? (here.reverse ++ names) = some node) :
    descend top here names =
      if names.any (nameLimit < ·.length) then .error .nameTooLong
      else .ok (.taken (here.reverse ++ names)) := by
  induction names generalizing here with
  | nil => rw [descend, List.append_nil]; rfl
  | cons name rest ih =>
    obtain ⟨hname, hrest⟩ := List.forall_mem_cons.mp hnames
    have hstep := hat
    rw [Node.at?_append_cons] at hstep
    split at hstep
    · next entries hdirectory =>
      obtain ⟨child, hchild, -⟩ := Option.bind_eq_some_iff.mp hstep
      have hnext : (name :: here).reverse ++ rest = here.reverse ++ name :: rest := by simp
      rw [descend, hdirectory, List.any_cons]
      simp only [hname.ne_nil, hname.ne_here, hname.ne_above, or_self, if_false, hchild]
      by_cases hlong : nameLimit < name.length
      · simp only [hlong, if_true, decide_true, Bool.true_or]
      · rw [if_neg hlong, decide_eq_false hlong, Bool.false_or,
          ih hrest (by rw [hnext]; exact hat), hnext]
    · cases hstep

/-- The way along proper names goes along them. -/
theorem Descends.eq_append {top : Node} {here names found : List Name}
    (h : Descends top here names (.taken found)) (hnames : ∀ name ∈ names, IsProper name) :
    found = here.reverse ++ names := by
  generalize hspot : Spot.taken found = spot at h
  induction h with
  | done here =>
    cases hspot
    rw [List.append_nil]
  | stay _ hstep _ _ =>
    obtain ⟨hname, -⟩ := List.forall_mem_cons.mp hnames
    exact absurd hstep (not_or.mpr ⟨hname.ne_nil, hname.ne_here⟩)
  | up _ _ _ =>
    obtain ⟨hname, -⟩ := List.forall_mem_cons.mp hnames
    exact absurd rfl hname.ne_above
  | into _ _ _ _ ih =>
    rw [ih (List.forall_mem_cons.mp hnames).2 hspot]
    simp
  | free _ _ _ _ => cases hspot

/-- A free name is one in a directory. -/
theorem Descends.exists_directory {top : Node} {here steps names : List Name}
    (h : Descends top here steps (.free names)) :
    ∃ above name entries, names = above ++ [name] ∧ top.at? above = some (.directory entries) ∧
      entries.lookup name = none := by
  generalize hspot : Spot.free names = spot at h
  induction h with
  | done _ => cases hspot
  | stay _ _ _ ih => exact ih hspot
  | up _ _ ih => exact ih hspot
  | into _ _ _ _ ih => exact ih hspot
  | @free here _ step entries hat _ hnone _ =>
    cases hspot
    exact ⟨here.reverse, step, entries, List.reverse_cons, hat, hnone⟩

/-- A path that ends in a proper name leads to that name. -/
theorem Descends.exists_names {top : Node} {here steps : List Name} {last : Name}
    (hlast : IsProper last) {spot : Spot} (h : Descends top here (steps ++ [last]) spot) :
    ∃ above, spot.names = above ++ [last] := by
  induction steps generalizing here with
  | nil =>
    cases h with
    | stay _ hstep _ => exact absurd hstep (not_or.mpr ⟨hlast.ne_nil, hlast.ne_here⟩)
    | up _ _ => exact absurd rfl hlast.ne_above
    | into _ _ _ next =>
      cases next
      exact ⟨here.reverse, List.reverse_cons⟩
    | free _ _ _ _ => exact ⟨here.reverse, List.reverse_cons⟩
  | cons step rest ih =>
    cases h with
    | stay _ _ next => exact ih next
    | up _ next => exact ih next
    | into _ _ _ next => exact ih next
    | free _ _ _ hends =>
      have hempty : last.isEmpty = true := List.all_eq_true.mp hends last (by simp)
      exact absurd (List.isEmpty_iff.mp hempty) hlast.ne_nil

end Tree
end SourceSurvey.Files
