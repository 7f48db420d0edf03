import SourceSurvey.Proofs.Files.Linkless

/-!
Paths in trees with links. What stands somewhere may be joined by other things and files may be
rewritten: as long as nothing goes and nothing turns into something of another kind, a path that
leads to something still leads there.
-/

namespace SourceSurvey.Files

namespace Node

/-- What of a node a path that meets it depends on: of which kind it is, and where a link leads. -/
def outline : Node → Node
  | file _ => file []
  | directory _ => directory []
  | link target => link target

/-- Where something stands in the first node, something of its kind stands in the second. -/
def Stays (n m : Node) : Prop :=
  ∀ names kind, (n.at? names).map outline = some kind → (m.at? names).map outline = some kind

theorem exists_of_outline_eq_directory {n : Node} {entries : List (Name × Node)}
    (h : n.outline = outline (.directory entries)) : ∃ others, n = .directory others := by
  cases n with
  | directory others => exact ⟨others, rfl⟩
  | file content => cases h
  | link target => cases h

theorem eq_of_outline_eq_link {n : Node} {target : List UInt8} (h : n.outline = .link target) :
    n = .link target := by
  cases n with
  | directory entries => cases h
  | file content => cases h
  | link other => cases h; rfl

theorem Stays.exists_at? {n m node : Node} {names : List Name} (h : n.Stays m)
    (hat : n.at? names = some node) : ∃ node', m.at? names = some node' ∧ node'.outline = node.outline :=
  Option.map_eq_some_iff.mp (h names node.outline (by rw [hat, Option.map_some]))

/-- A directory stays one, and what is in it stays. -/
theorem Stays.directory {n m : Node} {names : List Name} {entries : List (Name × Node)}
    (h : n.Stays m) (hat : n.at? names = some (.directory entries)) :
    ∃ others, m.at? names = some (.directory others) ∧
      ∀ name child, entries.lookup name = some child →
        ∃ child', others.lookup name = some child' ∧ child'.outline = child.outline := by
  obtain ⟨found, hfound, houtline⟩ := h.exists_at? hat
  obtain ⟨others, rfl⟩ := exists_of_outline_eq_directory houtline
  refine ⟨others, hfound, fun name child hchild => ?_⟩
  rw [← at?_concat_of_directory hat name] at hchild
  obtain ⟨child', hchild', hkind⟩ := h.exists_at? hchild
  exact ⟨child', by rw [← hchild', at?_concat_of_directory hfound], hkind⟩

end Node

namespace Tree

/-- The steps of a way through a tree that is not refused, with links. -/
inductive Follows (top : Node) (followLast : Bool) : Nat → List Name → List Name → Spot → Prop
  | done (links : Nat) (here : List Name) :
      Follows top followLast links here [] (.taken here.reverse)
  | stay {links : Nat} {here rest : List Name} {step : Name} {spot : Spot}
      {entries : List (Name × Node)} (hat : top.at? here.reverse = some (.directory entries))
      (hstep : step = [] ∨ step = [Path.dot]) (next : Follows top followLast links here rest spot) :
      Follows top followLast links here (step :: rest) spot
  | up {links : Nat} {here rest : List Name} {spot : Spot} {entries : List (Name × Node)}
      (hat : top.at? here.reverse = some (.directory entries))
      (next : Follows top followLast links (here.drop 1) rest spot) :
      Follows top followLast links here ([Path.dot, Path.dot] :: rest) spot
  | into {links : Nat} {here rest : List Name} {step : Name} {spot : Spot}
      {entries : List (Name × Node)} {child : Node}
      (hat : top.at? here.reverse = some (.directory entries)) (hstep : IsStep step)
      (hchild : entries.lookup step = some child) (hkind : ∀ target, child ≠ .link target)
      (next : Follows top followLast links (step :: here) rest spot) :
      Follows top followLast links here (step :: rest) spot
  | linked {links : Nat} {here rest : List Name} {step : Name} {spot : Spot}
      {entries : List (Name × Node)} {target : List UInt8}
      (hat : top.at? here.reverse = some (.directory entries)) (hstep : IsStep step)
      (hchild : entries.lookup step = some (.link target))
      (hlast : (rest.isEmpty && !followLast) = false)
      (next : Follows top followLast links (if Path.isAbsolute target then [] else here)
        (Text.split Path.slash target ++ rest) spot) :
      Follows top followLast (links + 1) here (step :: rest) spot
  | last {links : Nat} {here rest : List Name} {step : Name} {entries : List (Name × Node)}
      {target : List UInt8} (hat : top.at? here.reverse = some (.directory entries))
      (hstep : IsStep step) (hchild : entries.lookup step = some (.link target))
      (hlast : (rest.isEmpty && !followLast) = true) :
      Follows top followLast links here (step :: rest) (.taken (step :: here).reverse)
  | free {links : Nat} {here rest : List Name} {step : Name} {entries : List (Name × Node)}
      (hat : top.at? here.reverse = some (.directory entries)) (hstep : IsStep step)
      (hnone : entries.lookup step = none) (hends : rest.all (·.isEmpty) = true) :
      Follows top followLast links here (step :: rest) (.free (step :: here).reverse)

theorem follows_of_follow {top : Node} {followLast : Bool} {links : Nat} {here steps : List Name}
    {spot : Spot} (h : follow top followLast links here steps = .ok spot) :
    Follows top followLast links here steps spot := by
  cases steps with
  | nil =>
    rw [follow, Except.ok.injEq] at h
    exact h ▸ .done links here
  | cons step rest =>
    rw [follow] at h
    split at h
    next entries hat =>
      split at h
      next hstay => exact .stay hat hstay (follows_of_follow h)
      next hmoves =>
      split at h
      next habove => exact habove ▸ .up hat (follows_of_follow h)
      next hinside =>
      split at h
      next => cases h
      next hfits =>
      have hstep : IsStep step := ⟨hmoves, hinside, hfits⟩
      split at h
      next hnone =>
        split at h
        next hends => exact Except.ok.inj h ▸ .free hat hstep hnone hends
        next => cases h
      next target hchild =>
        split at h
        next hlast => exact Except.ok.inj h ▸ .last hat hstep hchild hlast
        next hlast =>
          split at h
          next => cases h
          next links =>
            exact .linked hat hstep hchild (Bool.eq_false_iff.mpr hlast) (follows_of_follow h)
      next child hkind hchild => exact .into hat hstep hchild hkind (follows_of_follow h)
    next => cases h
termination_by (links, steps.length)

theorem follow_eq_ok_iff {top : Node} {followLast : Bool} {links : Nat} {here steps : List Name}
    {spot : Spot} : follow top followLast links here steps = .ok spot ↔
      Follows top followLast links here steps spot := by
  refine ⟨follows_of_follow, fun h => ?_⟩
  induction h with
  | done links here => rw [follow]
  | stay hat hstep _ ih =>
    rw [follow, hat]
    exact (if_pos hstep).trans ih
  | up hat _ ih =>
    rw [follow, hat]
    exact ih
  | into hat hstep hchild hkind _ ih =>
    rw [follow, hat]
    simp only
    rw [if_neg hstep.moves, if_neg hstep.inside, if_neg hstep.fits, hchild, ← ih]
    split
    · next heq => cases heq
    · next heq => exact absurd (Option.some.inj heq) (hkind _)
    · rfl
  | linked hat hstep hchild hlast _ ih =>
    rw [follow, hat]
    simp only
    rw [if_neg hstep.moves, if_neg hstep.inside, if_neg hstep.fits, hchild]
    simp only
    rw [if_neg (Bool.eq_false_iff.mp hlast)]
    exact ih
  | last hat hstep hchild hlast =>
    rw [follow, hat]
    simp only
    rw [if_neg hstep.moves, if_neg hstep.inside, if_neg hstep.fits, hchild]
    exact if_pos hlast
  | free hat hstep hnone hends =>
    rw [follow, hat]
    simp only
    rw [if_neg hstep.moves, if_neg hstep.inside, if_neg hstep.fits, hnone]
    exact if_pos hends

section Follows

variable {n m top : Node} {followLast : Bool} {links : Nat} {here steps names : List Name}

/-- A free name is one in a directory. -/
theorem Follows.exists_directory (h : Follows top followLast links here steps (.free names)) :
    ∃ above name entries, names = above ++ [name] ∧ top.at? above = some (.directory entries) ∧
      entries.lookup name = none := by
  generalize hspot : Spot.free names = spot at h
  induction h with
  | done _ _ => cases hspot
  | stay _ _ _ ih => exact ih hspot
  | up _ _ ih => exact ih hspot
  | into _ _ _ _ _ ih => exact ih hspot
  | linked _ _ _ _ _ ih => exact ih hspot
  | last _ _ _ _ => cases hspot
  | @free _ here _ step entries hat _ hnone _ =>
    cases hspot
    exact ⟨here.reverse, step, entries, List.reverse_cons, hat, hnone⟩

/-- Every way begins in a directory. -/
theorem Follows.exists_at? {spot : Spot} (h : Follows top followLast links here steps spot)
    (hsteps : steps ≠ []) : ∃ entries, top.at? here.reverse = some (.directory entries) := by
  cases h with
  | done _ _ => exact absurd rfl hsteps
  | stay hat _ _ => exact ⟨_, hat⟩
  | up hat _ => exact ⟨_, hat⟩
  | into hat _ _ _ _ => exact ⟨_, hat⟩
  | linked hat _ _ _ _ => exact ⟨_, hat⟩
  | last hat _ _ _ => exact ⟨_, hat⟩
  | free hat _ _ _ => exact ⟨_, hat⟩

/-- A way to something leads there still. -/
theorem Follows.of_stays (hstays : n.Stays m) (h : Follows n followLast links here steps (.taken names)) :
    Follows m followLast links here steps (.taken names) := by
  generalize hspot : Spot.taken names = spot at h
  induction h with
  | done links here => exact .done links here
  | stay hat hstep _ ih =>
    obtain ⟨others, hat', -⟩ := hstays.directory hat
    exact .stay hat' hstep (ih hspot)
  | up hat _ ih =>
    obtain ⟨others, hat', -⟩ := hstays.directory hat
    exact .up hat' (ih hspot)
  | into hat hstep hchild hkind _ ih =>
    obtain ⟨others, hat', hlookup⟩ := hstays.directory hat
    obtain ⟨child', hchild', houtline⟩ := hlookup _ _ hchild
    refine .into hat' hstep hchild' (fun target hlink => ?_) (ih hspot)
    subst hlink
    exact hkind target (Node.eq_of_outline_eq_link houtline.symm)
  | linked hat hstep hchild hlast _ ih =>
    obtain ⟨others, hat', hlookup⟩ := hstays.directory hat
    obtain ⟨child', hchild', houtline⟩ := hlookup _ _ hchild
    obtain rfl := Node.eq_of_outline_eq_link houtline
    exact .linked hat' hstep hchild' hlast (ih hspot)
  | last hat hstep hchild hlast =>
    obtain ⟨others, hat', hlookup⟩ := hstays.directory hat
    obtain ⟨child', hchild', houtline⟩ := hlookup _ _ hchild
    obtain rfl := Node.eq_of_outline_eq_link houtline
    exact .last hat' hstep hchild' hlast
  | free _ _ _ _ => cases hspot

/-- Slashes behind a directory lead nowhere else. -/
theorem Follows.of_all_isEmpty {inner : List (Name × Node)} (links : Nat)
    (hat : top.at? here.reverse = some (.directory inner)) (h : steps.all (·.isEmpty) = true) :
    Follows top followLast links here steps (.taken here.reverse) := by
  induction steps with
  | nil => exact .done links here
  | cons step rest ih =>
    obtain ⟨hstep, hrest⟩ := Bool.and_eq_true_iff.mp h
    exact .stay hat (.inl (List.isEmpty_iff.mp hstep)) (ih hrest)

/-- A way to a free name leads to the directory that is made there. -/
theorem Follows.of_free {inner : List (Name × Node)} (hstays : n.Stays m)
    (hmade : m.at? names = some (.directory inner))
    (h : Follows n followLast links here steps (.free names)) :
    Follows m true links here steps (.taken names) := by
  generalize hspot : Spot.free names = spot at h
  induction h with
  | done _ _ => cases hspot
  | stay hat hstep _ ih =>
    obtain ⟨others, hat', -⟩ := hstays.directory hat
    exact .stay hat' hstep (ih hspot)
  | up hat _ ih =>
    obtain ⟨others, hat', -⟩ := hstays.directory hat
    exact .up hat' (ih hspot)
  | into hat hstep hchild hkind _ ih =>
    obtain ⟨others, hat', hlookup⟩ := hstays.directory hat
    obtain ⟨child', hchild', houtline⟩ := hlookup _ _ hchild
    refine .into hat' hstep hchild' (fun target hlink => ?_) (ih hspot)
    subst hlink
    exact hkind target (Node.eq_of_outline_eq_link houtline.symm)
  | linked hat hstep hchild _ _ ih =>
    obtain ⟨others, hat', hlookup⟩ := hstays.directory hat
    obtain ⟨child', hchild', houtline⟩ := hlookup _ _ hchild
    obtain rfl := Node.eq_of_outline_eq_link houtline
    exact .linked hat' hstep hchild' (Bool.and_false _) (ih hspot)
  | last _ _ _ _ => cases hspot
  | @free links here rest step entries hat hstep _ hends =>
    cases hspot
    obtain ⟨others, hat', -⟩ := hstays.directory hat
    have hchild : others.lookup step = some (.directory inner) := by
      rw [← Node.at?_concat_of_directory hat', ← List.reverse_cons]
      exact hmade
    exact .into hat' hstep hchild nofun (.of_all_isEmpty links hmade hends)

end Follows

/-! ### Paths -/

variable {t u : Tree} {path : List UInt8}

theorem locate_eq_ok_iff_follows {followLast : Bool} {spot : Spot} : t.locate followLast path = .ok spot ↔
    refusal? path = none ∧
      Follows t.top followLast linkLimit (t.origin path) (Text.split Path.slash path) spot := by
  rw [← follow_eq_ok_iff]
  unfold locate refusal? origin
  split
  · simp
  split
  · simp
  split
  · simp
  · simp

/-- Paths can only be followed from a directory on. -/
theorem exists_top_eq_directory {followLast : Bool} {spot : Spot}
    (h : t.locate followLast path = .ok spot) : ∃ entries, t.top = .directory entries := by
  obtain ⟨entries, hat⟩ := (locate_eq_ok_iff_follows.mp h).2.exists_at? (Text.split_ne_nil _ _)
  exact Node.exists_directory_of_at? hat

theorem origin_eq_of_working (h : t.working = u.working) (path : List UInt8) :
    t.origin path = u.origin path := by
  rw [origin, origin, h]

/-- A path that leads to something still leads there. -/
theorem names_of_stays {names : List Name} (hworking : t.working = u.working)
    (hstays : t.top.Stays u.top) (h : t.names path = .ok names) : u.names path = .ok names := by
  rw [names_eq_ok_iff, locate_eq_ok_iff_follows] at h ⊢
  rw [← origin_eq_of_working hworking]
  exact ⟨h.1, h.2.of_stays hstays⟩

/-- A path that leads to a free name leads to the directory that is made there. -/
theorem names_of_free {followLast : Bool} {names : List Name} {inner : List (Name × Node)}
    (hworking : t.working = u.working) (hstays : t.top.Stays u.top)
    (hmade : u.top.at? names = some (.directory inner))
    (h : t.locate followLast path = .ok (.free names)) : u.names path = .ok names := by
  rw [names_eq_ok_iff, locate_eq_ok_iff_follows]
  rw [locate_eq_ok_iff_follows] at h
  rw [← origin_eq_of_working hworking]
  exact ⟨h.1, h.2.of_free hstays hmade⟩

end Tree

end SourceSurvey.Files
