import SourceSurvey.Files.Change

/-!
What changes of a tree do. A property of trees that survives every single node that is put somewhere
survives whole changes, also where they are refused half way.
-/

namespace SourceSurvey.Files.Change

theorem after_bind {α β : Type} (first : Change α) (second : α → Change β) (t : Tree) :
    t.after (first >>= second) = match t.after first with
      | (.ok a, t') => t'.after (second a)
      | (.error failure, t') => (.error failure, t') := by
  simp only [Tree.after, ExceptT.run_bind, StateT.run_bind]
  cases StateT.run (ExceptT.run first) t with
  | mk result t' => cases result <;> rfl

theorem after_tryCatch {α : Type} (change : Change α) (handler : Failure → Change α) (t : Tree) :
    t.after (tryCatch change handler) = match t.after change with
      | (.ok a, t') => (.ok a, t')
      | (.error failure, t') => t'.after (handler failure) := by
  simp only [Tree.after, ExceptT.run_tryCatch, StateT.run_bind]
  cases StateT.run (ExceptT.run change) t with
  | mk result t' => cases result <;> rfl

/-- A change in two parts succeeds if both do. -/
theorem exists_of_after_bind {α β : Type} {first : Change α} {second : α → Change β} {t v : Tree}
    {b : β} (h : t.after (first >>= second) = (.ok b, v)) :
    ∃ a u, t.after first = (.ok a, u) ∧ u.after (second a) = (.ok b, v) := by
  rw [after_bind] at h
  split at h
  · next a u hfirst => exact ⟨a, u, hfirst, h⟩
  · cases h

/-- A change with a handler succeeds if it does, or is refused and the handler succeeds. -/
theorem exists_of_after_tryCatch {α : Type} {change : Change α} {handler : Failure → Change α}
    {t v : Tree} {a : α} (h : t.after (tryCatch change handler) = (.ok a, v)) :
    t.after change = (.ok a, v) ∨
      ∃ failure u, t.after change = (.error failure, u) ∧ u.after (handler failure) = (.ok a, v) := by
  rw [after_tryCatch] at h
  split at h
  · next hchange => exact .inl (hchange.trans h)
  · next failure u hchange => exact .inr ⟨failure, u, hchange, h⟩

theorem after_liftExcept {α : Type} (result : Except Failure α) (t : Tree) :
    t.after (liftM result : Change α) = (result, t) := by
  cases result <;> rfl

/-! ### Single changes -/

/-- A node is made where a path leads to a free name, and nowhere else. -/
theorem after_create (path : List UInt8) (node : Node) (t : Tree) :
    t.after (create path node) = match t.locate false path with
      | .error failure => (.error failure, t)
      | .ok (.taken _) => (.error .alreadyExists, t)
      | .ok (.free names) => (.ok (), { t with top := Node.put node names t.top }) := by
  refine (after_bind (liftM (t.locate false path)) _ t).trans ?_
  rw [after_liftExcept]
  cases t.locate false path with
  | error failure => rfl
  | ok spot => cases spot <;> rfl

/-- Where nothing can be made, nothing changes. -/
theorem eq_of_after_create_error {path : List UInt8} {node : Node} {failure : Failure} {t u : Tree}
    (h : t.after (create path node) = (.error failure, u)) : t = u := by
  rw [after_create] at h
  split at h
  · cases h
    rfl
  · cases h
    rfl
  · cases h

/-- A directory that is there is as good as one that is made. -/
theorem after_unless_isDirectory (path : List UInt8) (failure : Failure) (t : Tree) :
    t.after (do unless (← get).isDirectory path do throw failure : Change Unit) =
      if t.isDirectory path then (.ok (), t) else (.error failure, t) := by
  have hrun : t.after (do unless (← get).isDirectory path do throw failure : Change Unit) =
      t.after (if t.isDirectory path then pure () else throw failure : Change Unit) := rfl
  rw [hrun]
  split <;> rfl

/-- A directory that could be ensured was made or is there. -/
theorem exists_of_after_ensureDirectory {path : List UInt8} {t v : Tree}
    (h : t.after (ensureDirectory path) = (.ok (), v)) :
    t.after (makeDirectory path) = (.ok (), v) ∨ v.isDirectory path = true := by
  obtain hmade | ⟨failure, u, -, hthere⟩ := exists_of_after_tryCatch h
  · exact .inl hmade
  · rw [after_unless_isDirectory] at hthere
    split at hthere
    · next hdirectory =>
      cases hthere
      exact .inr hdirectory
    · cases hthere

/-- A file is written where a path leads to a file or to a free name that takes one, unless the path
    ends in a slash. -/
theorem after_write (path : List UInt8) (content : List UInt8) (t : Tree) :
    t.after (write path content) =
      if path.getLast? == some Path.slash then
        match t.find ((Path.parent? path).getD path) with
        | .error failure => (.error failure, t)
        | .ok _ => (.error .isDirectory, t)
      else
        match t.locate true path with
        | .error failure => (.error failure, t)
        | .ok (.free names) =>
          if takesFile t path names then
            (.ok (), { t with top := Node.put (.file content) names t.top })
          else (.error .isDirectory, t)
        | .ok (.taken names) =>
          match t.top.at? names with
          | some (.file _) => (.ok (), { t with top := Node.put (.file content) names t.top })
          | _ => (.error .isDirectory, t) := by
  unfold write
  show t.after (ite _ _ _) = _
  split
  · show t.after (liftM (t.find _) >>= _) = _
    rw [after_bind, after_liftExcept]
    cases t.find ((Path.parent? path).getD path) <;> rfl
  · show t.after (liftM (t.locate true path) >>= _) = _
    rw [after_bind, after_liftExcept]
    cases t.locate true path with
    | error failure => rfl
    | ok spot =>
      cases spot with
      | free names =>
        show t.after (ite _ _ _) = _
        dsimp only
        split <;> rfl
      | taken names =>
        cases hat : t.top.at? names with
        | none =>
          dsimp only
          rw [hat]
          rfl
        | some node =>
          dsimp only
          rw [hat]
          cases node <;> rfl

theorem takesFile_iff {path : List UInt8} {names : List Name} {t : Tree} :
    takesFile t path names = true ↔
      Tree.names { t with top := Node.put (.file []) names t.top } path = .ok names := by
  show ((Tree.names { t with top := Node.put (.file []) names t.top } path).toOption ==
    some names) = true ↔ _
  generalize Tree.names { t with top := Node.put (.file []) names t.top } path = answer
  cases answer <;> simp [Except.toOption]

/-! ### What survives changes -/

/-- A property that survives a change, even where it is refused. -/
def Preserves (P : Tree → Prop) {α : Type} (change : Change α) : Prop :=
  ∀ t : Tree, P t → P (t.after change).2

section Preserves

variable {P : Tree → Prop} {α β : Type}

theorem Preserves.bind {first : Change α} {second : α → Change β} (hfirst : Preserves P first)
    (hsecond : ∀ a, Preserves P (second a)) : Preserves P (first >>= second) := by
  intro t ht
  have hafter := hfirst t ht
  rw [after_bind]
  generalize t.after first = outcome at hafter
  obtain ⟨result, t'⟩ := outcome
  cases result with
  | ok a => exact hsecond a t' hafter
  | error failure => exact hafter

theorem Preserves.tryCatch {change : Change α} {handler : Failure → Change α}
    (hchange : Preserves P change) (hhandler : ∀ failure, Preserves P (handler failure)) :
    Preserves P (tryCatch change handler) := by
  intro t ht
  have hafter := hchange t ht
  rw [after_tryCatch]
  generalize t.after change = outcome at hafter
  obtain ⟨result, t'⟩ := outcome
  cases result with
  | ok a => exact hafter
  | error failure => exact hhandler failure t' hafter

theorem preserves_throw (failure : Failure) : Preserves P (throw failure : Change α) :=
  fun _ ht => ht

theorem preserves_unless_isDirectory (path : List UInt8) (failure : Failure) :
    Preserves P (do unless (← get).isDirectory path do throw failure : Change Unit) := by
  intro t ht
  rw [after_unless_isDirectory]
  split <;> exact ht

/-- A node that is put where a path leads to a free name. -/
theorem preserves_create {path : List UInt8} {node : Node}
    (hput : ∀ t names, P t → t.locate false path = .ok (.free names) →
      P { t with top := Node.put node names t.top }) : Preserves P (create path node) := by
  intro t ht
  rw [after_create]
  split
  · exact ht
  · exact ht
  · next names hnames => exact hput t names ht hnames

theorem preserves_ensureDirectory {path : List UInt8}
    (hput : ∀ t names, P t → t.locate false path = .ok (.free names) →
      P { t with top := Node.put (.directory []) names t.top }) :
    Preserves P (ensureDirectory path) :=
  (preserves_create hput).tryCatch fun failure => preserves_unless_isDirectory path failure

/-- Making directories makes them only at the path itself and at paths above it. -/
theorem preserves_makeDirectories_within {Q : List UInt8 → Prop}
    (hparent : ∀ path parent, Q path → Path.parent? path = some parent → Q parent)
    (hput : ∀ path t names, Q path → P t → t.locate false path = .ok (.free names) →
      P { t with top := Node.put (.directory []) names t.top }) (n : Nat) {path : List UInt8}
    (hpath : Q path) : Preserves P (makeDirectories n path) := by
  induction n generalizing path with
  | zero => exact preserves_ensureDirectory (hput path · · hpath)
  | succ n ih =>
    unfold makeDirectories
    cases path.isEmpty with
    | true => exact fun _ ht => ht
    | false =>
      refine (preserves_create (hput path · · hpath)).tryCatch fun failure => ?_
      by_cases hfailure : failure = .notFound
      · rw [if_pos hfailure]
        cases habove : Path.parent? path with
        | none =>
          exact (preserves_throw failure).bind fun _ =>
            preserves_ensureDirectory (hput path · · hpath)
        | some parent =>
          exact (ih (hparent path parent hpath habove)).bind fun _ =>
            preserves_ensureDirectory (hput path · · hpath)
      · rw [if_neg hfailure]
        exact preserves_unless_isDirectory path failure

theorem preserves_makeDirectories
    (hput : ∀ path t names, P t → t.locate false path = .ok (.free names) →
      P { t with top := Node.put (.directory []) names t.top }) (n : Nat) (path : List UInt8) :
    Preserves P (makeDirectories n path) :=
  preserves_makeDirectories_within (Q := fun _ => True) (fun _ _ _ _ => trivial)
    (fun path t names _ => hput path t names) n trivial

/-- A file that is put where a path leads to a free name or to a file. -/
theorem preserves_write {path : List UInt8} {content : List UInt8}
    (hput : ∀ t names, P t →
      (t.locate true path = .ok (.free names) ∧ takesFile t path names = true ∨
        ∃ old, t.locate true path = .ok (.taken names) ∧ t.top.at? names = some (.file old)) →
      P { t with top := Node.put (.file content) names t.top }) :
    Preserves P (write path content) := by
  intro t ht
  rw [after_write]
  split
  · split <;> exact ht
  · split
    · exact ht
    · next names hnames =>
      split
      · next htakes => exact hput t names ht (.inl ⟨hnames, htakes⟩)
      · exact ht
    · next names hnames =>
      split
      · next old hold => exact hput t names ht (.inr ⟨old, hnames, hold⟩)
      · exact ht

end Preserves

end SourceSurvey.Files.Change
