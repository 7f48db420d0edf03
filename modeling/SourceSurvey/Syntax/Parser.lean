import SourceSurvey.Syntax.Cursor

/-!
Readers of tokens. A reader carries the proof that it does nothing to a cursor but move it on over
text of the grammar, so whatever is built from the readers here does nothing else either.
-/

namespace SourceSurvey.Syntax

/-- Reads tokens from a cursor; there is no value when the source breaks the grammar. -/
structure Parser (α : Type) where
  read : Cursor → Option (α × Cursor)
  reaches : ∀ {c : Cursor} {a : α} {d : Cursor}, read c = some (a, d) → c.Reaches d

/-- What a reader may find. -/
inductive Look
  | lineEnd
  | indent (column : Nat)
  | dedent
  | token (t : Token)

/-- What a reader finds where it has settled. -/
def Look.ofSettled : Signal × Cursor → Option (Look × Cursor)
  | (.lineEnd, c) => some (.lineEnd, c)
  | (.indent column, c) => some (.indent column, c)
  | (.dedent, c) => some (.dedent, c)
  | (.stray, _) => none
  | (.token, c) => c.pieces.head?.map fun p => (.token p.token, c)

theorem Look.eq_of_ofSettled {settled : Signal × Cursor} {l : Look} {d : Cursor}
    (h : Look.ofSettled settled = some (l, d)) : d = settled.2 := by
  obtain ⟨signal, c⟩ := settled
  cases signal with
  | stray => cases h
  | token =>
    obtain ⟨p, -, h⟩ := Option.map_eq_some_iff.mp h
    cases h
    rfl
  | _ =>
    cases h
    rfl

namespace Parser

variable {α β : Type}

instance : Monad Parser where
  pure a := ⟨fun c => some (a, c), fun h => by cases h; exact .refl _⟩
  bind p f :=
    { read := fun c => (p.read c).bind fun found => (f found.1).read found.2
      reaches := fun h => by
        obtain ⟨found, hp, hf⟩ := Option.bind_eq_some_iff.mp h
        exact (p.reaches hp).trans ((f found.1).reaches hf) }

instance : Alternative Parser where
  failure := ⟨fun _ => none, nofun⟩
  orElse p q :=
    { read := fun c =>
        match p.read c with
        | some found => some found
        | none => (q ()).read c
      reaches := fun h => by
        split at h
        · next hp =>
          cases h
          exact p.reaches hp
        · exact (q ()).reaches h }

/-- What a function says of the cursor, which stays where it is. -/
def ask (f : Cursor → Option α) : Parser α where
  read c := (f c).map (·, c)
  reaches h := by
    obtain ⟨a, -, h⟩ := Option.map_eq_some_iff.mp h
    cases h
    exact .refl _

/-- What a reader finds, without moving the cursor. -/
def peek (p : Parser α) : Parser α := ask fun c => (p.read c).map Prod.fst

/-- Reads on, and goes back if nothing comes of it. -/
def attempt (p : Parser (Option α)) : Parser (Option α) where
  read c :=
    match p.read c with
    | some (some a, d) => some (some a, d)
    | some (none, _) => some (none, c)
    | none => none
  reaches h := by
    split at h
    · next hp =>
      cases h
      exact p.reaches hp
    · cases h
      exact .refl _
    · cases h

/-- Finds what stands next and leaves it there. -/
def look (e : Expected) : Parser Look where
  read c := Look.ofSettled (c.settle e)
  reaches {c a d} h := by
    rw [Look.eq_of_ofSettled h]
    exact (c.skips_settle e).reaches

/-- The token directly at the cursor, layout apart. -/
def head : Parser Token := ask fun c => c.pieces.head?.map Piece.token

/-- Whether a joined line stands on its own between the token at the cursor and the one before it. -/
def crossesSeam : Parser Bool := ask fun c => c.pieces.head?.map fun p => c.seam || p.splices

/-- The number of pieces passed. -/
def position : Parser Nat := ask fun c => some c.index

/-- Whether a token can be passed by itself: it is a token at all, and does not begin a literal with
    interpolations. -/
def passes (t : Token) : Bool := t != .invalid && t != .formatStart

/-- Whether a token ends a literal. -/
def endsLiteral : Token → Bool
  | .string _ | .formatEnd => true
  | _ => false

/-- Passes the token at the cursor. -/
def take : Parser Token where
  read c :=
    match c.pieces with
    | p :: rest =>
      if passes p.token then
        some (p.token, c.pass rest (c.formatting && !endsLiteral p.token))
      else none
    | [] => none
  reaches {c a d} h := by
    split at h
    · next p rest hpieces =>
      split at h
      · next hpasses =>
        have hvalid : p.token ≠ .invalid := by
          intro hinvalid
          rw [hinvalid] at hpasses
          cases hpasses
        cases h
        refine ⟨⟨[p], Cursor.passes_pass hpieces _, List.forall_mem_singleton.mpr hvalid⟩, ?_⟩
        intro hclosed
        simp only [Cursor.pass, hclosed, Bool.false_and]
      · cases h
    · cases h

/-- Passes a literal with interpolations, between whose start and end something is read. While it is
    open a line that returns to the left closes no block. -/
def interpolated (body : Parser Unit) : Parser Unit where
  read c :=
    match c.pieces with
    | ⟨_, .formatStart⟩ :: rest =>
      match body.read (c.pass rest true) with
      | some ((), d) =>
        match d.pieces with
        | ⟨_, .formatEnd⟩ :: rest => some ((), d.pass rest false)
        | _ => none
      | none => none
    | _ => none
  reaches {c a d} h := by
    split at h
    · next layout rest hpieces =>
      split at h
      · next inside hbody =>
        split at h
        · next layout' rest' hpieces' =>
          obtain ⟨passed, hpasses, hvalid⟩ := (body.reaches hbody).passes
          cases h
          have hopened := (Cursor.passes_pass hpieces true).trans hpasses
          refine ⟨⟨_, hopened.trans (Cursor.passes_pass hpieces' false), ?_⟩, fun _ => rfl⟩
          simp only [List.forall_mem_append, List.forall_mem_singleton]
          exact ⟨⟨nofun, hvalid⟩, nofun⟩
        · cases h
      · cases h
    · cases h

/-- Reads inside a block at some column, and leaves the block. -/
def inBlock (column : Nat) (body : Parser α) : Parser α where
  read c :=
    (body.read { c with indents := column :: c.indents }).map fun found =>
      (found.1, { found.2 with indents := found.2.indents.tail })
  reaches {c a d} h := by
    obtain ⟨⟨b, inside⟩, hbody, h⟩ := Option.map_eq_some_iff.mp h
    cases h
    have hreaches := body.reaches hbody
    obtain ⟨passed, hpasses, hvalid⟩ := hreaches.passes
    refine ⟨⟨passed, ⟨hpasses.pieces, hpasses.index, ?_, hpasses.budget⟩, hvalid⟩, hreaches.closed⟩
    simp only [hpasses.indents, List.tail_cons]

/-- The next token, which has to be there. -/
def next (e : Expected) : Parser Token := do
  match ← look e with
  | .token t => pure t
  | _ => failure

/-- Passes the token at the cursor and settles on the next one. -/
def advance (e : Expected) : Parser Token := do
  discard take
  next e

/-- Passes the token at the cursor and finds what follows. -/
def advanceLook (e : Expected) : Parser Look := do
  discard take
  look e

/-- Passes the token at the cursor if the given one follows it. -/
def advanceBefore (e : Expected) (t : Token) : Parser Bool := do
  let found ← attempt do
    match ← advanceLook e with
    | .token other => return if other = t then some () else none
    | _ => return none
  return found.isSome

/-- Passes the next token, which has to be the given one. -/
def expect (e : Expected) (t : Token) : Parser Unit := do
  if (← next e) = t then discard take else failure

/-- Passes the next token, which has to be a word, and gives its spelling. -/
def expectWord (e : Expected) : Parser Word := do
  match ← next e with
  | .word w =>
    discard take
    pure w
  | _ => failure

/-- The dedent that ends the enclosing block, if there is one. -/
def dedentExpected : Parser Expected := ask fun c => some { dedent := !c.indents.isEmpty }

/-- Runs a step until it gives a result. -/
def iterate {σ α : Type} (step : σ → Parser (σ ⊕ α)) : Nat → σ → Parser α
  | 0, _ => failure
  | n + 1, s => do
    match ← step s with
    | .inl s => iterate step n s
    | .inr a => pure a

/-- Runs a step until it gives a result, at most as often as the source has tokens. -/
def loop {σ α : Type} (step : σ → Parser (σ ⊕ α)) (s : σ) : Parser α := do
  iterate step (← ask fun c => some c.budget) s

end Parser

end SourceSurvey.Syntax
