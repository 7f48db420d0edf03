import SourceSurvey.Proofs.Syntax.Reading

/-!
What is known of a reading that came to an end: its steps, one after the other, and for a loop
whatever every round preserves.
-/

namespace SourceSurvey.Syntax

theorem Cursor.Reaches.index_le {c d : Cursor} (h : c.Reaches d) : c.index ≤ d.index := by
  obtain ⟨passed, hpasses, -⟩ := h.passes
  rw [hpasses.index]
  exact Nat.le_add_right _ _

namespace Parser

variable {α β σ : Type} {c d : Cursor}

theorem gives_bind_iff {reader : Parser α} {f : α → Parser β} {b : β} :
    Gives (reader >>= f) c b d ↔ ∃ a c', Gives reader c a c' ∧ Gives (f a) c' b d := by
  constructor
  · intro h
    obtain ⟨⟨a, c'⟩, hreader, hf⟩ := Option.bind_eq_some_iff.mp h
    exact ⟨a, c', hreader, hf⟩
  · rintro ⟨a, c', hreader, hf⟩
    exact hreader.bind hf

theorem gives_pure_iff {a b : α} : Gives (pure a) c b d ↔ a = b ∧ c = d := by
  constructor
  · intro h
    cases h
    exact ⟨rfl, rfl⟩
  · rintro ⟨rfl, rfl⟩
    exact gives_pure a c

theorem gives_discard_iff {reader : Parser α} {u : Unit} :
    Gives (discard reader) c u d ↔ ∃ a, Gives reader c a d := by
  constructor
  · intro h
    obtain ⟨⟨a, c'⟩, hreader, hf⟩ := Option.bind_eq_some_iff.mp h
    cases hf
    exact ⟨a, hreader⟩
  · rintro ⟨a, h⟩
    exact h.discard

theorem gives_ask_iff {f : Cursor → Option α} {a : α} :
    Gives (ask f) c a d ↔ f c = some a ∧ c = d := by
  constructor
  · intro h
    obtain ⟨b, hb, heq⟩ := Option.map_eq_some_iff.mp h
    cases heq
    exact ⟨hb, rfl⟩
  · rintro ⟨hf, rfl⟩
    exact gives_ask hf

/-- A reader that first notes where it is. -/
theorem gives_position_bind_iff {f : Nat → Parser α} {a : α} :
    Gives (position >>= f) c a d ↔ Gives (f c.index) c a d := Iff.rfl

theorem gives_head_iff {t : Token} :
    Gives head c t d ↔ c.pieces.head?.map Piece.token = some t ∧ c = d := gives_ask_iff

theorem not_gives_failure {a : α} : ¬ Gives failure c a d := nofun

theorem gives_guard_iff {p : Prop} [Decidable p] {u : Unit} :
    Gives (guard p) c u d ↔ p ∧ c = d := by
  unfold guard
  split
  · next hp => simp [gives_pure_iff, hp]
  · next hp => simp [not_gives_failure, hp]

theorem read_orElse (first second : Parser α) (c : Cursor) :
    (first <|> second).read c = (first.read c).or (second.read c) := by
  simp only [HOrElse.hOrElse, OrElse.orElse, Alternative.orElse]
  cases first.read c <;> rfl

theorem Gives.of_orElse {first second : Parser α} {a : α} (h : Gives (first <|> second) c a d) :
    Gives first c a d ∨ Gives second c a d := by
  rw [Gives, read_orElse] at h
  exact (Option.or_eq_some_iff.mp h).imp_right And.right

/-- What was passed by itself is the token at the cursor. -/
theorem Gives.of_take {t : Token} (h : Gives take c t d) :
    ∃ p rest, c.pieces = p :: rest ∧ p.token = t ∧
      d = c.pass rest (c.formatting && !endsLiteral t) := by
  simp only [Gives, take] at h
  split at h
  · next p rest hpieces =>
    split at h
    · cases h
      exact ⟨p, rest, hpieces, rfl, rfl⟩
    · cases h
  · cases h

/-- A literal with interpolations is passed from its start to its end. -/
theorem Gives.of_interpolated {body : Parser Unit} {u : Unit} (h : Gives (interpolated body) c u d) :
    ∃ first rest inside last behind, c.pieces = ⟨first, .formatStart⟩ :: rest ∧
      Gives body (c.pass rest true) () inside ∧ inside.pieces = ⟨last, .formatEnd⟩ :: behind ∧
      d = inside.pass behind false := by
  simp only [Gives, interpolated] at h
  split at h
  · next first rest hpieces =>
    split at h
    · next inside hbody =>
      split at h
      · next last behind hend =>
        cases h
        exact ⟨first, rest, inside, last, behind, hpieces, hbody, hend, rfl⟩
      · cases h
    · cases h
  · cases h

/-- What was attempted has been read, or the cursor stays where it was. -/
theorem Gives.of_attempt {reader : Parser (Option α)} {a : Option α}
    (h : Gives (attempt reader) c a d) : Gives reader c a d ∨ a = none ∧ d = c := by
  simp only [Gives, attempt] at h
  split at h
  · next hfound =>
    cases h
    exact .inl hfound
  · cases h
    exact .inr ⟨rfl, rfl⟩
  · cases h

theorem gives_next_iff {e : Expected} {t : Token} :
    Gives (next e) c t d ↔ Gives (look e) c (.token t) d := by
  constructor
  · intro h
    obtain ⟨l, c', hlook, h⟩ := gives_bind_iff.mp h
    split at h
    · obtain ⟨rfl, rfl⟩ := gives_pure_iff.mp h
      exact hlook
    · exact absurd h not_gives_failure
  · intro h
    exact h.bind (gives_pure t d)

/-- What comes of nothing leaves the cursor where it is. -/
theorem eq_of_attempt {reader : Parser (Option α)}
    (h : Gives (attempt reader) c none d) : c = d := by
  unfold Gives attempt at h
  simp only at h
  split at h
  · cases h
  · cases h
    rfl
  · cases h

/-- Where a token does not follow, the cursor stays. -/
theorem eq_of_advanceBefore {e : Expected} {t : Token}
    (h : Gives (advanceBefore e t) c false d) : c = d := by
  obtain ⟨found, c', hattempt, h⟩ := gives_bind_iff.mp h
  obtain ⟨hfound, rfl⟩ := gives_pure_iff.mp h
  cases found with
  | some u => cases hfound
  | none => exact eq_of_attempt hattempt

/-- A token that is found behind the one at the cursor is found by passing that one. -/
theorem advance_of_advanceBefore {e : Expected} {t : Token}
    (h : Gives (advanceBefore e t) c true d) : Gives (advance e) c t d := by
  obtain ⟨found, c', hattempt, h⟩ := gives_bind_iff.mp h
  obtain ⟨hfound, rfl⟩ := gives_pure_iff.mp h
  obtain hread | ⟨rfl, -⟩ := hattempt.of_attempt
  · obtain ⟨l, c₁, hadvance, hread⟩ := gives_bind_iff.mp hread
    obtain ⟨u, c₂, htake, hlook⟩ := gives_bind_iff.mp hadvance
    split at hread
    · split at hread
      · next hother =>
        obtain ⟨-, rfl⟩ := gives_pure_iff.mp hread
        subst hother
        exact gives_bind_iff.mpr ⟨u, c₂, htake, gives_next_iff.mpr hlook⟩
      · obtain ⟨rfl, -⟩ := gives_pure_iff.mp hread
        cases hfound
    · obtain ⟨rfl, -⟩ := gives_pure_iff.mp hread
      cases hfound
  · cases hfound

theorem Gives.reaches {reader : Parser α} {a : α} (h : Gives reader c a d) : c.Reaches d :=
  Parser.reaches reader h

/-- What every round of a loop preserves holds of its result, if the last round turns it into that. -/
theorem Gives.of_loop {step : σ → Parser (σ ⊕ α)} (before : σ → Cursor → Prop)
    (after : α → Cursor → Prop)
    (hround : ∀ s c r d, before s c → Gives (step s) c r d → r.elim (before · d) (after · d))
    {s : σ} {a : α} (h : Gives (Parser.loop step s) c a d) (hs : before s c) : after a d := by
  obtain ⟨n, c', hbudget, hrounds⟩ := gives_bind_iff.mp h
  obtain ⟨-, rfl⟩ := gives_ask_iff.mp hbudget
  clear h hbudget
  induction n generalizing s c with
  | zero => exact absurd hrounds not_gives_failure
  | succ n ih =>
    obtain ⟨r, c', hstep, hrest⟩ := gives_bind_iff.mp hrounds
    have hr := hround s c r c' hs hstep
    cases r with
    | inl s' => exact ih hr hrest
    | inr b =>
      obtain ⟨rfl, rfl⟩ := gives_pure_iff.mp hrest
      exact hr

end Parser

end SourceSurvey.Syntax
