import Mathlib.Algebra.Ring.Int.Defs
import SourceSurvey.Proofs.Syntax.Inversion

/-!
How far tokens lead into brackets and literals with interpolations. A rule of the grammar is balanced
if it leaves whatever it enters. The lemmas here show that from the steps of a rule: what a step does
is known where the token is known at which it stands.
-/

namespace SourceSurvey.Syntax

def Symbol.nesting : Symbol → Int
  | .leftParen | .leftBracket | .leftBrace => 1
  | .rightParen | .rightBracket | .rightBrace => -1
  | _ => 0

/-- How far one token leads into brackets and literals. Braces within a literal do not count, since
    the literal itself does. -/
def Token.nesting : Token → Int
  | .formatStart => 1
  | .formatEnd => -1
  | .symbol s => s.nesting
  | _ => 0

/-- How far some tokens lead into brackets and literals. -/
def nesting (tokens : List Token) : Int := (tokens.map Token.nesting).sum

@[simp] theorem nesting_nil : nesting [] = 0 := rfl

@[simp] theorem nesting_cons (t : Token) (rest : List Token) :
    nesting (t :: rest) = t.nesting + nesting rest := by
  simp [nesting]

@[simp] theorem nesting_append (first second : List Token) :
    nesting (first ++ second) = nesting first + nesting second := by
  simp [nesting]

/-- How far the tokens that are left to read lead. -/
def Cursor.nesting (c : Cursor) : Int := Syntax.nesting (c.pieces.map Piece.token)

/-- What token stands at a cursor, as far as it is known. -/
def Cursor.Shows (c : Cursor) (t : Option Token) : Prop :=
  ∀ u ∈ t, c.pieces.head?.map Piece.token = some u

theorem Cursor.shows_none (c : Cursor) : c.Shows none := nofun

theorem Cursor.shows_some {c : Cursor} {t : Token} :
    c.Shows (some t) ↔ c.pieces.head?.map Piece.token = some t := by
  simp [Cursor.Shows]

theorem Cursor.Skips.nesting_eq {c d : Cursor} (h : c.Skips d) : c.nesting = d.nesting := by
  obtain ⟨passed, hpasses, hcomments⟩ := h.passes
  have hzero : ∀ pieces : List Piece, (∀ p ∈ pieces, p.token = .comment) →
      Syntax.nesting (pieces.map Piece.token) = 0 := by
    intro pieces hpieces
    induction pieces with
    | nil => rfl
    | cons p rest ih =>
      obtain ⟨hp, hrest⟩ := List.forall_mem_cons.mp hpieces
      rw [List.map_cons, nesting_cons, hp, ih hrest]
      rfl
  rw [Cursor.nesting, hpasses.pieces, List.map_append, nesting_append, hzero passed hcomments,
    Int.zero_add, Cursor.nesting]

/-- The token that a reader has found. -/
def Look.token? : Look → Option Token
  | .token t => some t
  | _ => none

namespace Parser

variable {α β σ : Type}

/-- Where some token stands, what a reader passes leads so far into brackets as its result tells. -/
def Nests (t : Option Token) (n : α → Int) (reader : Parser α) : Prop :=
  ∀ ⦃c a d⦄, c.Shows t → Gives reader c a d → c.nesting = n a + d.nesting

/-- What a reader passes leaves all brackets that it enters, where some token stands. -/
abbrev BalancedAt (t : Option Token) (reader : Parser α) : Prop := Nests t (fun _ => 0) reader

/-- What a reader passes leaves all brackets that it enters. -/
abbrev Balanced (reader : Parser α) : Prop := BalancedAt none reader

section Steps

variable {t : Option Token} {u : Token} {e : Expected} {n : α → Int}

/-- The token need not be known. -/
theorem Nests.at {reader : Parser α} (h : Nests none n reader) (t : Option Token) :
    Nests t n reader := fun c _ _ _ hread => h c.shows_none hread

theorem nests_pure {a : α} (h : n a = 0) : Nests t n (pure a) := by
  intro c b d _ hread
  obtain ⟨rfl, rfl⟩ := gives_pure_iff.mp hread
  rw [h, Int.zero_add]

theorem Nests.pureBind {f : β → Parser α} {b : β} (h : Nests t n (f b)) :
    Nests t n (pure b >>= f) := by
  intro c a d hc hread
  obtain ⟨b', c', hpure, hrest⟩ := gives_bind_iff.mp hread
  obtain ⟨rfl, rfl⟩ := gives_pure_iff.mp hpure
  exact h hc hrest

theorem nests_failure : Nests t n failure := fun _ _ _ _ hread => absurd hread not_gives_failure

theorem Nests.iteOf {q : Prop} [Decidable q] {first second : Parser α} (hfirst : q → Nests t n first)
    (hsecond : Nests t n second) : Nests t n (if q then first else second) := by
  split
  · next hq => exact hfirst hq
  · exact hsecond

theorem Nests.ite {q : Prop} [Decidable q] {first second : Parser α} (hfirst : Nests t n first)
    (hsecond : Nests t n second) : Nests t n (if q then first else second) :=
  .iteOf (fun _ => hfirst) hsecond

theorem Nests.orElse {first second : Parser α} (hfirst : Nests t n first)
    (hsecond : Nests t n second) : Nests t n (first <|> second) := by
  intro c a d hc hread
  obtain hread | hread := hread.of_orElse
  · exact hfirst hc hread
  · exact hsecond hc hread

/-- Two phrases one behind the other lead as far as both do. -/
theorem Nests.bindSum {k : Int} {m : α → Int} {reader : Parser β} {f : β → Parser α}
    (h : Nests t (fun _ => k) reader) (hf : ∀ b, Nests none m (f b)) (hn : ∀ a, n a = k + m a) :
    Nests t n (reader >>= f) := by
  intro c a d hc hread
  obtain ⟨b, c', hfirst, hrest⟩ := gives_bind_iff.mp hread
  rw [h hc hfirst, hf b c'.shows_none hrest, hn, Int.add_assoc]

/-- A phrase comes behind something that is balanced. -/
theorem Nests.bind {reader : Parser β} {f : β → Parser α} (h : BalancedAt t reader)
    (hf : ∀ b, Nests none n (f b)) : Nests t n (reader >>= f) :=
  h.bindSum hf fun _ => (Int.zero_add _).symm

/-- A bracket is opened, and what follows closes it. -/
theorem Nests.close {reader : Parser β} {f : β → Parser α} (h : Nests t (fun _ => 1) reader)
    (hf : ∀ b, Nests none (fun _ => -1) (f b)) : BalancedAt t (reader >>= f) :=
  h.bindSum hf fun _ => rfl

theorem Nests.discard {reader : Parser α} {k : Int} (h : Nests t (fun _ => k) reader) :
    Nests t (fun _ => k) (Functor.discard reader) := by
  intro c v d hc hread
  obtain ⟨a, hread⟩ := gives_discard_iff.mp hread
  exact h hc hread

/-- Asking for something leaves the cursor where it is. -/
theorem Nests.ask {g : Cursor → Option β} {f : β → Parser α} (hf : ∀ b, Nests t n (f b)) :
    Nests t n (Parser.ask g >>= f) := by
  intro c a d hc hread
  obtain ⟨b, c', hask, hrest⟩ := gives_bind_iff.mp hread
  obtain ⟨-, rfl⟩ := gives_ask_iff.mp hask
  exact hf b hc hrest

theorem Nests.guarded {q : Prop} [Decidable q] {f : Unit → Parser α} (hf : q → Nests t n (f ())) :
    Nests t n (guard q >>= f) := by
  intro c a d hc hread
  obtain ⟨u, c', hguard, hrest⟩ := gives_bind_iff.mp hread
  obtain ⟨hq, rfl⟩ := gives_guard_iff.mp hguard
  exact hf hq hc hrest

theorem balanced_guard {q : Prop} [Decidable q] : BalancedAt t (guard q) := by
  intro c u d _ hread
  obtain ⟨-, rfl⟩ := gives_guard_iff.mp hread
  exact (Int.zero_add _).symm

theorem Nests.head {f : Token → Parser α} (hf : ∀ u, Nests (some u) n (f u)) :
    Nests t n (Parser.head >>= f) := by
  intro c a d _ hread
  obtain ⟨u, c', hhead, hrest⟩ := gives_bind_iff.mp hread
  obtain ⟨hu, rfl⟩ := gives_head_iff.mp hhead
  exact hf u (Cursor.shows_some.mpr hu) hrest

/-- What a reader finds stands at the cursor where it has settled, behind comments only. -/
theorem nesting_of_look {c d : Cursor} {l : Look} (h : Gives (Parser.look e) c l d) :
    c.nesting = d.nesting ∧ d.Shows l.token? := by
  have hsettled : Look.ofSettled (c.settle e) = some (l, d) := h
  constructor
  · rw [Look.eq_of_ofSettled hsettled]
    exact (c.skips_settle e).nesting_eq
  · generalize c.settle e = settled at hsettled
    obtain ⟨signal, d'⟩ := settled
    cases signal with
    | stray => cases hsettled
    | token =>
      obtain ⟨p, hp, heq⟩ := Option.map_eq_some_iff.mp hsettled
      cases heq
      exact Cursor.shows_some.mpr (by rw [hp]; rfl)
    | _ =>
      cases hsettled
      exact Cursor.shows_none _

theorem Nests.look {f : Look → Parser α} (hf : ∀ l, Nests l.token? n (f l)) :
    Nests t n (Parser.look e >>= f) := by
  intro c a d _ hread
  obtain ⟨l, c', hlook, hrest⟩ := gives_bind_iff.mp hread
  obtain ⟨hsame, hshows⟩ := nesting_of_look hlook
  rw [hsame, hf l hshows hrest]

theorem Nests.next {f : Token → Parser α} (hf : ∀ u, Nests (some u) n (f u)) :
    Nests t n (Parser.next e >>= f) := by
  intro c a d _ hread
  obtain ⟨u, c', hnext, hrest⟩ := gives_bind_iff.mp hread
  obtain ⟨hsame, hshows⟩ := nesting_of_look (gives_next_iff.mp hnext)
  rw [hsame, hf u hshows hrest]

theorem balanced_next : BalancedAt t (Parser.next e) := by
  intro c u d _ hread
  rw [(nesting_of_look (gives_next_iff.mp hread)).1, Int.zero_add]

/-! ### Passing tokens -/

theorem pieces_of_take {c d : Cursor} {v : Token} (h : Gives take c v d) :
    ∃ p, c.pieces = p :: d.pieces ∧ p.token = v := by
  obtain ⟨p, rest, hpieces, htoken, rfl⟩ := h.of_take
  exact ⟨p, hpieces, htoken⟩

theorem nesting_of_take {c d : Cursor} {v : Token} (h : Gives take c v d) :
    c.pieces.head?.map Piece.token = some v ∧ c.nesting = v.nesting + d.nesting := by
  obtain ⟨p, hpieces, rfl⟩ := pieces_of_take h
  rw [Cursor.nesting, hpieces, List.map_cons, nesting_cons]
  exact ⟨rfl, rfl⟩

/-- A token is passed that is found only now. -/
theorem Nests.take {f : Token → Parser α} (hf : ∀ v, Nests none (fun a => n a - v.nesting) (f v)) :
    Nests t n (Parser.take >>= f) := by
  intro c a d _ hread
  obtain ⟨v, c', htake, hrest⟩ := gives_bind_iff.mp hread
  rw [(nesting_of_take htake).2, hf v c'.shows_none hrest]
  simp only
  omega

/-- The token is passed at which the cursor stands. -/
theorem nests_pass (u : Token) :
    Nests (some u) (fun _ => u.nesting) (Functor.discard Parser.take) := by
  intro c v d hc hread
  obtain ⟨v, hread⟩ := gives_discard_iff.mp hread
  obtain ⟨hv, hpassed⟩ := nesting_of_take hread
  rw [Cursor.shows_some.mp hc] at hv
  cases hv
  exact hpassed

/-- A token that opens and closes nothing is passed. -/
theorem balanced_pass (hu : u.nesting = 0) :
    BalancedAt (some u) (Functor.discard Parser.take) := by
  have hpass := nests_pass u
  rw [hu] at hpass
  exact hpass

/-- A token is passed last. -/
theorem nests_pass_pure {a : α} (hu : n a = u.nesting) :
    Nests (some u) n (Functor.discard Parser.take >>= fun _ => pure a) := by
  intro c b d hc hread
  obtain ⟨v, c', hpass, hrest⟩ := gives_bind_iff.mp hread
  obtain ⟨rfl, rfl⟩ := gives_pure_iff.mp hrest
  rw [nests_pass u hc hpass, hu]

/-- A token is passed, and what stands behind it is found. -/
theorem Nests.passLook {m : α → Int} {f : Look → Parser α} (hn : ∀ a, n a = u.nesting + m a)
    (hf : ∀ l, Nests l.token? m (f l)) : Nests (some u) n (advanceLook e >>= f) := by
  intro c a d hc hread
  obtain ⟨l, c', hadvance, hrest⟩ := gives_bind_iff.mp hread
  obtain ⟨v, c₁, hpass, hlook⟩ := gives_bind_iff.mp hadvance
  obtain ⟨hsame, hshows⟩ := nesting_of_look hlook
  rw [nests_pass u hc hpass, hsame, hf l hshows hrest, hn, Int.add_assoc]

/-- A token is passed, and another one is found behind it. -/
theorem nesting_of_advance {c d : Cursor} {v : Token} (hc : c.Shows (some u))
    (h : Gives (advance e) c v d) : c.nesting = u.nesting + d.nesting ∧ d.Shows (some v) := by
  obtain ⟨w, c', hpass, hnext⟩ := gives_bind_iff.mp h
  obtain ⟨hsame, hshows⟩ := nesting_of_look (gives_next_iff.mp hnext)
  rw [nests_pass u hc hpass, hsame]
  exact ⟨rfl, hshows⟩

theorem Nests.passNext {m : α → Int} {f : Token → Parser α} (hn : ∀ a, n a = u.nesting + m a)
    (hf : ∀ v, Nests (some v) m (f v)) : Nests (some u) n (advance e >>= f) := by
  intro c a d hc hread
  obtain ⟨v, c', hadvance, hrest⟩ := gives_bind_iff.mp hread
  obtain ⟨hpassed, hshows⟩ := nesting_of_advance hc hadvance
  rw [hpassed, hf v hshows hrest, hn, Int.add_assoc]

/-- A token that opens and closes nothing is passed. -/
theorem Nests.advanceLook {f : Look → Parser α} (hu : u.nesting = 0)
    (hf : ∀ l, Nests l.token? n (f l)) : Nests (some u) n (Parser.advanceLook e >>= f) :=
  .passLook (fun a => by rw [hu, Int.zero_add]) hf

theorem Nests.advance {f : Token → Parser α} (hu : u.nesting = 0)
    (hf : ∀ v, Nests (some v) n (f v)) : Nests (some u) n (Parser.advance e >>= f) :=
  .passNext (fun a => by rw [hu, Int.zero_add]) hf

/-- A certain token is known to stand where one goes on because of it. -/
theorem Nests.iteShows {v : Token} {first second : Parser α} (hfirst : Nests (some v) n first)
    (hsecond : Nests (some u) n second) : Nests (some u) n (if u = v then first else second) :=
  .iteOf (fun hu => hu ▸ hfirst) hsecond

/-- A certain token is passed if it comes next. -/
theorem Nests.advanceIf {v : Token} {f : Token → Parser α} (hv : v.nesting = 0)
    (hf : ∀ w, Nests (some w) n (f w)) :
    Nests (some u) n (if u = v then Parser.advance e >>= f else pure u >>= f) :=
  .iteShows (.advance hv hf) (.pureBind (hf u))

/-- A bracket is opened, and what stands behind it is found; what follows closes the bracket. -/
theorem Nests.open {f : Token → Parser α} (hu : u.nesting = 1)
    (hf : ∀ v, Nests (some v) (fun _ => -1) (f v)) : BalancedAt (some u) (Parser.advance e >>= f) :=
  .passNext (fun _ => by rw [hu]; rfl) hf

theorem nests_advance (u : Token) : Nests (some u) (fun _ => u.nesting) (Parser.advance e) :=
  (nests_pass u).bindSum (fun _ => balanced_next) fun _ => (Int.add_zero _).symm

theorem balanced_advance (hu : u.nesting = 0) : BalancedAt (some u) (Parser.advance e) :=
  (balanced_pass hu).bind fun _ => balanced_next

theorem nests_expect (u : Token) : Nests t (fun _ => u.nesting) (expect e u) := by
  refine Nests.next fun v => ?_
  split
  · next hv =>
    subst hv
    exact nests_pass v
  · exact nests_failure

theorem balanced_expect (hu : u.nesting = 0) : BalancedAt t (expect e u) := by
  have hexpect : Nests t (fun _ => u.nesting) (expect e u) := nests_expect u
  rw [hu] at hexpect
  exact hexpect

/-- A token is expected last. -/
theorem nests_expect_pure {a : α} (hu : n a = u.nesting) :
    Nests t n (expect e u >>= fun _ => pure a) := by
  intro c b d hc hread
  obtain ⟨v, c', hexpect, hrest⟩ := gives_bind_iff.mp hread
  obtain ⟨rfl, rfl⟩ := gives_pure_iff.mp hrest
  rw [nests_expect u hc hexpect, hu]

theorem balanced_expectWord : BalancedAt t (expectWord e) := by
  refine Nests.next fun u => ?_
  split
  · exact nests_pass_pure rfl
  · exact nests_failure

/-! ### Readers of readers -/

theorem Nests.attempt {reader : Parser (Option β)} (h : BalancedAt t reader) :
    BalancedAt t (Parser.attempt reader) := by
  intro c a d hc hread
  obtain hfound | ⟨rfl, rfl⟩ := hread.of_attempt
  · exact h hc hfound
  · exact (Int.zero_add _).symm

/-- A token is passed if a certain other one follows it. -/
theorem nesting_of_advanceBefore {v : Token} {found : Bool} {c d : Cursor} (hu : u.nesting = 0)
    (hc : c.Shows (some u)) (h : Gives (Parser.advanceBefore e v) c found d) :
    c.nesting = d.nesting ∧ d.Shows (some (if found then v else u)) := by
  cases found with
  | true =>
    obtain ⟨hsame, hshows⟩ := nesting_of_advance hc (advance_of_advanceBefore h)
    rw [hsame, hu, Int.zero_add]
    exact ⟨rfl, hshows⟩
  | false =>
    obtain rfl := eq_of_advanceBefore h
    exact ⟨rfl, hc⟩

theorem Nests.advanceBefore {f : Bool → Parser α} {v : Token} (hu : u.nesting = 0)
    (htrue : Nests (some v) n (f true)) (hfalse : Nests (some u) n (f false)) :
    Nests (some u) n (Parser.advanceBefore e v >>= f) := by
  intro c a d hc hread
  obtain ⟨found, c', hbefore, hrest⟩ := gives_bind_iff.mp hread
  obtain ⟨hsame, hshows⟩ := nesting_of_advanceBefore hu hc hbefore
  cases found with
  | true => exact hsame.trans (htrue hshows hrest)
  | false => exact hsame.trans (hfalse hshows hrest)

/-- A literal with interpolations is left behind its end. -/
theorem Nests.interpolated {body : Parser Unit} (h : Balanced body) :
    BalancedAt t (Parser.interpolated body) := by
  intro c v d _ hread
  obtain ⟨first, rest, inside, last, behind, hpieces, hbody, hend, rfl⟩ := hread.of_interpolated
  have hinside := h (Cursor.shows_none _) hbody
  rw [Cursor.nesting, Cursor.nesting, hend] at hinside
  rw [Cursor.nesting, hpieces, Cursor.nesting]
  simp only [Cursor.pass, List.map_cons, nesting_cons, Token.nesting] at hinside ⊢
  omega

/-- A loop leads as far as its last round does, if the rounds before it are balanced. -/
theorem Nests.loop {step : σ → Parser (σ ⊕ α)} {s : σ}
    (h : ∀ s, Nests none (Sum.elim (fun _ => 0) n) (step s)) : Nests t n (Parser.loop step s) := by
  intro c a d _ hread
  refine Gives.of_loop (fun _ c' => c.nesting = c'.nesting)
    (fun a d => c.nesting = n a + d.nesting) ?_ hread rfl
  intro s c' r d' hbefore hround
  have hr := h s c'.shows_none hround
  rw [← hbefore] at hr
  cases r with
  | inl s' => rwa [Sum.elim_inl, Int.zero_add] at hr
  | inr b => exact hr

end Steps

end Parser

end SourceSurvey.Syntax
