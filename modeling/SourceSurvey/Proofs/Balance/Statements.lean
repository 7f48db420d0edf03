import SourceSurvey.Proofs.Blocks.Grammar
import SourceSurvey.Proofs.Blocks.Simple

/-!
Statements, clauses and decorators begin outside all brackets and literals, one behind the other.
-/

namespace SourceSurvey.Syntax

open SourceSurvey.Syntax.Parser

/-- A token that is no comment stands outside all brackets and literals. -/
def Outside (all : List Piece) (i : Nat) : Prop :=
  ∃ p, all[i]? = some p ∧ p.token ≠ .comment ∧ nesting ((all.take i).map Piece.token) = 0

/-- A cursor between phrases, outside all brackets. -/
structure Cursor.Level (all : List Piece) (c : Cursor) : Prop extends c.On all where
  level : c.nesting = Syntax.nesting (all.map Piece.token)

namespace Cursor.Level

variable {all : List Piece} {c d : Cursor} {u : Token}

theorem start (all : List Piece) : (Cursor.start all).Level all := ⟨⟨rfl, rfl⟩, rfl⟩

/-- A whole phrase leads from outside all brackets to outside all brackets. -/
theorem of_crosses (hc : c.Level all) (h : c.Crosses d) : d.Level all :=
  ⟨hc.toOn.of_reaches h.toReaches, h.level.symm.trans hc.level⟩

theorem of_skips (hc : c.Level all) (h : c.Skips d) : d.Level all := hc.of_crosses h.crosses

theorem outside (hc : c.Level all) (hu : c.Shows (some u)) (hcomment : u ≠ .comment) :
    Outside all c.index := by
  obtain ⟨p, hp, rfl⟩ := Option.map_eq_some_iff.mp (Cursor.shows_some.mp hu)
  obtain ⟨rest, hpieces⟩ := List.head?_eq_some_iff.mp hp
  refine ⟨p, hc.getElem? [] hpieces, hcomment, ?_⟩
  have htotal : Syntax.nesting (all.map Piece.token) =
      Syntax.nesting ((all.take c.index).map Piece.token) + c.nesting := by
    rw [Cursor.nesting, hc.pieces, ← nesting_append, ← List.map_append, List.take_append_drop]
  have hlevel := hc.level
  omega

end Cursor.Level

/-- A token that is found is no comment. -/
theorem Parser.Gives.ne_comment_of_look {e : Expected} {c d : Cursor} {t : Token}
    (h : Gives (look e) c (.token t) d) : t ≠ .comment := by
  obtain ⟨-, p, rest, -, rfl, hp⟩ := h.signal_of_look
  exact hp

/-! ### Beginnings -/

/-- Beginnings that are found from some place on, up to a cursor outside all brackets. -/
structure Begins (all : List Piece) (n : Nat) (starts : List Nat) (d : Cursor) : Prop
    extends d.Level all where
  forward : n ≤ d.index
  ascending : starts.Pairwise (· < ·)
  between : ∀ t ∈ starts, n ≤ t ∧ t < d.index
  outside : ∀ t ∈ starts, Outside all t

namespace Begins

variable {all : List Piece} {n : Nat} {starts more : List Nat} {d e : Cursor}

theorem nil (hd : d.Level all) (h : n ≤ d.index) : Begins all n [] d :=
  ⟨hd, h, .nil, nofun, nofun⟩

theorem mono (h : Begins all n starts d) {m : Nat} (hle : m ≤ n) : Begins all m starts d :=
  { h with
    forward := Nat.le_trans hle h.forward
    between := fun t ht => ⟨Nat.le_trans hle (h.between t ht).1, (h.between t ht).2⟩ }

theorem cons (hn : Outside all n) (h : Begins all (n + 1) starts d) :
    Begins all n (n :: starts) d where
  toLevel := h.toLevel
  forward := Nat.le_of_succ_le h.forward
  ascending := List.pairwise_cons.mpr ⟨fun t ht => (h.between t ht).1, h.ascending⟩
  between := List.forall_mem_cons.mpr ⟨⟨Nat.le_refl n, h.forward⟩, fun t ht =>
    ⟨Nat.le_of_succ_le (h.between t ht).1, (h.between t ht).2⟩⟩
  outside := List.forall_mem_cons.mpr ⟨hn, h.outside⟩

theorem append (h : Begins all n starts d) (h' : Begins all d.index more e) :
    Begins all n (starts ++ more) e where
  toLevel := h'.toLevel
  forward := Nat.le_trans h.forward h'.forward
  ascending := List.pairwise_append.mpr ⟨h.ascending, h'.ascending, fun t ht u hu =>
    Nat.lt_of_lt_of_le (h.between t ht).2 (h'.between u hu).1⟩
  between := List.forall_mem_append.mpr
    ⟨fun t ht => ⟨(h.between t ht).1, Nat.lt_of_lt_of_le (h.between t ht).2 h'.forward⟩,
      fun t ht => ⟨Nat.le_trans h.forward (h'.between t ht).1, (h'.between t ht).2⟩⟩
  outside := List.forall_mem_append.mpr ⟨h.outside, h'.outside⟩

/-- More may be passed behind the last beginning. -/
theorem extend (h : Begins all n starts d) (he : e.Level all) (hle : d.index ≤ e.index) :
    Begins all n starts e := by
  have hmore := h.append (.nil he hle)
  rw [List.append_nil] at hmore
  exact hmore

end Begins

variable {all : List Piece} {c d : Cursor}

/-! ### Lines -/

section Lines

variable {depth : Nat} {t : Token}

theorem begins_statementLine {statements : List Statement} (hc : c.Level all)
    (ht : c.Shows (some t)) (hcomment : t ≠ .comment)
    (h : Gives (statementLine (Rules.upTo depth)) c statements d) :
    Begins all c.index (startsOf statements) d := by
  have hrules := allBalanced_rulesUpTo depth
  refine Gives.of_loop
    (fun (before : List Statement) d => (∃ u, d.Shows (some u) ∧ u ≠ .comment) ∧
      Begins all c.index (startsOf before.reverse) d)
    (fun statements d => Begins all c.index (startsOf statements) d) ?_ h
    ⟨⟨t, ht, hcomment⟩, .nil hc (Nat.le_refl _)⟩
  rintro before d r d' ⟨⟨u, hu, hcomment⟩, hbefore⟩ hround
  obtain ⟨s, d₁, hs, hround⟩ := gives_bind_iff.mp hround
  have hd₁ := hbefore.toLevel.of_crosses (hs.crosses (balanced_simpleStatement hrules) d.shows_none)
  have hone : Begins all d.index (startsOf [s]) d₁ := by
    rw [(single_of_simpleStatement hs).bare.starts]
    exact .cons (hbefore.toLevel.outside hu hcomment)
      (.nil hd₁ (advances_simpleStatement depth hs))
  have hall := hbefore.append hone
  rw [← startsOf_append, ← List.reverse_cons] at hall
  obtain ⟨l, d₂, hlook, hround⟩ := gives_bind_iff.mp hround
  have hd₂ := hd₁.of_skips hlook.skips_of_look
  have hfound := hall.extend hd₂ hlook.reaches.index_le
  split at hround
  · obtain ⟨rfl, rfl⟩ := gives_pure_iff.mp hround
    exact hfound
  · obtain ⟨l, d₃, hbehind, hround⟩ := gives_bind_iff.mp hround
    obtain ⟨v, d₄, hpass, hlook'⟩ := gives_bind_iff.mp hbehind
    have hd₄ := hd₂.of_crosses (hpass.crosses (balanced_pass rfl) (nesting_of_look hlook).2)
    have hpassed := hfound.extend (hd₄.of_skips hlook'.skips_of_look) hbehind.reaches.index_le
    cases l with
    | lineEnd =>
      obtain ⟨rfl, rfl⟩ := gives_pure_iff.mp hround
      exact hpassed
    | token w =>
      obtain ⟨rfl, rfl⟩ := gives_pure_iff.mp hround
      exact ⟨⟨w, (nesting_of_look hlook').2, hlook'.ne_comment_of_look⟩, hpassed⟩
    | indent column => cases hlook'.indent_expected
    | dedent => cases hlook'.dedent_expected
  · exact absurd hround not_gives_failure

end Lines

/-! ### Derivations -/

theorem Decorators.begins {decorators : List Nat} (h : Decorators c decorators d)
    (hc : c.Level all) : Begins all c.index decorators d := by
  induction h with
  | none => exact .nil hc (Nat.le_refl _)
  | snoc _ hat hcrosses hlt hline hnext ih =>
    have hbehind := (hcrosses.trans hline.skips_of_look.crosses).trans hnext.crosses_of_next
    have hlate := Nat.lt_of_lt_of_le hlt (hline.reaches.trans hnext.reaches).index_le
    exact ih.append (.cons (ih.toLevel.outside hat nofun)
      (.nil (ih.toLevel.of_crosses hbehind) hlate))

/-- What is derived from outside all brackets begins outside of them; a line only where it begins with
    a token of its own. -/
theorem Derives.begins {n : Nonterminal} {statements : List Statement}
    (h : Derives n c statements d) (hc : c.Level all)
    (hcode : n = .statements → ∃ t, c.Shows (some t) ∧ t ≠ .comment) :
    Begins all c.index (startsOf statements) d := by
  induction h with
  | line hread =>
    obtain ⟨t, ht, hcomment⟩ := hcode rfl
    exact begins_statementLine hc ht hcomment hread
  | block hword hcrosses hlt _ _ hbody hclauses =>
    have hinside := hbody (hc.of_crosses hcrosses) nofun
    have hall := hinside.append (hclauses hinside.toLevel nofun)
    rw [← startsOf_append] at hall
    rw [startsOf_block]
    exact .cons (hc.outside hword nofun) (hall.mono hlt)
  | definition hdecorators hword _ hcrosses hlt _ hbody =>
    have hbefore := hdecorators.begins hc
    have hstart := hbefore.toLevel
    rw [startsOf_definition]
    exact hbefore.append (.cons (hstart.outside hword nofun)
      ((hbody (hstart.of_crosses hcrosses) nofun).mono hlt))
  | empty hlook => exact .nil (hc.of_skips hlook.skips_of_look) hlook.reaches.index_le
  | inline hlook _ hread =>
    have hbegins := begins_statementLine (hc.of_skips hlook.skips_of_look) (nesting_of_look hlook).2
      hlook.ne_comment_of_look hread
    exact hbegins.mono hlook.reaches.index_le
  | @indented _ _ column _ c' _ _ _ hlook _ hend hlines =>
    have hc' := hc.of_skips hlook.skips_of_look
    have hinside : Cursor.Level all { c' with indents := column :: c'.indents } :=
      ⟨⟨hc'.pieces, hc'.closed⟩, hc'.level⟩
    have hbegins := (hlines hinside nofun).mono hlook.reaches.index_le
    have hbehind := hbegins.extend (hbegins.toLevel.of_skips hend.skips_of_look)
      hend.reaches.index_le
    exact ⟨⟨⟨hbehind.pieces, hbehind.closed⟩, hbehind.level⟩, hbehind.forward, hbehind.ascending,
      hbehind.between, hbehind.outside⟩
  | none hskips => exact .nil (hc.of_skips hskips) hskips.reaches.index_le
  | found hlook _ _ hfound =>
    have hbegins := hfound (hc.of_skips hlook.skips_of_look) fun _ =>
      ⟨_, (nesting_of_look hlook).2, hlook.ne_comment_of_look⟩
    exact hbegins.mono hlook.reaches.index_le
  | append _ _ hfirst hsecond =>
    have hbefore := hfirst hc nofun
    rw [startsOf_append]
    exact hbefore.append (hsecond hbefore.toLevel nofun)

/-- The statements of an accepted source, with their clauses and decorators, begin one behind the
    other, outside all brackets, and before the end of the source. -/
theorem begins_of_ofPieces {m : Module} (h : Module.ofPieces all = .ok m) :
    ∃ d, Begins all 0 (startsOf m.body) d ∧ d.index < all.length := by
  obtain ⟨d, e, hderives, hend⟩ := derivesSource_of_ofPieces h
  have hbegins := hderives.begins (.start all) nofun
  exact ⟨d, hbegins,
    Nat.lt_of_le_of_lt hend.reaches.index_le (hend.lt_length_of_look hbegins.toOn)⟩

end SourceSurvey.Syntax
