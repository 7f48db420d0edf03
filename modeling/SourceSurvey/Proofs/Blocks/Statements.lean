import SourceSurvey.Proofs.Blocks.Grammar
import SourceSurvey.Proofs.Blocks.Simple

/-!
Where the statements of a source begin and how far its definitions reach, put together along the
derivation of the source.
-/

namespace SourceSurvey.Syntax

open SourceSurvey.Syntax.Parser

variable {all : List Piece} {c d : Cursor}

/-! ### One line -/

/-- Some statements of a line are read, the last of them first, and another one comes next. -/
structure OnLine (all : List Piece) (c : Cursor) (before : List Statement) (d : Cursor) : Prop
    extends d.Starts all where
  same : d.column = c.column
  rises : Rises all c.column c (startsOf before.reverse) d
  bare : Statement.extentsOf before.reverse = []

/-- One more statement of a line is read. -/
theorem OnLine.step {depth : Nat} {before : List Statement} {s : Statement} {d' : Cursor}
    (h : OnLine all c before d) (hs : Gives (simpleStatement (Rules.upTo depth)) d s d') :
    Rises all c.column c (startsOf (s :: before).reverse) d' ∧
      startsOf (s :: before).reverse ≠ [] ∧ Statement.extentsOf (s :: before).reverse = [] := by
  obtain ⟨hstarts, hextents⟩ := (single_of_simpleStatement hs).bare
  have hsingle := Rises.single h.toStarts (advances_simpleStatement depth hs)
  rw [h.same] at hsingle
  have hrises := h.rises.append hsingle
  rw [List.reverse_cons, startsOf_append, extentsOf_append, hstarts, h.bare, extentsOf_singleton,
    hextents]
  exact ⟨hrises, List.append_ne_nil_of_right_ne_nil _ (List.cons_ne_nil _ _), rfl⟩

theorem reads_statementLine {depth : Nat} {statements : List Statement} (hc : c.Starts all)
    (hmeasured : Measured all)
    (h : Gives (statementLine (Rules.upTo depth)) c statements d) :
    Reads all c.column c statements d ∧ Statement.extentsOf statements = [] := by
  refine Gives.of_loop (OnLine all c)
    (fun statements d => Reads all c.column c statements d ∧ Statement.extentsOf statements = [])
    ?_ h ⟨hc, rfl, .nil (Nat.le_refl _) rfl, rfl⟩
  intro before d r d' hbefore hround
  obtain ⟨s, d₁, hs, hround⟩ := gives_bind_iff.mp hround
  obtain ⟨hrises, hne, hextents⟩ := hbefore.step hs
  have hon := hbefore.toOn.of_reaches hs.reaches
  have hreads : ∀ {e : Cursor}, d₁.index ≤ e.index → breaksAt all e.ahead →
      Reads all c.column c (s :: before).reverse e := fun hle hends =>
    ⟨hrises.extend hne hle, hends, by rw [hextents]; exact nofun⟩
  obtain ⟨l, d₂, hlook, hround⟩ := gives_bind_iff.mp hround
  have hle := hlook.reaches.index_le
  split at hround
  · obtain ⟨rfl, rfl⟩ := gives_pure_iff.mp hround
    exact ⟨hreads hle (hlook.lineEnd_found hon hmeasured), hextents⟩
  · -- behind a semicolon the line ends, or another statement follows on the same line
    obtain ⟨l, d₃, hbehind, hround⟩ := gives_bind_iff.mp hround
    obtain ⟨u, d₄, htake, hlook'⟩ := gives_bind_iff.mp hbehind
    have hon' := (hlook.on_of_look hon).of_reaches htake.reaches
    have hle' := Nat.le_trans hle (Nat.le_trans htake.reaches.index_le hlook'.reaches.index_le)
    cases l with
    | lineEnd =>
      obtain ⟨rfl, rfl⟩ := gives_pure_iff.mp hround
      exact ⟨hreads hle' (hlook'.lineEnd_found hon' hmeasured), hextents⟩
    | token t =>
      obtain ⟨rfl, rfl⟩ := gives_pure_iff.mp hround
      obtain ⟨hsettled, hline⟩ := hlook'.token_found hon'
      refine ⟨⟨hlook'.on_of_look hon', hsettled, fun hbreaks => ?_⟩, ?_, ?_, hextents⟩
      · cases (hline hbreaks).1
      · rw [hlook'.column_eq, htake.column_eq, hlook.column_eq, hs.column_eq, hbefore.same]
      · exact hrises.extend hne hle'
    | indent column => cases hlook'.indent_expected
    | dedent => cases hlook'.dedent_expected
  · exact absurd hround not_gives_failure

/-! ### Bodies -/

theorem Opens.before {column : Nat} {c' : Cursor} {body : List Statement}
    (h : Opens all column c body d) (hskips : c'.Skips c) : Opens all column c' body d where
  toReads := h.toReads.before hskips
  deeper := h.deeper
  own := h.own

theorem Opens.empty {column : Nat} (hskips : c.Skips d) (hline : breaksAt all d.ahead) :
    Opens all column c [] d :=
  ⟨.nil hskips.reaches.index_le hskips.ahead hline, nofun, nofun⟩

/-- A body on the line of its heading contains no line and no definition. -/
theorem Opens.inline {e : Expected} {t : Token} {depth : Nat} {c' : Cursor} {body : List Statement}
    (hmeasured : Measured all) (hc : c.On all) (hlook : Gives (look e) c (.token t) c')
    (hlineEnd : e.lineEnd = true) (h : Gives (statementLine (Rules.upTo depth)) c' body d) :
    Opens all c.column c body d := by
  obtain ⟨hsettled, hbreaks⟩ := hlook.token_found hc
  have hline : ¬ breaksAt all c'.index := fun hline => by
    have hnone := (hbreaks hline).1
    rw [hlineEnd] at hnone
    cases hnone
  obtain ⟨hreads, hextents⟩ :=
    reads_statementLine ⟨hlook.on_of_look hc, hsettled, fun h => absurd h hline⟩ hmeasured h
  rw [hlook.column_eq] at hreads
  refine ⟨hreads.before hlook.skips_of_look, fun b hb hbreak => ?_, by rw [hextents]; exact nofun⟩
  obtain hfirst | ⟨hnil, -⟩ := hreads.first
  · rw [hfirst, hsettled] at hb
    cases hb
    exact absurd hbreak hline
  · rw [hnil] at hb
    cases hb

/-- A body on lines of its own ends before a line that is indented less. -/
theorem Opens.indented {column outer : Nat} {body : List Statement}
    (hreads : Reads all column c body d) (hline : breaksAt all c.ahead)
    (hcolumn : columnAt all c.ahead = column) (hless : outer < column)
    (hbehind : columnAt all d.ahead < column) : Opens all outer c body d := by
  refine ⟨hreads.mono (Nat.le_of_lt hless), fun b hb _ => ?_, hreads.fresh hline⟩
  have hfirst : columnAt all b = column := by
    obtain hfirst | ⟨hnil, -⟩ := hreads.first
    · rw [hfirst] at hb
      rw [← Option.some.inj hb, hcolumn]
    · rw [hnil] at hb
      cases hb
  rw [← hfirst] at hbehind hreads
  exact ⟨hreads.deep, hreads.ends, hbehind⟩

/-! ### Derivations -/

/-- Under the decorators of a definition another line begins, at the same column. -/
theorem Decorators.rises {decorators : List Nat} (h : Decorators c decorators d)
    (hmeasured : Measured all) (hc : c.Starts all) :
    d.Starts all ∧ Rises all c.column c decorators d ∧
      (breaksAt all d.ahead ∨ d.ahead = c.ahead) := by
  induction h with
  | none => exact ⟨hc, .nil (Nat.le_refl _) rfl, .inr rfl⟩
  | snoc hbefore _ hcrosses hlt hline hnext ih =>
    obtain ⟨hstarts, hrises, -⟩ := ih
    have hon := hstarts.toOn.of_reaches hcrosses.toReaches
    have hends := hline.lineEnd_found hon hmeasured
    have hfound := gives_next_iff.mp hnext
    have hhere := Rises.single hstarts
      (Nat.lt_of_lt_of_le hlt (hline.reaches.trans hnext.reaches).index_le)
    rw [hbefore.reaches.column_eq] at hhere
    exact ⟨hfound.starts (hline.on_of_look hon) (.inr (.inl ⟨rfl, rfl⟩)), hrises.append hhere,
      .inl (hfound.skips_of_look.ahead ▸ hends)⟩

theorem Reads.of_skips {column : Nat} (h : c.Skips d) (hends : breaksAt all c.ahead) :
    Reads all column c [] d :=
  .nil h.reaches.index_le h.ahead (h.ahead ▸ hends)

/-- Where a line comes next, it makes no difference whether any statement has been found. -/
theorem Reads.of_found {column : Nat} {statements : List Statement}
    (h : statements = [] ∧ c.Skips d ∨ Reads all column c statements d)
    (hends : breaksAt all c.ahead) : Reads all column c statements d := by
  obtain ⟨rfl, hskips⟩ | hreads := h
  · exact .of_skips hskips hends
  · exact hreads

/-- What is known of statements by how they are derived. Of statements that are looked for, none may
    have been found. -/
def Nonterminal.Reads (all : List Piece) :
    Nonterminal → Cursor → List Statement → Cursor → Prop
  | .statements, c, found, d => c.Starts all → Syntax.Reads all c.column c found d
  | .body, c, found, d => c.On all → Opens all c.column c found d
  | .further, c, found, d =>
    c.On all → found = [] ∧ c.Skips d ∨ Syntax.Reads all c.column c found d

theorem Derives.reads {n : Nonterminal} {statements : List Statement}
    (h : Derives n c statements d) (hmeasured : Measured all) : n.Reads all c statements d := by
  induction h with
  | line hread => exact fun hc => (reads_statementLine hc hmeasured hread).1
  | block _ hcrosses hlt hbody _ ihbody ihclauses =>
    intro hc
    have hc' := hc.toOn.of_reaches hcrosses.toReaches
    have hopens := ihbody hc'
    have hcolumn := hcrosses.toReaches.column_eq
    rw [hcolumn] at hopens
    have hclauses := ihclauses (hc'.of_reaches hbody.reaches)
    rw [hbody.reaches.column_eq, hcolumn] at hclauses
    exact .block hc hlt hopens (.of_found hclauses hopens.ends)
  | definition hdecorators _ _ hcrosses hlt _ ihbody =>
    intro hc
    obtain ⟨hstarts, hrises, hfresh⟩ := hdecorators.rises hmeasured hc
    have hopens := ihbody (hstarts.toOn.of_reaches hcrosses.toReaches)
    rw [hcrosses.toReaches.column_eq] at hopens
    rw [← hdecorators.reaches.column_eq] at hrises ⊢
    exact .definition hrises hstarts hfresh hlt hopens
  | empty hlook =>
    exact fun hc => .empty hlook.skips_of_look (hlook.lineEnd_found hc hmeasured)
  | inline hlook hlineEnd hread => exact fun hc => .inline hmeasured hc hlook hlineEnd hread
  | @indented _ _ column _ c' d d' _ hlook hlines hend ih =>
    intro hc
    have hc' := hlook.on_of_look hc
    obtain ⟨hline, hcolumn, hless⟩ := hlook.indent_found hc hmeasured
    have hinside : Cursor.On all { c' with indents := column :: c'.indents } :=
      ⟨hc'.pieces, hc'.closed⟩
    have hon := hinside.of_reaches hlines.reaches
    obtain ⟨-, hbehind⟩ := hend.dedent_found hon hmeasured
    rw [hend.column_eq, hlines.reaches.column_eq] at hbehind
    have hreads := Reads.of_found (ih hinside) hline
    have hall : Reads all column c' _ { d' with indents := d'.indents.tail } :=
      (hreads.after hend.skips_of_look).congr (Nat.le_refl _) rfl (Nat.le_refl _) rfl
    rw [hlook.column_eq] at hless
    exact (Opens.indented hall hline hcolumn hless hbehind).before hlook.skips_of_look
  | none hskips => exact fun _ => .inl ⟨rfl, hskips⟩
  | found hlook hguards _ ih =>
    intro hc
    have hreads := ih (hlook.starts hc hguards)
    rw [hlook.column_eq] at hreads
    exact .inr (hreads.before hlook.skips_of_look)
  | append hfirst _ ih ih' =>
    intro hc
    have hsecond := ih' (hc.of_reaches hfirst.reaches)
    rw [hfirst.reaches.column_eq] at hsecond
    obtain ⟨rfl, hskips⟩ | hreads := ih hc
    · exact hsecond.imp (fun ⟨hnone, hskips'⟩ => ⟨hnone, hskips.trans hskips'⟩)
        fun hreads => hreads.before hskips
    · refine .inr ?_
      obtain ⟨rfl, hskips⟩ | hreads' := hsecond
      · rw [List.append_nil]
        exact hreads.after hskips
      · exact hreads.append hreads'

/-- The statements of a source that the grammar accepts. -/
theorem reads_of_ofPieces {m : Module} (hmeasured : Measured all)
    (h : Module.ofPieces all = .ok m) :
    m.body = [] ∨ ∃ d, Reads all 0 (Cursor.start all) m.body d ∧ d.index < all.length := by
  obtain ⟨d, e, hderives, hend⟩ := derivesSource_of_ofPieces h
  have hstart : (Cursor.start all).On all := ⟨rfl, rfl⟩
  have hlt := hend.lt_length_of_look (hstart.of_reaches hderives.reaches)
  obtain ⟨hnone, -⟩ | hreads := hderives.reads hmeasured hstart
  · exact .inl hnone
  · exact .inr ⟨d, hreads, Nat.lt_of_le_of_lt hend.reaches.index_le hlt⟩

end SourceSurvey.Syntax
