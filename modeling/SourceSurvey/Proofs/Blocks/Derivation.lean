import SourceSurvey.Proofs.Balance.Nesting
import SourceSurvey.Proofs.Blocks.Looking
import SourceSurvey.Syntax.Module

/-!
How the statements of a source are derived: from lines, from bodies with what introduces them, and from
statements that are each found behind the last.
-/

namespace SourceSurvey.Syntax

open SourceSurvey.Syntax.Parser

/-- A whole phrase lies between two cursors: it leaves all brackets that it enters. -/
structure Cursor.Crosses (c d : Cursor) : Prop extends c.Reaches d where
  level : c.nesting = d.nesting

theorem Cursor.Crosses.refl (c : Cursor) : c.Crosses c := ⟨.refl c, rfl⟩

theorem Cursor.Crosses.trans {c d e : Cursor} (h : c.Crosses d) (h' : d.Crosses e) : c.Crosses e :=
  ⟨h.toReaches.trans h'.toReaches, h.level.trans h'.level⟩

theorem Cursor.Skips.refl (c : Cursor) : c.Skips c := ⟨⟨[], .refl c, List.forall_mem_nil _⟩, rfl⟩

theorem Cursor.Skips.trans {c d e : Cursor} (h : c.Skips d) (h' : d.Skips e) : c.Skips e := by
  obtain ⟨first, hfirst, hcomments⟩ := h.passes
  obtain ⟨second, hsecond, hcomments'⟩ := h'.passes
  exact ⟨⟨first ++ second, hfirst.trans hsecond, List.forall_mem_append.mpr ⟨hcomments, hcomments'⟩⟩,
    h'.formatting.trans h.formatting⟩

theorem Cursor.Skips.crosses {c d : Cursor} (h : c.Skips d) : c.Crosses d :=
  ⟨h.reaches, h.nesting_eq⟩

namespace Parser

variable {α : Type} {c d : Cursor} {e : Expected} {t : Option Token} {u v : Token}

theorem Gives.crosses {reader : Parser α} {a : α} (h : Gives reader c a d)
    (hreader : BalancedAt t reader) (ht : c.Shows t) : c.Crosses d := by
  have hlevel := hreader ht h
  rw [Int.zero_add] at hlevel
  exact ⟨h.reaches, hlevel⟩

theorem Gives.shows_of_next (h : Gives (next e) c v d) : d.Shows (some v) :=
  (nesting_of_look (gives_next_iff.mp h)).2

theorem Gives.shows_of_advance (h : Gives (advance e) c v d) : d.Shows (some v) := by
  obtain ⟨w, c', -, hnext⟩ := gives_bind_iff.mp h
  exact hnext.shows_of_next

theorem Gives.crosses_of_next (h : Gives (next e) c v d) : c.Crosses d :=
  (gives_next_iff.mp h).skips_of_look.crosses

theorem Gives.crosses_of_advance (h : Gives (advance e) c v d) (hu : c.Shows (some u))
    (hneutral : u.nesting = 0) : c.Crosses d := h.crosses (balanced_advance hneutral) hu

end Parser

/-! ### Definitions and their decorators -/

/-- How a definition begins: with the word of its kind, which `async` may come before, and the rest of
    a heading. -/
inductive Headed (all : List Piece) : Nat → DefinitionKind → Word → Prop
  | function {depth : Nat} {c d : Cursor} {name : Word} {parameters : List Parameter}
    (hc : c.On all) (hword : c.Shows (some (.word Keyword.def_)))
    (hread : Gives (functionHeading (Rules.upTo depth)) c (name, parameters) d) :
    Headed all c.index (.function parameters) name
  | asyncFunction {depth : Nat} {e : Expected} {b c d : Cursor} {name : Word}
    {parameters : List Parameter} (hb : b.On all) (hasync : b.Shows (some (.word Keyword.async_)))
    (hword : Gives (advance e) b (.word Keyword.def_) c)
    (hread : Gives (functionHeading (Rules.upTo depth)) c (name, parameters) d) :
    Headed all b.index (.function parameters) name
  | classType {depth : Nat} {c d : Cursor} {name : Word} (hc : c.On all)
    (hword : c.Shows (some (.word Keyword.class_)))
    (hread : Gives (classHeading (Rules.upTo depth)) c name d) : Headed all c.index .classType name

/-- Some decorators, each on a line of its own, with something on the next line, or none. -/
inductive Decorators : Cursor → List Nat → Cursor → Prop
  | none {c : Cursor} : Decorators c [] c
  | snoc {b c c' d d' : Cursor} {before : List Nat} {t : Token} (hbefore : Decorators b before c)
    (hat : c.Shows (some (.symbol .atSign))) (hcrosses : c.Crosses c') (hlt : c.index < c'.index)
    (hline : Gives (look .lineEnding) c' .lineEnd d) (hnext : Gives (next .token) d t d') :
    Decorators b (before ++ [c.index]) d'

theorem Decorators.reaches {c d : Cursor} {decorators : List Nat} (h : Decorators c decorators d) :
    c.Reaches d := by
  induction h with
  | none => exact .refl _
  | snoc _ _ hcrosses _ hline hnext ih =>
    exact ((ih.trans hcrosses.toReaches).trans hline.reaches).trans hnext.reaches

/-! ### Derivations -/

/-- What the rules for statements read: the statements at the cursor, a body from behind its colon, or
    any number of statements that are each found behind the last. -/
inductive Nonterminal
  | statements
  | body
  | further

/-- What is read from one cursor to another, and from which parts. -/
inductive Derives : Nonterminal → Cursor → List Statement → Cursor → Prop
  | line {depth : Nat} {c d : Cursor} {statements : List Statement}
    (hread : Gives (statementLine (Rules.upTo depth)) c statements d) :
    Derives .statements c statements d
  | block {c c' d e : Cursor} {w : Word} {body clauses : List Statement}
    (hword : c.Shows (some (.word w))) (hcrosses : c.Crosses c') (hlt : c.index < c'.index)
    (hbody : Derives .body c' body d) (hclauses : Derives .further d clauses e) :
    Derives .statements c [.block c.index (body ++ clauses)] e
  | definition {b c c' d : Cursor} {w name : Word} {decorators : List Nat} {kind : DefinitionKind}
    {body : List Statement} (hdecorators : Decorators b decorators c)
    (hword : c.Shows (some (.word w))) (hheaded : ∀ ⦃all⦄, c.On all → Headed all c.index kind name)
    (hcrosses : c.Crosses c') (hlt : c.index < c'.index) (hbody : Derives .body c' body d) :
    Derives .statements b [.definition decorators c.index d.index kind name body] d
  | empty {e : Expected} {c d : Cursor} (hlook : Gives (look e) c .lineEnd d) :
    Derives .body c [] d
  | inline {e : Expected} {depth : Nat} {t : Token} {c c' d : Cursor} {body : List Statement}
    (hlook : Gives (look e) c (.token t) c') (hlineEnd : e.lineEnd = true)
    (hread : Gives (statementLine (Rules.upTo depth)) c' body d) : Derives .body c body d
  | indented {e e' : Expected} {column : Nat} {c c' d d' : Cursor} {body : List Statement}
    (hlook : Gives (look e) c (.indent column) c')
    (hlines : Derives .further { c' with indents := column :: c'.indents } body d)
    (hend : Gives (look e') d .dedent d') :
    Derives .body c body { d' with indents := d'.indents.tail }
  | none {c d : Cursor} (hskips : c.Skips d) : Derives .further c [] d
  | found {e : Expected} {t : Token} {c c' d : Cursor} {statements : List Statement}
    (hlook : Gives (look e) c (.token t) c') (hguards : e.Guards c.column)
    (hfound : Derives .statements c' statements d) : Derives .further c statements d
  | append {c d e : Cursor} {first second : List Statement} (hfirst : Derives .further c first d)
    (hsecond : Derives .further d second e) : Derives .further c (first ++ second) e

/-- Reading inside a block passes the same pieces. -/
theorem Cursor.Reaches.leave {c d : Cursor} {column : Nat}
    (h : Cursor.Reaches { c with indents := column :: c.indents } d) :
    c.Reaches { d with indents := d.indents.tail } := by
  obtain ⟨passed, hpasses, hvalid⟩ := h.passes
  refine ⟨⟨passed, ⟨hpasses.pieces, hpasses.index, ?_, hpasses.budget⟩, hvalid⟩, h.closed⟩
  simp only [hpasses.indents, List.tail_cons]

theorem Derives.reaches {n : Nonterminal} {c d : Cursor} {statements : List Statement}
    (h : Derives n c statements d) : c.Reaches d := by
  induction h with
  | line hread => exact hread.reaches
  | block _ hcrosses _ _ _ hbody hclauses =>
    exact (hcrosses.toReaches.trans hbody).trans hclauses
  | definition hdecorators _ _ hcrosses _ _ hbody =>
    exact (hdecorators.reaches.trans hcrosses.toReaches).trans hbody
  | empty hlook => exact hlook.reaches
  | inline hlook _ hread => exact hlook.reaches.trans hread.reaches
  | indented hlook _ hend hlines => exact hlook.reaches.trans (hlines.trans hend.reaches).leave
  | none hskips => exact hskips.reaches
  | found hlook _ _ hfound => exact hlook.reaches.trans hfound
  | append _ _ hfirst hsecond => exact hfirst.trans hsecond

end SourceSurvey.Syntax
