import SourceSurvey.Proofs.Balance.Lines
import SourceSurvey.Proofs.Blocks.Derivation
import SourceSurvey.Proofs.Syntax.Acceptance
import SourceSurvey.Proofs.Syntax.Progress

/-!
What the rules for statements read is derived. The rules are taken apart into their steps here and
nowhere else: what holds of the statements of all sources is shown by induction on their derivation.
-/

namespace SourceSurvey.Syntax

open SourceSurvey.Syntax.Parser

/-- Whatever a reader gives is derived. -/
def DerivesAll (reader : Parser (List Statement)) : Prop :=
  ∀ ⦃c statements d⦄, Gives reader c statements d → Derives .statements c statements d

/-! ### Decorators -/

theorem decorators_of_loop {depth : Nat} {c d : Cursor} {decorators : List Nat}
    (hat : c.Shows (some (.symbol .atSign)))
    (h : Gives (loop (decoratorStep (Rules.upTo depth)) []) c decorators d) :
    Decorators c decorators d := by
  have hrules := allBalanced_rulesUpTo depth
  refine Gives.of_loop
    (fun (before : List Nat) d => d.Shows (some (.symbol .atSign)) ∧ Decorators c before.reverse d)
    (fun decorators d => Decorators c decorators d) ?_ h ⟨hat, .none⟩
  rintro before d r d' ⟨hat, hbefore⟩ hround
  replace hround := gives_position_bind_iff.mp hround
  obtain ⟨u, d₁, hadvance, hround⟩ := gives_bind_iff.mp hround
  obtain ⟨u', d₂, hexpression, hround⟩ := gives_bind_iff.mp hround
  obtain ⟨l, d₃, hlook, hround⟩ := gives_bind_iff.mp hround
  have hcrosses := (hadvance.crosses (balanced_advance rfl).discard hat).trans
    (hexpression.crosses (hrules.phrases.expression _).discard d₁.shows_none)
  have hlt : d.index < d₂.index := Nat.lt_of_lt_of_le ((advances_advance _).discard hadvance)
    hexpression.reaches.index_le
  split at hround
  · obtain ⟨t, d₄, hnext, hround⟩ := gives_bind_iff.mp hround
    have hmore := hbefore.snoc hat hcrosses hlt hlook hnext
    rw [← List.reverse_cons] at hmore
    split at hround
    · next ht =>
      obtain ⟨rfl, rfl⟩ := gives_pure_iff.mp hround
      exact ⟨ht ▸ hnext.shows_of_next, hmore⟩
    · obtain ⟨rfl, rfl⟩ := gives_pure_iff.mp hround
      exact hmore
  · exact absurd hround not_gives_failure

/-! ### Bodies -/

/-- What stands at a cursor introduces a body: a whole phrase and a colon come before it. -/
def Introduces (c : Cursor) (body : List Statement) (d : Cursor) : Prop :=
  ∃ c', c.Crosses c' ∧ c.index < c'.index ∧ Derives .body c' body d

namespace Introduces

variable {b c d e : Cursor} {w : Word} {body clauses : List Statement}

theorem before (hcrosses : b.Crosses c) (h : Introduces c body d) : Introduces b body d := by
  obtain ⟨c', hcolon, hlt, hbody⟩ := h
  exact ⟨c', hcrosses.trans hcolon, Nat.lt_of_le_of_lt hcrosses.toReaches.index_le hlt, hbody⟩

theorem block (h : Introduces c body d) (hword : c.Shows (some (.word w)))
    (hclauses : Derives .further d clauses e) :
    Derives .statements c [.block c.index (body ++ clauses)] e := by
  obtain ⟨c', hcrosses, hlt, hbody⟩ := h
  exact .block hword hcrosses hlt hbody hclauses

/-- A statement that has a body and nothing else. -/
theorem bare (h : Introduces c body d) (hword : c.Shows (some (.word w))) :
    Derives .statements c [.block c.index body] d := by
  have hblock := h.block hword (.none (.refl d))
  rw [List.append_nil] at hblock
  exact hblock

theorem definition {decorators : List Nat} {kind : DefinitionKind} {name : Word}
    (h : Introduces c body d) (hdecorators : Decorators b decorators c)
    (hword : c.Shows (some (.word w)))
    (hheaded : ∀ ⦃all⦄, c.On all → Headed all c.index kind name) :
    Derives .statements b [.definition decorators c.index d.index kind name body] d := by
  obtain ⟨c', hcrosses, hlt, hbody⟩ := h
  exact .definition hdecorators hword hheaded hcrosses hlt hbody

end Introduces

/-- The expectation at the first token of a statement in the innermost block. -/
theorem guards_of_statementExpected {c d : Cursor} {e : Expected}
    (h : Gives statementExpected c e d) :
    c = d ∧ e.Guards c.column ∧ ({ e with handler := true } : Expected).Guards c.column := by
  obtain ⟨e', c', hask, hrest⟩ := gives_bind_iff.mp h
  obtain ⟨heq, rfl⟩ := gives_ask_iff.mp hask
  obtain ⟨rfl, rfl⟩ := gives_pure_iff.mp hrest
  cases heq
  refine ⟨rfl, ?_⟩
  cases hindents : c.indents with
  | nil =>
    have hcolumn : c.column = 0 := by rw [Cursor.column, hindents]; rfl
    exact ⟨.inr (.inr hcolumn), .inr (.inr hcolumn)⟩
  | cons column rest => exact ⟨.inl rfl, .inl rfl⟩

/-- What a round of a loop over statements does in a block at some column: it reads more of them, or
    ends the loop with those that were read. -/
def DerivesRound {σ : Type} (column : Nat) (read : σ → List Statement) (last : Cursor → Cursor → Prop)
    (step : σ → Parser (σ ⊕ List Statement)) : Prop :=
  ∀ ⦃s c r d⦄, c.column = column → Gives (step s) c r d →
    r.elim (fun s' => ∃ more, read s' = read s ++ more ∧ Derives .further c more d)
      fun statements => statements = read s ∧ last c d

theorem DerivesRound.derives {σ : Type} {c d : Cursor} {column : Nat} {read : σ → List Statement}
    {last : Cursor → Cursor → Prop} {step : σ → Parser (σ ⊕ List Statement)} {s : σ}
    {statements : List Statement} (hstep : DerivesRound column read last step)
    (hcolumn : c.column = column) (hs : read s = []) (h : Gives (loop step s) c statements d) :
    ∃ c', Derives .further c statements c' ∧ last c' d := by
  refine Gives.of_loop (fun s d => d.column = column ∧ Derives .further c (read s) d)
    (fun statements d => ∃ c', Derives .further c statements c' ∧ last c' d) ?_ h
    ⟨hcolumn, hs ▸ .none (.refl c)⟩
  rintro s c' r d ⟨hsame, hbefore⟩ hround
  have hresult := hstep hsame hround
  cases r with
  | inl s' =>
    obtain ⟨more, hread, hmore⟩ := hresult
    refine ⟨hround.column_eq.trans hsame, ?_⟩
    rw [hread]
    exact .append hbefore hmore
  | inr statements =>
    obtain ⟨rfl, hlast⟩ := hresult
    exact ⟨c', hbefore, hlast⟩

/-- The end of a block is found. -/
def Dedents (c d : Cursor) : Prop := ∃ e, Gives (look e) c .dedent d

theorem Parser.gives_inBlock_iff {α : Type} {c d : Cursor} {column : Nat} {body : Parser α} {a : α} :
    Gives (inBlock column body) c a d ↔
      ∃ d', Gives body { c with indents := column :: c.indents } a d' ∧
        { d' with indents := d'.indents.tail } = d := by
  constructor
  · intro h
    obtain ⟨⟨b, d'⟩, hbody, heq⟩ := Option.map_eq_some_iff.mp h
    cases heq
    exact ⟨d', hbody, rfl⟩
  · rintro ⟨d', hbody, rfl⟩
    exact Option.map_eq_some_iff.mpr ⟨(a, d'), hbody, rfl⟩

section Rules

variable {c d : Cursor} {depth : Nat} {statement : Parser (List Statement)}

/-- A body on lines of its own. -/
theorem derives_inBlock {σ : Type} {e : Expected} {column : Nat} {c' : Cursor}
    {read : σ → List Statement} {step : σ → Parser (σ ⊕ List Statement)} {s : σ}
    {body : List Statement} (hlook : Gives (look e) c (.indent column) c')
    (hstep : DerivesRound column read Dedents step) (hs : read s = [])
    (h : Gives (inBlock column (loop step s)) c' body d) : Derives .body c body d := by
  obtain ⟨d', hbody, rfl⟩ := gives_inBlock_iff.mp h
  obtain ⟨d'', hlines, e', hend⟩ := hstep.derives rfl hs hbody
  exact .indented hlook hlines hend

variable (hstatement : DerivesAll statement)

include hstatement

theorem derivesRound_blockStep {column : Nat} :
    DerivesRound column (fun found => found.reverse.flatten) Dedents (blockStep statement) := by
  intro before c r d _ h
  obtain ⟨l, c₁, hlook, h⟩ := gives_bind_iff.mp h
  split at h
  · obtain ⟨rfl, rfl⟩ := gives_pure_iff.mp h
    exact ⟨rfl, _, hlook⟩
  · obtain ⟨found, c₂, hfound, h⟩ := gives_bind_iff.mp h
    obtain ⟨rfl, rfl⟩ := gives_pure_iff.mp h
    refine ⟨found, ?_, .found hlook (.inl rfl) (hstatement hfound)⟩
    simp only [List.reverse_cons, List.flatten_append, List.flatten_singleton]
  · exact absurd h not_gives_failure

theorem derives_suite {body : List Statement}
    (h : Gives (suite (Rules.upTo depth) statement) c body d) : Derives .body c body d := by
  obtain ⟨l, c₁, hlook, h⟩ := gives_bind_iff.mp h
  cases l with
  | lineEnd =>
    obtain ⟨rfl, rfl⟩ := gives_pure_iff.mp h
    exact .empty hlook
  | token t => exact .inline hlook rfl h
  | dedent => exact absurd h not_gives_failure
  | indent column => exact derives_inBlock hlook (derivesRound_blockStep hstatement) rfl h

/-- A body is read behind its colon. -/
theorem introduces_of_colonSuite {body : List Statement}
    (h : Gives (colonSuite (Rules.upTo depth) statement) c body d) : Introduces c body d := by
  obtain ⟨u, c', hcolon, h⟩ := gives_bind_iff.mp h
  have hadvances : (expect .token (.symbol .colon)).Advances :=
    advances_bind _ fun t => .ite advances_take.discard advances_failure
  exact ⟨c', hcolon.crosses (balanced_expect rfl) c.shows_none, hadvances hcolon,
    derives_suite hstatement h⟩

theorem introduces_of_conditionSuite {w : Word} {body : List Statement}
    (hword : c.Shows (some (.word w)))
    (h : Gives (conditionSuite (Rules.upTo depth) statement) c body d) : Introduces c body d := by
  have hrules := allBalanced_rulesUpTo depth
  obtain ⟨u, c₁, hadvance, h⟩ := gives_bind_iff.mp h
  obtain ⟨u', c₂, hexpression, h⟩ := gives_bind_iff.mp h
  have hcondition := (hadvance.crosses (balanced_advance rfl).discard hword).trans
    (hexpression.crosses (hrules.phrases.expression _).discard c₁.shows_none)
  exact (introduces_of_colonSuite hstatement h).before hcondition

/-! ### Clauses -/

theorem derives_bareClause {w : Word} {s : Statement} (hword : c.Shows (some (.word w)))
    (h : Gives (bareClause (Rules.upTo depth) statement) c s d) : Derives .statements c [s] d := by
  replace h := gives_position_bind_iff.mp h
  obtain ⟨u, c₁, hpass, h⟩ := gives_bind_iff.mp h
  obtain ⟨body, c₂, hbody, h⟩ := gives_bind_iff.mp h
  obtain ⟨rfl, rfl⟩ := gives_pure_iff.mp h
  exact ((introduces_of_colonSuite hstatement hbody).before
    (hpass.crosses (balanced_pass rfl) hword)).bare hword

theorem derives_optionalClause {e : Expected} {w : Word} {clauses : List Statement}
    (he : e.Guards c.column)
    (h : Gives (optionalClause (Rules.upTo depth) statement e w) c clauses d) :
    Derives .further c clauses d := by
  obtain ⟨l, c₁, hlook, h⟩ := gives_bind_iff.mp h
  have hnone : Derives .further c [] c₁ := .none hlook.skips_of_look
  split at h
  · split at h
    · next hword =>
      subst hword
      obtain ⟨s, c₂, hclause, h⟩ := gives_bind_iff.mp h
      obtain ⟨rfl, rfl⟩ := gives_pure_iff.mp h
      exact .found hlook he (derives_bareClause hstatement (nesting_of_look hlook).2 hclause)
    · obtain ⟨rfl, rfl⟩ := gives_pure_iff.mp h
      exact hnone
  · obtain ⟨rfl, rfl⟩ := gives_pure_iff.mp h
    exact hnone

omit hstatement in
/-- Clauses end before anything else. -/
theorem DerivesRound.clauses {step : List Statement → Parser (List Statement ⊕ List Statement)}
    {clauses : List Statement} (hstep : DerivesRound c.column List.reverse Cursor.Skips step)
    (h : Gives (loop step []) c clauses d) : Derives .further c clauses d := by
  obtain ⟨c', hclauses, hskips⟩ := hstep.derives rfl rfl h
  have hall := Derives.append hclauses (.none hskips)
  rw [List.append_nil] at hall
  exact hall

theorem derivesRound_conditionStep {column : Nat} {e : Expected} (he : e.Guards column) :
    DerivesRound column List.reverse Cursor.Skips
      (conditionStep (Rules.upTo depth) statement e) := by
  rintro before c r d rfl h
  obtain ⟨l, c₁, hlook, h⟩ := gives_bind_iff.mp h
  replace h := gives_position_bind_iff.mp h
  have hskips := hlook.skips_of_look
  split at h
  · split at h
    · next hword =>
      subst hword
      obtain ⟨body, c₂, hbody, h⟩ := gives_bind_iff.mp h
      obtain ⟨rfl, rfl⟩ := gives_pure_iff.mp h
      have hshows := (nesting_of_look hlook).2
      exact ⟨_, List.reverse_cons, .found hlook he
        ((introduces_of_conditionSuite hstatement hshows hbody).bare hshows)⟩
    · obtain ⟨rfl, rfl⟩ := gives_pure_iff.mp h
      exact ⟨rfl, hskips⟩
  · obtain ⟨rfl, rfl⟩ := gives_pure_iff.mp h
    exact ⟨rfl, hskips⟩

/-! ### Statements with bodies -/

theorem derives_ifStatement {w : Word} {s : Statement} (hword : c.Shows (some (.word w)))
    (h : Gives (ifStatement (Rules.upTo depth) statement) c s d) :
    Derives .statements c [s] d := by
  replace h := gives_position_bind_iff.mp h
  obtain ⟨body, c₁, hbody, h⟩ := gives_bind_iff.mp h
  obtain ⟨e, c₂, he, h⟩ := gives_bind_iff.mp h
  obtain ⟨rfl, he, -⟩ := guards_of_statementExpected he
  obtain ⟨clauses, c₃, hclauses, h⟩ := gives_bind_iff.mp h
  obtain ⟨last, c₄, hlast, h⟩ := gives_bind_iff.mp h
  obtain ⟨rfl, rfl⟩ := gives_pure_iff.mp h
  have hfurther := (derivesRound_conditionStep hstatement he).clauses hclauses
  rw [← hclauses.column_eq] at he
  rw [List.append_assoc]
  exact (introduces_of_conditionSuite hstatement hword hbody).block hword
    (.append hfurther (derives_optionalClause hstatement he hlast))

theorem derives_whileStatement {w : Word} {s : Statement} (hword : c.Shows (some (.word w)))
    (h : Gives (whileStatement (Rules.upTo depth) statement) c s d) :
    Derives .statements c [s] d := by
  replace h := gives_position_bind_iff.mp h
  obtain ⟨body, c₁, hbody, h⟩ := gives_bind_iff.mp h
  obtain ⟨e, c₂, he, h⟩ := gives_bind_iff.mp h
  obtain ⟨rfl, he, -⟩ := guards_of_statementExpected he
  obtain ⟨last, c₃, hlast, h⟩ := gives_bind_iff.mp h
  obtain ⟨rfl, rfl⟩ := gives_pure_iff.mp h
  exact (introduces_of_conditionSuite hstatement hword hbody).block hword
    (derives_optionalClause hstatement he hlast)

section Prefixed

variable {b : Cursor} {v w : Word} {s : Statement} (hstart : b.Shows (some (.word v)))
  (hcrosses : b.Crosses c) (hword : c.Shows (some (.word w)))

include hstart hcrosses hword

theorem derives_forStatement
    (h : Gives (forStatement (Rules.upTo depth) statement b.index) c s d) :
    Derives .statements b [s] d := by
  obtain ⟨u, c₁, hheading, h⟩ := gives_bind_iff.mp h
  obtain ⟨body, c₂, hbody, h⟩ := gives_bind_iff.mp h
  obtain ⟨e, c₃, he, h⟩ := gives_bind_iff.mp h
  obtain ⟨rfl, he, -⟩ := guards_of_statementExpected he
  obtain ⟨last, c₄, hlast, h⟩ := gives_bind_iff.mp h
  obtain ⟨rfl, rfl⟩ := gives_pure_iff.mp h
  have hall := hcrosses.trans
    (hheading.crosses (balanced_forHeading (allBalanced_rulesUpTo depth) rfl) hword)
  exact ((introduces_of_colonSuite hstatement hbody).before hall).block hstart
    (derives_optionalClause hstatement he hlast)

theorem derives_withStatement
    (h : Gives (withStatement (Rules.upTo depth) statement b.index) c s d) :
    Derives .statements b [s] d := by
  have hrules := allBalanced_rulesUpTo depth
  obtain ⟨u, c₁, hadvance, h⟩ := gives_bind_iff.mp h
  obtain ⟨u', c₂, hitems, h⟩ := gives_bind_iff.mp h
  obtain ⟨body, c₃, hbody, h⟩ := gives_bind_iff.mp h
  obtain ⟨rfl, rfl⟩ := gives_pure_iff.mp h
  have hall := (hcrosses.trans (hadvance.crosses (balanced_advance rfl).discard hword)).trans
    (hitems.crosses (balanced_expressionList hrules.phrases _).discard c₁.shows_none)
  exact ((introduces_of_colonSuite hstatement hbody).before hall).bare hstart

end Prefixed

theorem derives_handler {group : Bool} {w : Word} {s : Statement}
    (hword : c.Shows (some (.word w))) (hstar : group = true → Gives starFollows c true c)
    (h : Gives (handler (Rules.upTo depth) statement group) c s d) :
    Derives .statements c [s] d := by
  replace h := gives_position_bind_iff.mp h
  obtain ⟨u, c₁, hheading, h⟩ := gives_bind_iff.mp h
  obtain ⟨body, c₂, hbody, h⟩ := gives_bind_iff.mp h
  obtain ⟨rfl, rfl⟩ := gives_pure_iff.mp h
  have hlevel := nesting_of_handlerHeading (allBalanced_rulesUpTo depth) rfl hword hstar hheading
  exact ((introduces_of_colonSuite hstatement hbody).before ⟨hheading.reaches, hlevel⟩).bare hword

theorem derivesRound_handlerStep {column : Nat} {group : Bool} {e : Expected}
    (he : e.Guards column) :
    DerivesRound column List.reverse Cursor.Skips
      (handlerStep (Rules.upTo depth) statement group e) := by
  rintro before c r d rfl h
  obtain ⟨l, c₁, hlook, h⟩ := gives_bind_iff.mp h
  have hskips := hlook.skips_of_look
  split at h
  · obtain ⟨star, c₂, hstar, h⟩ := gives_bind_iff.mp h
    obtain ⟨-, rfl⟩ := gives_ask_iff.mp hstar
    split at h
    · next hfound =>
      simp only [Bool.and_eq_true, decide_eq_true_iff, Bool.or_eq_true, Bool.not_eq_true'] at hfound
      obtain ⟨htoken, hgroup⟩ := hfound
      obtain ⟨s, c₃, hs, h⟩ := gives_bind_iff.mp h
      obtain ⟨rfl, rfl⟩ := gives_pure_iff.mp h
      subst htoken
      have hfollows : group = true → Gives starFollows c₁ true c₁ := by
        rintro rfl
        obtain hgroup | rfl := hgroup
        · cases hgroup
        · exact hstar
      exact ⟨_, List.reverse_cons, .found hlook he
        (derives_handler hstatement (nesting_of_look hlook).2 hfollows hs)⟩
    · obtain ⟨rfl, rfl⟩ := gives_pure_iff.mp h
      exact ⟨rfl, hskips⟩
  · obtain ⟨rfl, rfl⟩ := gives_pure_iff.mp h
    exact ⟨rfl, hskips⟩

theorem derives_tryStatement {w : Word} {s : Statement} (hword : c.Shows (some (.word w)))
    (h : Gives (tryStatement (Rules.upTo depth) statement) c s d) :
    Derives .statements c [s] d := by
  replace h := gives_position_bind_iff.mp h
  obtain ⟨u, c₁, hpass, h⟩ := gives_bind_iff.mp h
  obtain ⟨body, c₂, hbody, h⟩ := gives_bind_iff.mp h
  obtain ⟨first, c₃, hfirst, h⟩ := gives_bind_iff.mp h
  have hintroduces := (introduces_of_colonSuite hstatement hbody).before
    (hpass.crosses (balanced_pass rfl) hword)
  split at h
  · next hfinally =>
    subst hfinally
    obtain ⟨last, c₄, hlast, h⟩ := gives_bind_iff.mp h
    obtain ⟨rfl, rfl⟩ := gives_pure_iff.mp h
    exact hintroduces.block hword (.found (gives_next_iff.mp hfirst) (.inr (.inl ⟨rfl, rfl⟩))
      (derives_bareClause hstatement hfirst.shows_of_next hlast))
  · obtain ⟨u', c₄, hguard, h⟩ := gives_bind_iff.mp h
    obtain ⟨-, rfl⟩ := gives_guard_iff.mp hguard
    obtain ⟨group, c₅, hgroup, h⟩ := gives_bind_iff.mp h
    obtain ⟨-, rfl⟩ := gives_ask_iff.mp hgroup
    obtain ⟨e, c₆, he, h⟩ := gives_bind_iff.mp h
    obtain ⟨rfl, -, he⟩ := guards_of_statementExpected he
    obtain ⟨handlers, c₇, hhandlers, h⟩ := gives_bind_iff.mp h
    obtain ⟨e', c₈, he', h⟩ := gives_bind_iff.mp h
    obtain ⟨rfl, he', -⟩ := guards_of_statementExpected he'
    obtain ⟨otherwise, c₉, hotherwise, h⟩ := gives_bind_iff.mp h
    obtain ⟨last, c₁₀, hlast, h⟩ := gives_bind_iff.mp h
    obtain ⟨rfl, rfl⟩ := gives_pure_iff.mp h
    have hnone : Derives .further c₂ [] c₃ := .none (gives_next_iff.mp hfirst).skips_of_look
    have hcaught := hnone.append ((derivesRound_handlerStep hstatement he).clauses hhandlers)
    have helse := hcaught.append (derives_optionalClause hstatement he' hotherwise)
    rw [← hotherwise.column_eq] at he'
    have hall := helse.append (derives_optionalClause hstatement he' hlast)
    rw [List.nil_append] at hall
    rw [List.append_assoc, List.append_assoc, ← List.append_assoc handlers]
    exact hintroduces.block hword hall

/-! ### Definitions -/

section Definitions

variable {b : Cursor} {decorators : List Nat} {s : Statement}
  (hdecorators : Decorators b decorators c)

include hdecorators

theorem derives_functionDefinition {v w : Word} {c' : Cursor} (hstart : c.Shows (some (.word v)))
    (hcrosses : c.Crosses c') (hword : c'.Shows (some (.word w)))
    (hheaded : ∀ {name parameters e}, Gives (functionHeading (Rules.upTo depth)) c'
      (name, parameters) e → ∀ ⦃all⦄, c.On all → Headed all c.index (.function parameters) name)
    (h : Gives (functionDefinition (Rules.upTo depth) statement decorators c.index) c' s d) :
    Derives .statements b [s] d := by
  obtain ⟨⟨name, parameters⟩, c₁, hheading, h⟩ := gives_bind_iff.mp h
  obtain ⟨body, c₂, hbody, h⟩ := gives_bind_iff.mp h
  replace h := gives_position_bind_iff.mp h
  obtain ⟨rfl, rfl⟩ := gives_pure_iff.mp h
  have hall := hcrosses.trans
    (hheading.crosses (balanced_functionHeading (allBalanced_rulesUpTo depth) rfl) hword)
  exact ((introduces_of_colonSuite hstatement hbody).before hall).definition hdecorators hstart
    (hheaded hheading)

theorem derives_classDefinition (hword : c.Shows (some (.word Keyword.class_)))
    (h : Gives (classDefinition (Rules.upTo depth) statement decorators) c s d) :
    Derives .statements b [s] d := by
  replace h := gives_position_bind_iff.mp h
  obtain ⟨name, c₁, hheading, h⟩ := gives_bind_iff.mp h
  obtain ⟨body, c₂, hbody, h⟩ := gives_bind_iff.mp h
  replace h := gives_position_bind_iff.mp h
  obtain ⟨rfl, rfl⟩ := gives_pure_iff.mp h
  have hcrosses :=
    hheading.crosses (balanced_classHeading (allBalanced_rulesUpTo depth) rfl) hword
  exact ((introduces_of_colonSuite hstatement hbody).before hcrosses).definition hdecorators hword
    fun _ hc => .classType hc hword hheading

/-- A function that begins with its own word. -/
theorem derives_plainFunction (hword : c.Shows (some (.word Keyword.def_)))
    (h : Gives (functionDefinition (Rules.upTo depth) statement decorators c.index) c s d) :
    Derives .statements b [s] d :=
  derives_functionDefinition hstatement hdecorators hword (.refl c) hword
    (fun hread _ hc => .function hc hword hread) h

/-- A function that begins with the word before its own. -/
theorem derives_asyncFunction {e : Expected} {c' : Cursor}
    (hasync : c.Shows (some (.word Keyword.async_)))
    (hadvance : Gives (advance e) c (.word Keyword.def_) c')
    (h : Gives (functionDefinition (Rules.upTo depth) statement decorators c.index) c' s d) :
    Derives .statements b [s] d :=
  derives_functionDefinition hstatement hdecorators hasync (hadvance.crosses_of_advance hasync rfl)
    hadvance.shows_of_advance (fun hread _ hc => .asyncFunction hc hasync hadvance hread) h

end Definitions

theorem derives_decorated {s : Statement} (hat : c.Shows (some (.symbol .atSign)))
    (h : Gives (decorated (Rules.upTo depth) statement) c s d) : Derives .statements c [s] d := by
  obtain ⟨decorators, c₁, hloop, h⟩ := gives_bind_iff.mp h
  replace h := gives_position_bind_iff.mp h
  obtain ⟨t, c₂, hhead, h⟩ := gives_bind_iff.mp h
  obtain ⟨hfound, rfl⟩ := gives_head_iff.mp hhead
  have hdecorators := decorators_of_loop hat hloop
  have hshows := Cursor.shows_some.mpr hfound
  split at h
  · split_ifs at h
    · next hword =>
      subst hword
      exact derives_plainFunction hstatement hdecorators hshows h
    · next _ hword =>
      subst hword
      exact derives_classDefinition hstatement hdecorators hshows h
    · next _ _ hword =>
      subst hword
      obtain ⟨t, c₃, hadvance, h⟩ := gives_bind_iff.mp h
      obtain ⟨u, c₄, hguard, h⟩ := gives_bind_iff.mp h
      obtain ⟨rfl, rfl⟩ := gives_guard_iff.mp hguard
      exact derives_asyncFunction hstatement hdecorators hshows hadvance h
    · exact absurd h not_gives_failure
  · exact absurd h not_gives_failure

/-! ### Cases -/

theorem derives_caseClause {w : Word} {s : Statement} (hword : c.Shows (some (.word w)))
    (h : Gives (caseClause (Rules.upTo depth) statement) c s d) : Derives .statements c [s] d := by
  replace h := gives_position_bind_iff.mp h
  obtain ⟨u, c₁, hpatterns, h⟩ := gives_bind_iff.mp h
  obtain ⟨t, c₂, hnext, h⟩ := gives_bind_iff.mp h
  have hcrosses := (hpatterns.crosses
    (balanced_casePatterns (allBalanced_rulesUpTo depth) rfl) hword).trans hnext.crosses_of_next
  split at h
  · next hif =>
    subst hif
    obtain ⟨body, c₃, hbody, h⟩ := gives_bind_iff.mp h
    obtain ⟨rfl, rfl⟩ := gives_pure_iff.mp h
    exact ((introduces_of_conditionSuite hstatement hnext.shows_of_next hbody).before
      hcrosses).bare hword
  · obtain ⟨body, c₃, hbody, h⟩ := gives_bind_iff.mp h
    obtain ⟨rfl, rfl⟩ := gives_pure_iff.mp h
    exact ((introduces_of_colonSuite hstatement hbody).before hcrosses).bare hword

theorem derivesRound_caseStep {column : Nat} :
    DerivesRound column List.reverse Dedents (caseStep (Rules.upTo depth) statement) := by
  intro before c r d _ h
  obtain ⟨l, c₁, hlook, h⟩ := gives_bind_iff.mp h
  split at h
  · obtain ⟨rfl, rfl⟩ := gives_pure_iff.mp h
    exact ⟨rfl, _, hlook⟩
  · obtain ⟨u, c₂, hguard, h⟩ := gives_bind_iff.mp h
    obtain ⟨rfl, rfl⟩ := gives_guard_iff.mp hguard
    obtain ⟨s, c₃, hs, h⟩ := gives_bind_iff.mp h
    obtain ⟨rfl, rfl⟩ := gives_pure_iff.mp h
    exact ⟨_, List.reverse_cons, .found hlook (.inl rfl)
      (derives_caseClause hstatement (nesting_of_look hlook).2 hs)⟩
  · exact absurd h not_gives_failure

theorem derives_matchStatement {w : Word} {s : Statement} (hword : c.Shows (some (.word w)))
    (h : Gives (matchStatement (Rules.upTo depth) statement) c s d) :
    Derives .statements c [s] d := by
  have hrules := allBalanced_rulesUpTo depth
  replace h := gives_position_bind_iff.mp h
  obtain ⟨u, c₁, hoperand, h⟩ := gives_bind_iff.mp h
  obtain ⟨u', c₂, hsubject, h⟩ := gives_bind_iff.mp h
  obtain ⟨u'', c₃, hcolon, h⟩ := gives_bind_iff.mp h
  have hcrosses := ((hoperand.crosses (balanced_advanceToOperand rfl).discard hword).trans
    (hsubject.crosses (balanced_expressionList hrules.phrases _).discard c₁.shows_none)).trans
    (hcolon.crosses (balanced_expect rfl) c₂.shows_none)
  have hlt : c.index < c₃.index := by
    have hadvances : advanceToOperand.Advances := (advances_advance _).bind _
    exact Nat.lt_of_lt_of_le (hadvances.discard hoperand)
      (hsubject.reaches.trans hcolon.reaches).index_le
  have hblock : ∀ {body}, Derives .body c₃ body d → Derives .statements c [.block c.index body] d :=
    fun hbody => Introduces.bare ⟨c₃, hcrosses, hlt, hbody⟩ hword
  obtain ⟨l, c₄, hlook, h⟩ := gives_bind_iff.mp h
  split at h
  · obtain ⟨rfl, rfl⟩ := gives_pure_iff.mp h
    exact hblock (.empty hlook)
  · obtain ⟨cases, c₅, hcases, h⟩ := gives_bind_iff.mp h
    obtain ⟨rfl, rfl⟩ := gives_pure_iff.mp h
    exact hblock (derives_inBlock hlook (derivesRound_caseStep hstatement) rfl hcases)
  · exact absurd h not_gives_failure

/-! ### Any statement -/

/-- What a reader gives at one cursor is derived. -/
def DerivesHere (c : Cursor) (reader : Parser (List Statement)) : Prop :=
  ∀ ⦃statements d⦄, Gives reader c statements d → Derives .statements c statements d

omit hstatement in
theorem DerivesHere.iteOf {q : Prop} [Decidable q] {first second : Parser (List Statement)}
    (hfirst : q → DerivesHere c first) (hsecond : DerivesHere c second) :
    DerivesHere c (if q then first else second) := by
  split
  · next hq => exact hfirst hq
  · exact hsecond

omit hstatement in
/-- A rule that gives one statement. -/
theorem derivesHere_single {reader : Parser Statement}
    (hreader : ∀ ⦃s d⦄, Gives reader c s d → Derives .statements c [s] d) :
    DerivesHere c (do return [← reader]) := by
  intro statements d h
  obtain ⟨s, c', hs, h⟩ := gives_bind_iff.mp h
  obtain ⟨rfl, rfl⟩ := gives_pure_iff.mp h
  exact hreader hs

omit hstatement in
/-- A rule for what follows a word, or else for what begins with it. -/
theorem derivesHere_advanceBefore {e : Expected} {t : Token} {reader : Parser Statement}
    {other : Parser (List Statement)}
    (hreader : ∀ ⦃c' s d⦄, Gives (advance e) c t c' → Gives reader c' s d →
      Derives .statements c [s] d)
    (hother : DerivesHere c other) :
    DerivesHere c (do if ← advanceBefore e t then return [← reader] else other) := by
  intro statements d h
  obtain ⟨found, c', hbefore, h⟩ := gives_bind_iff.mp h
  cases found with
  | true =>
    rw [if_pos rfl] at h
    obtain ⟨s, c'', hs, h⟩ := gives_bind_iff.mp h
    obtain ⟨rfl, rfl⟩ := gives_pure_iff.mp h
    exact hreader (advance_of_advanceBefore hbefore) hs
  | false =>
    rw [if_neg Bool.false_ne_true] at h
    rw [← eq_of_advanceBefore hbefore] at h
    exact hother h

theorem derivesAll_statementRule : DerivesAll (statementRule (Rules.upTo depth) statement) := by
  intro c statements d h
  have hline : DerivesHere c (statementLine (Rules.upTo depth)) := fun _ _ hread => .line hread
  replace h := gives_position_bind_iff.mp h
  obtain ⟨u, c₁, hhead, h⟩ := gives_bind_iff.mp h
  obtain ⟨hfound, rfl⟩ := gives_head_iff.mp hhead
  have hu := Cursor.shows_some.mpr hfound
  refine (?_ : DerivesHere c _) h
  split
  · exact derivesHere_single fun _ _ => derives_decorated hstatement hu
  · refine .iteOf (fun _ => ?_) (.iteOf (fun _ => ?_) (.iteOf (fun _ => ?_) (.iteOf (fun _ => ?_)
      (.iteOf (fun _ => ?_) ?_))))
    · exact derivesHere_single fun _ _ => derives_ifStatement hstatement hu
    · exact derivesHere_single fun _ _ => derives_whileStatement hstatement hu
    · exact derivesHere_single fun _ _ => derives_forStatement hstatement hu (.refl c) hu
    · exact derivesHere_single fun _ _ => derives_withStatement hstatement hu (.refl c) hu
    · exact derivesHere_single fun _ _ => derives_tryStatement hstatement hu
    · refine .iteOf (fun hdef => ?_) (.iteOf (fun hclass => ?_) (.iteOf (fun _ => ?_)
        (.iteOf (fun hasync => ?_) hline)))
      · subst hdef
        exact derivesHere_single fun _ _ => derives_plainFunction hstatement .none hu
      · subst hclass
        exact derivesHere_single fun _ _ => derives_classDefinition hstatement .none hu
      · intro statements d h
        obtain h | h := h.of_orElse
        · exact hline h
        · exact derivesHere_single (fun _ _ => derives_matchStatement hstatement hu) h
      · subst hasync
        refine derivesHere_advanceBefore (fun c' s d hadvance => ?_)
          (derivesHere_advanceBefore (fun c' s d hadvance => ?_)
            (derivesHere_advanceBefore (fun c' s d hadvance => ?_) hline))
        · exact derives_asyncFunction hstatement .none hu hadvance
        · exact derives_forStatement hstatement hu (hadvance.crosses_of_advance hu rfl)
            hadvance.shows_of_advance
        · exact derives_withStatement hstatement hu (hadvance.crosses_of_advance hu rfl)
            hadvance.shows_of_advance
  · exact hline

omit hstatement in
theorem derivesAll_statementUpTo (levels : Nat) :
    DerivesAll (statementUpTo (Rules.upTo depth) levels) := by
  induction levels with
  | zero => exact fun _ _ _ h => absurd h not_gives_failure
  | succ levels ih => exact derivesAll_statementRule ih

end Rules

/-! ### A whole source -/

/-- The statements of a source, up to its end. -/
def DerivesSource (c : Cursor) (statements : List Statement) : Prop :=
  ∃ d e, Derives .further c statements d ∧ Gives (look .operand) d (.token .finish) e

theorem derivesSource_of_readAll {c : Cursor} {statement : Parser (List Statement)} {rounds : Nat}
    {found : List (List Statement)} (hstatement : DerivesAll statement) (hcolumn : c.column = 0)
    (h : Module.readAll statement rounds c = .ok found) : DerivesSource c found.flatten := by
  induction rounds generalizing c found with
  | zero => cases h
  | succ rounds ih =>
    rw [Module.readAll] at h
    split at h
    · next d hlook =>
      cases h
      exact ⟨c, d, .none (.refl c), hlook⟩
    · next t c₁ hne hlook =>
      have hlook : Gives (look .operand) c (.token t) c₁ := hlook
      split at h
      · next first c₂ hfirst =>
        have hfirst : Gives statement c₁ first c₂ := hfirst
        obtain ⟨others, hothers, rfl⟩ := exists_of_map_eq_ok h
        have hsame := hfirst.column_eq.trans (hlook.column_eq.trans hcolumn)
        obtain ⟨d, e, hrest, hend⟩ := ih hsame hothers
        rw [List.flatten_cons]
        exact ⟨d, e, .append (.found hlook (.inr (.inr hcolumn)) (hstatement hfirst)) hrest, hend⟩
      · cases h
    · cases h

/-- The statements of a source that the grammar accepts are derived from its beginning to its end. -/
theorem derivesSource_of_ofPieces {all : List Piece} {m : Module} (h : Module.ofPieces all = .ok m) :
    DerivesSource (Cursor.start all) m.body := by
  obtain ⟨found, hread, rfl⟩ := exists_of_map_eq_ok h
  exact derivesSource_of_readAll (derivesAll_statementUpTo _) rfl hread

end SourceSurvey.Syntax
