import SourceSurvey.Proofs.Blocks.Grammar

/-!
How the statements of a source are put together: every statement is one of a line, or it has a body
and begins with a word or a sign of its own. What holds of the statements of single lines can so be
carried over to a whole source.
-/

namespace SourceSurvey.Syntax

open SourceSurvey.Syntax.Parser

/-- A token at which a statement with a body begins: a word, or the sign of a decorator. -/
def HeadsBody (all : List Piece) (i : Nat) : Prop :=
  ∃ p, all[i]? = some p ∧ ((∃ w, p.token = .word w) ∨ p.token = .symbol .atSign)

/-- Statements between two positions, put together from those that are read on single lines. -/
inductive Built (all : List Piece) : Nat → List Statement → Nat → Prop
  | nil {lo hi : Nat} (hle : lo ≤ hi) : Built all lo [] hi
  | line {lo hi depth : Nat} {c d : Cursor} {statements : List Statement} (hlo : lo ≤ c.index)
    (hc : c.On all) (hread : Gives (statementLine (Rules.upTo depth)) c statements d)
    (hhi : d.index ≤ hi) : Built all lo statements hi
  | block {lo start hi : Nat} {body : List Statement} (hlo : lo ≤ start)
    (hhead : HeadsBody all start) (hbody : Built all (start + 1) body hi) :
    Built all lo [.block start body] hi
  | definition {lo start stop hi : Nat} {decorators : List Nat} {kind : DefinitionKind}
    {name : Word} {body : List Statement} (hlo : ∀ t ∈ decorators ++ [start], lo ≤ t)
    (hascending : (decorators ++ [start]).Pairwise (· < ·))
    (hhead : ∀ t ∈ (decorators ++ [start]).head?, HeadsBody all t)
    (hheaded : Headed all start kind name) (hbody : Built all (start + 1) body stop)
    (hhi : stop ≤ hi) :
    Built all lo [.definition decorators start stop kind name body] hi
  | append {lo middle hi : Nat} {first second : List Statement} (hfirst : Built all lo first middle)
    (hsecond : Built all middle second hi) : Built all lo (first ++ second) hi

namespace Built

variable {all : List Piece} {lo lo' hi hi' : Nat} {statements : List Statement}

theorem mono (h : Built all lo statements hi) (hlo : lo' ≤ lo) (hhi : hi ≤ hi') :
    Built all lo' statements hi' := by
  induction h generalizing lo' hi' with
  | nil hle => exact .nil (Nat.le_trans hlo (Nat.le_trans hle hhi))
  | line hle hc hread hle' => exact .line (Nat.le_trans hlo hle) hc hread (Nat.le_trans hle' hhi)
  | block hle hhead _ ih => exact .block (Nat.le_trans hlo hle) hhead (ih (Nat.le_refl _) hhi)
  | definition hle hascending hhead hheaded hbody hle' =>
    exact .definition (fun t ht => Nat.le_trans hlo (hle t ht)) hascending hhead hheaded hbody
      (Nat.le_trans hle' hhi)
  | append _ _ ih ih' => exact .append (ih hlo (Nat.le_refl _)) (ih' (Nat.le_refl _) hhi)

end Built

variable {all : List Piece} {c d : Cursor}

theorem Cursor.On.headsBody {u : Token} (hc : c.On all) (hu : c.Shows (some u))
    (hkind : (∃ w, u = .word w) ∨ u = .symbol .atSign) : HeadsBody all c.index := by
  obtain ⟨p, hp, rfl⟩ := Option.map_eq_some_iff.mp (Cursor.shows_some.mp hu)
  obtain ⟨rest, hpieces⟩ := List.head?_eq_some_iff.mp hp
  exact ⟨p, hc.getElem? [] hpieces, hkind⟩

/-! ### Derivations -/

/-- Some decorators are read, or none, and a definition comes next. -/
structure Decorates (all : List Piece) (lo : Nat) (decorators : List Nat) (start : Nat) : Prop where
  from_ : ∀ t ∈ decorators ++ [start], lo ≤ t
  ascending : (decorators ++ [start]).Pairwise (· < ·)
  head : ∀ t ∈ (decorators ++ [start]).head?, HeadsBody all t

/-- A definition may come behind one more decorator. -/
theorem Decorates.snoc {lo start next : Nat} {decorators : List Nat}
    (h : Decorates all lo decorators start) (hlt : start < next) :
    Decorates all lo (decorators ++ [start]) next := by
  have hlast : ∀ t ∈ decorators ++ [start], t < next := by
    intro t ht
    obtain ht | ht := List.mem_append.mp ht
    · exact Nat.lt_trans ((List.pairwise_append.mp h.ascending).2.2 t ht start
        (List.mem_singleton.mpr rfl)) hlt
    · exact List.mem_singleton.mp ht ▸ hlt
  refine ⟨List.forall_mem_append.mpr ⟨h.from_, ?_⟩, ?_, ?_⟩
  · have hfirst := h.from_ start (List.mem_append_right _ (List.mem_singleton.mpr rfl))
    exact List.forall_mem_singleton.mpr (Nat.le_trans hfirst (Nat.le_of_lt hlt))
  · exact List.pairwise_append.mpr ⟨h.ascending, List.pairwise_singleton _ _,
      fun t ht u hu => List.mem_singleton.mp hu ▸ hlast t ht⟩
  · have hsome : (decorators ++ [start]).head?.isSome = true := by
      rw [List.isSome_head?]
      exact List.append_ne_nil_of_right_ne_nil _ (List.cons_ne_nil _ _)
    intro t ht
    rw [List.head?_append, Option.or_of_isSome hsome] at ht
    exact h.head t ht

theorem Decorators.decorates {decorators : List Nat} (h : Decorators c decorators d)
    (hc : c.On all) (hd : HeadsBody all d.index) : Decorates all c.index decorators d.index := by
  induction h with
  | none =>
    exact ⟨List.forall_mem_singleton.mpr (Nat.le_refl _), List.pairwise_singleton _ _,
      fun t ht => by cases ht; exact hd⟩
  | snoc hbefore hat _ hlt hline hnext ih =>
    have hdecorates := ih ((hc.of_reaches hbefore.reaches).headsBody hat (.inr rfl))
    exact hdecorates.snoc
      (Nat.lt_of_lt_of_le hlt (hline.reaches.trans hnext.reaches).index_le)

/-- What is derived is built between the cursors that it is read from and up to. -/
theorem Derives.built {n : Nonterminal} {statements : List Statement}
    (h : Derives n c statements d) (hc : c.On all) : Built all c.index statements d.index := by
  induction h with
  | line hread => exact .line (Nat.le_refl _) hc hread (Nat.le_refl _)
  | block hword hcrosses hlt hbody _ ihbody ihclauses =>
    have hc' := hc.of_reaches hcrosses.toReaches
    exact .block (Nat.le_refl _) (hc.headsBody hword (.inl ⟨_, rfl⟩))
      (.append ((ihbody hc').mono hlt (Nat.le_refl _)) (ihclauses (hc'.of_reaches hbody.reaches)))
  | definition hdecorators hword hheaded hcrosses hlt _ ihbody =>
    have hstart := hc.of_reaches hdecorators.reaches
    have hdecorates := hdecorators.decorates hc (hstart.headsBody hword (.inl ⟨_, rfl⟩))
    exact .definition hdecorates.from_ hdecorates.ascending hdecorates.head (hheaded hstart)
      ((ihbody (hstart.of_reaches hcrosses.toReaches)).mono hlt (Nat.le_refl _)) (Nat.le_refl _)
  | empty hlook => exact .nil hlook.reaches.index_le
  | inline hlook _ hread =>
    exact .line hlook.reaches.index_le (hlook.on_of_look hc) hread (Nat.le_refl _)
  | @indented _ _ column _ c' _ _ _ hlook _ hend ih =>
    have hc' := hlook.on_of_look hc
    have hinside : Cursor.On all { c' with indents := column :: c'.indents } :=
      ⟨hc'.pieces, hc'.closed⟩
    exact (ih hinside).mono hlook.reaches.index_le hend.reaches.index_le
  | none hskips => exact .nil hskips.reaches.index_le
  | found hlook _ _ ih => exact (ih (hlook.on_of_look hc)).mono hlook.reaches.index_le (Nat.le_refl _)
  | append hfirst _ ih ih' => exact .append (ih hc) (ih' (hc.of_reaches hfirst.reaches))

/-- The statements of an accepted source are put together from those of its lines. -/
theorem built_of_ofPieces {m : Module} (h : Module.ofPieces all = .ok m) :
    Built all 0 m.body all.length := by
  obtain ⟨d, e, hderives, hend⟩ := derivesSource_of_ofPieces h
  have hstart : (Cursor.start all).On all := ⟨rfl, rfl⟩
  have hlt := hend.lt_length_of_look (hstart.of_reaches hderives.reaches)
  exact (hderives.built hstart).mono (Nat.le_refl _)
    (Nat.le_trans hend.reaches.index_le (Nat.le_of_lt hlt))

end SourceSurvey.Syntax
