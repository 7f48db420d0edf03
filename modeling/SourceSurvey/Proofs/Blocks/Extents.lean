import SourceSurvey.Proofs.Blocks.Looking
import SourceSurvey.Syntax.Violation

/-!
Where statements begin, and how far definitions reach. What is read one after the other is put
together here: the beginnings ascend, the lines of a block are not indented less than the block, and
a definition whose body begins on a line of its own ends before a line that is indented less than its
body.
-/

namespace SourceSurvey.Syntax

/-- The token at which a mark looks. -/
def Mark.token : Mark → Nat
  | .line token => token
  | .legacy token _ => token

/-- The first tokens of statements, of their clauses and decorators, and of what they contain. -/
def startsOf (statements : List Statement) : List Nat :=
  (Statement.marksOf statements).map Mark.token

/-- How far a definition reaches, with the statements of its body. -/
structure Extent where
  start : Nat
  stop : Nat
  kind : DefinitionKind
  body : List Statement

mutual

/-- The definitions of a statement, at any depth, in source order. -/
def Statement.extents : Statement → List Extent
  | .definition _ start stop kind _ body => ⟨start, stop, kind, body⟩ :: Statement.extentsOf body
  | .block _ body => Statement.extentsOf body
  | .expression .. | .importing .. | .legacy .. | .plain _ => []

def Statement.extentsOf : List Statement → List Extent
  | [] => []
  | statement :: rest => statement.extents ++ Statement.extentsOf rest

end

theorem startsOf_cons (s : Statement) (rest : List Statement) :
    startsOf (s :: rest) = startsOf [s] ++ startsOf rest := by
  simp [startsOf, Statement.marksOf]

theorem startsOf_append (first second : List Statement) :
    startsOf (first ++ second) = startsOf first ++ startsOf second := by
  induction first with
  | nil => rfl
  | cons s first ih =>
    rw [List.cons_append, startsOf_cons, ih, startsOf_cons s first, List.append_assoc]

theorem extentsOf_append (first second : List Statement) :
    Statement.extentsOf (first ++ second) =
      Statement.extentsOf first ++ Statement.extentsOf second := by
  induction first with
  | nil => rfl
  | cons s first ih =>
    rw [List.cons_append, Statement.extentsOf, Statement.extentsOf, ih, List.append_assoc]

theorem startsOf_block (start : Nat) (body : List Statement) :
    startsOf [.block start body] = start :: startsOf body := by
  simp [startsOf, Statement.marksOf, Statement.marks, Mark.token]

theorem startsOf_definition (decorators : List Nat) (start stop : Nat) (kind : DefinitionKind)
    (name : Word) (body : List Statement) :
    startsOf [.definition decorators start stop kind name body] =
      decorators ++ start :: startsOf body := by
  have htokens : (decorators.map Mark.line).map Mark.token = decorators := by
    rw [List.map_map]
    exact List.map_id decorators
  simp [startsOf, Statement.marksOf, Statement.marks, Mark.token, -List.map_map, htokens]

theorem extentsOf_singleton (s : Statement) : Statement.extentsOf [s] = s.extents :=
  List.append_nil _

/-! ### Beginnings -/

variable {all : List Piece} {column : Nat} {c d : Cursor}

/-- The beginnings of what is read from one cursor to another, in a block at some column. -/
structure Rises (all : List Piece) (column : Nat) (c : Cursor) (starts : List Nat) (d : Cursor) :
    Prop where
  forward : c.index ≤ d.index
  first : starts.head? = some c.ahead ∨ starts = [] ∧ d.ahead = c.ahead
  ascending : starts.Pairwise (· < ·)
  below : ∀ t ∈ starts, t < d.index
  deep : ∀ t ∈ starts, breaksAt all t → column ≤ columnAt all t

namespace Rises

variable {starts more : List Nat} {c' d' e : Cursor}

theorem nil (hforward : c.index ≤ d.index) (hahead : d.ahead = c.ahead) :
    Rises all column c [] d := ⟨hforward, .inr ⟨rfl, hahead⟩, .nil, nofun, nofun⟩

theorem single (hc : c.Starts all) (h : c.index < d.index) :
    Rises all c.column c [c.index] d where
  forward := Nat.le_of_lt h
  first := .inl (congrArg some hc.settled.symm)
  ascending := List.pairwise_singleton _ _
  below := List.forall_mem_singleton.mpr h
  deep := List.forall_mem_singleton.mpr hc.column

theorem congr (h : Rises all column c starts d) (hindex : c'.index ≤ c.index)
    (hahead : c.ahead = c'.ahead) (hindex' : d.index ≤ d'.index) (hahead' : d'.ahead = d.ahead) :
    Rises all column c' starts d' where
  forward := Nat.le_trans hindex (Nat.le_trans h.forward hindex')
  first := by rw [hahead', ← hahead]; exact h.first
  ascending := h.ascending
  below t ht := Nat.lt_of_lt_of_le (h.below t ht) hindex'
  deep := h.deep

/-- More may be passed behind the last beginning. -/
theorem extend (h : Rises all column c starts d) (hne : starts ≠ []) (hindex : d.index ≤ d'.index) :
    Rises all column c starts d' where
  forward := Nat.le_trans h.forward hindex
  first := .inl (h.first.resolve_right fun hnil => hne hnil.1)
  ascending := h.ascending
  below t ht := Nat.lt_of_lt_of_le (h.below t ht) hindex
  deep := h.deep

theorem mono (h : Rises all column c starts d) {outer : Nat} (hle : outer ≤ column) :
    Rises all outer c starts d :=
  { h with deep := fun t ht hbreaks => Nat.le_trans hle (h.deep t ht hbreaks) }

theorem le (h : Rises all column c starts d) {t : Nat} (ht : t ∈ starts) : c.ahead ≤ t := by
  cases starts with
  | nil => cases ht
  | cons s rest =>
    obtain hfirst | ⟨hnil, -⟩ := h.first
    · obtain rfl : s = c.ahead := Option.some.inj hfirst
      obtain rfl | hrest := List.mem_cons.mp ht
      · exact Nat.le_refl _
      · exact Nat.le_of_lt (List.rel_of_pairwise_cons h.ascending hrest)
    · cases hnil

theorem lt_ahead (h : Rises all column c starts d) {t : Nat} (ht : t ∈ starts) : t < d.ahead :=
  Nat.lt_of_lt_of_le (h.below t ht) d.index_le_ahead

theorem append (h : Rises all column c starts d) (h' : Rises all column d more e) :
    Rises all column c (starts ++ more) e := by
  refine ⟨Nat.le_trans h.forward h'.forward, ?_, ?_, ?_, ?_⟩
  · obtain hfirst | ⟨rfl, hahead⟩ := h.first
    · exact .inl (by rw [List.head?_append, hfirst]; rfl)
    · rw [List.nil_append, ← hahead]
      exact h'.first
  · refine List.pairwise_append.mpr ⟨h.ascending, h'.ascending, fun t ht u hu => ?_⟩
    exact Nat.lt_of_lt_of_le (h.lt_ahead ht) (h'.le hu)
  · refine List.forall_mem_append.mpr ⟨fun t ht => ?_, h'.below⟩
    exact Nat.lt_of_lt_of_le (h.below t ht) h'.forward
  · exact List.forall_mem_append.mpr ⟨h.deep, h'.deep⟩

end Rises

/-! ### Definitions -/

/-- The lines of a body begin where its first line does or further to the right, and the line behind
    them does not. -/
structure Deeper (all : List Piece) (first : Nat) (starts : List Nat) (behind : Nat) : Prop where
  inside : ∀ t ∈ starts, breaksAt all t → columnAt all first ≤ columnAt all t
  ends : breaksAt all behind
  less : columnAt all behind < columnAt all first

/-- Where a definition lies among the beginnings of statements, of which the first is known and what
    comes behind the last. -/
structure Extent.Lies (all : List Piece) (e : Extent) (first : Nat) (starts : List Nat)
    (last : Nat) : Prop where
  begins : e.start ∈ starts
  nonempty : e.start < e.stop
  fresh : breaksAt all e.start ∨ e.start = first
  inner : ∀ t ∈ startsOf e.body, e.start < t ∧ t < e.stop ∧ t ∈ starts
  within : ∀ t ∈ starts, e.start < t → t < e.stop → t ∈ startsOf e.body
  follows : ∃ n ∈ starts ++ [last], e.stop ≤ n ∧ (∀ t ∈ starts, e.stop ≤ t → n ≤ t) ∧
    ∀ b ∈ (startsOf e.body).head?, breaksAt all b → Deeper all b (startsOf e.body) n

/-- A definition lies in the same way among more beginnings. -/
theorem Extent.Lies.embed {e : Extent} {first first' last last' : Nat} {starts : List Nat}
    (h : e.Lies all first starts last) (before after : List Nat)
    (hbefore : ∀ t ∈ before, ∀ u ∈ starts, t < u) (hafter : ∀ t ∈ after, last ≤ t)
    (hbound : ∀ t ∈ starts, t < last) (hlast : last ∈ after ++ [last'])
    (hfresh : breaksAt all e.start ∨ e.start = first') :
    e.Lies all first' (before ++ starts ++ after) last' := by
  have hearly : ∀ t ∈ before, t < e.start := fun t ht => hbefore t ht _ h.begins
  obtain ⟨n, hn, hstop, hnext, hdeeper⟩ := h.follows
  have hle : n ≤ last := by
    obtain hn | hn := List.mem_append.mp hn
    · exact Nat.le_of_lt (hbound n hn)
    · exact Nat.le_of_eq (List.mem_singleton.mp hn)
  refine ⟨?_, h.nonempty, hfresh, fun t ht => ?_, fun t ht hstart hbelow => ?_, n, ?_, hstop, ?_,
    hdeeper⟩
  · exact List.mem_append_left _ (List.mem_append_right _ h.begins)
  · obtain ⟨hstart, hbelow, hmem⟩ := h.inner t ht
    exact ⟨hstart, hbelow, List.mem_append_left _ (List.mem_append_right _ hmem)⟩
  · obtain (ht | ht) | ht := List.mem_append.mp ht |>.imp_left List.mem_append.mp
    · exact absurd hstart (Nat.not_lt_of_gt (hearly t ht))
    · exact h.within t ht hstart hbelow
    · have hlate := hafter t ht
      omega
  · obtain hn | hn := List.mem_append.mp hn
    · exact List.mem_append_left _ (List.mem_append_left _ (List.mem_append_right _ hn))
    · obtain rfl := List.mem_singleton.mp hn
      rw [List.append_assoc]
      exact List.mem_append_right _ hlast
  · intro t ht hge
    obtain (ht | ht) | ht := List.mem_append.mp ht |>.imp_left List.mem_append.mp
    · have hless := hearly t ht
      have hnonempty := h.nonempty
      omega
    · exact hnext t ht hge
    · exact Nat.le_trans hle (hafter t ht)

/-! ### Statements -/

/-- Statements that are read from one cursor to another, in a block at some column. -/
structure Reads (all : List Piece) (column : Nat) (c : Cursor) (statements : List Statement)
    (d : Cursor) : Prop extends Rises all column c (startsOf statements) d where
  ends : breaksAt all d.ahead
  lies : ∀ e ∈ Statement.extentsOf statements, e.Lies all c.ahead (startsOf statements) d.ahead

namespace Reads

variable {first second : List Statement} {c' d' e : Cursor}

theorem nil (hforward : c.index ≤ d.index) (hahead : d.ahead = c.ahead)
    (hends : breaksAt all d.ahead) : Reads all column c [] d where
  toRises := .nil hforward hahead
  ends := hends
  lies := nofun

theorem congr (h : Reads all column c first d) (hindex : c'.index ≤ c.index)
    (hahead : c.ahead = c'.ahead) (hindex' : d.index ≤ d'.index) (hahead' : d'.ahead = d.ahead) :
    Reads all column c' first d' where
  toRises := h.toRises.congr hindex hahead hindex' hahead'
  ends := hahead' ▸ h.ends
  lies := by
    rw [hahead', ← hahead]
    exact h.lies

/-- Comments may be passed before the first statement. -/
theorem before (h : Reads all column c first d) (hskips : c'.Skips c) :
    Reads all column c' first d :=
  h.congr hskips.reaches.index_le hskips.ahead (Nat.le_refl _) rfl

/-- Comments may be passed behind the last statement. -/
theorem after (h : Reads all column c first d) (hskips : d.Skips d') :
    Reads all column c first d' :=
  h.congr (Nat.le_refl _) rfl hskips.reaches.index_le hskips.ahead

theorem mono (h : Reads all column c first d) {outer : Nat} (hle : outer ≤ column) :
    Reads all outer c first d := { h with toRises := h.toRises.mono hle }

/-- Behind a line end, every definition begins a line. -/
theorem fresh (h : Reads all column c first d) (hbreaks : breaksAt all c.ahead) :
    ∀ x ∈ Statement.extentsOf first, breaksAt all x.start := by
  intro x hx
  obtain hx | heq := (h.lies x hx).fresh
  · exact hx
  · exact heq ▸ hbreaks

/-- Definitions that each begin a line lie in the same way behind other beginnings. -/
theorem lies_behind {starts : List Nat} (h : Reads all column d first e)
    (hstarts : Rises all column c starts d)
    (hfresh : ∀ x ∈ Statement.extentsOf first, breaksAt all x.start) :
    ∀ x ∈ Statement.extentsOf first, x.Lies all c.ahead (starts ++ startsOf first) e.ahead := by
  intro x hx
  rw [← List.append_nil (starts ++ startsOf first)]
  exact (h.lies x hx).embed starts []
    (fun t ht u hu => Nat.lt_of_lt_of_le (hstarts.lt_ahead ht) (h.le hu)) nofun
    (fun t ht => h.lt_ahead ht) (List.mem_singleton.mpr rfl) (.inl (hfresh x hx))

theorem append (h : Reads all column c first d) (h' : Reads all column d second e) :
    Reads all column c (first ++ second) e := by
  have hrises := h.toRises.append h'.toRises
  rw [← startsOf_append] at hrises
  refine ⟨hrises, h'.ends, fun x hx => ?_⟩
  rw [extentsOf_append] at hx
  rw [startsOf_append]
  obtain hx | hx := List.mem_append.mp hx
  · have hlies := h.lies x hx
    have hlast : d.ahead ∈ startsOf second ++ [e.ahead] := by
      obtain hfirst | ⟨hnil, hahead⟩ := h'.first
      · exact List.mem_append_left _ (List.mem_of_head? hfirst)
      · rw [← hahead]
        exact List.mem_append_right _ (List.mem_singleton.mpr rfl)
    exact hlies.embed [] _ nofun (fun t ht => h'.le ht) (fun t ht => h.lt_ahead ht) hlast
      hlies.fresh
  · exact h'.lies_behind h.toRises (h'.fresh h.ends) x hx

end Reads

/-- The body of a statement, as it is read from behind its colon. -/
structure Opens (all : List Piece) (column : Nat) (c : Cursor) (body : List Statement)
    (d : Cursor) : Prop extends Reads all column c body d where
  deeper : ∀ b ∈ (startsOf body).head?, breaksAt all b → Deeper all b (startsOf body) d.ahead
  own : ∀ x ∈ Statement.extentsOf body, breaksAt all x.start

section Compound

variable {c₁ c₂ : Cursor} {body clauses : List Statement}

/-- A statement with a body, and perhaps with more clauses behind that. -/
theorem Reads.block (hc : c.Starts all) (hlt : c.index < c₁.index)
    (hbody : Opens all c.column c₁ body c₂) (hclauses : Reads all c.column c₂ clauses d) :
    Reads all c.column c [.block c.index (body ++ clauses)] d := by
  have hinside := hbody.toReads.append hclauses
  have hhead := Rises.single hc hlt
  have hown : ∀ x ∈ Statement.extentsOf (body ++ clauses), breaksAt all x.start := by
    rw [extentsOf_append, List.forall_mem_append]
    exact ⟨hbody.own, hclauses.fresh hbody.ends⟩
  constructor
  · rw [startsOf_block]
    exact hhead.append hinside.toRises
  · exact hclauses.ends
  · rw [startsOf_block, extentsOf_singleton]
    exact hinside.lies_behind hhead hown

/-- A definition under its decorators. -/
theorem Reads.definition {decorators : List Nat} {kind : DefinitionKind} {name : Word}
    (hdecorators : Rises all c₁.column c decorators c₁) (hc : c₁.Starts all)
    (hfresh : breaksAt all c₁.ahead ∨ c₁.ahead = c.ahead) (hlt : c₁.index < c₂.index)
    (hbody : Opens all c₁.column c₂ body d) :
    Reads all c₁.column c [.definition decorators c₁.index d.index kind name body] d := by
  have hheader := hdecorators.append (.single hc hlt)
  have hrises := hheader.append hbody.toRises
  have hnested := hbody.toReads.lies_behind hheader hbody.own
  rw [List.append_assoc, List.singleton_append, ← startsOf_definition decorators c₁.index d.index
    kind name body] at hrises hnested
  refine ⟨hrises, hbody.ends, ?_⟩
  rw [extentsOf_singleton]
  refine List.forall_mem_cons.mpr ⟨?_, hnested⟩
  have hless : ∀ t ∈ startsOf body, c₁.index < t := fun t ht =>
    Nat.lt_of_lt_of_le hlt (Nat.le_trans c₂.index_le_ahead (hbody.le ht))
  have hmem : ∀ t, t ∈ startsOf [.definition decorators c₁.index d.index kind name body] ↔
      t ∈ decorators ∨ t = c₁.index ∨ t ∈ startsOf body := by
    intro t
    rw [startsOf_definition, List.mem_append, List.mem_cons]
  refine ⟨(hmem _).mpr (.inr (.inl rfl)), ?_, ?_, fun t ht => ?_, fun t ht hstart hstop => ?_,
    d.ahead, List.mem_append_right _ (List.mem_singleton.mpr rfl), d.index_le_ahead,
    fun t ht hstop => ?_, hbody.deeper⟩
  · exact Nat.lt_of_lt_of_le hlt hbody.forward
  · rw [← hc.settled]
    exact hfresh
  · exact ⟨hless t ht, hbody.below t ht, (hmem t).mpr (.inr (.inr ht))⟩
  · obtain hdecorator | rfl | hinside := (hmem t).mp ht
    · exact absurd hstart (Nat.not_lt_of_gt (hdecorators.below t hdecorator))
    · exact absurd hstart (Nat.lt_irrefl _)
    · exact hinside
  · exact absurd (hrises.below t ht) (Nat.not_lt_of_le hstop)

end Compound

end SourceSurvey.Syntax
