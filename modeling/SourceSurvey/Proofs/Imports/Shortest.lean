import SourceSurvey.Proofs.Imports.Listings

/-!
Which tokens of a source are an import. Several runs of tokens at one position can spell one, and the
shortest that a statement can end behind is the import. A run in which no line ends where the list of
names might has no shorter one in it.
-/

namespace SourceSurvey.Syntax

/-- What comes behind a statement is on another line or a semicolon. -/
def EndsBefore (rest : List Lexeme) : Prop :=
  ∀ l ∈ rest.head?, l.breaks = true ∨ l.token = .symbol .semicolon

/-- Some lexemes at a position of a source are a whole import. Comments are left out. -/
structure ReadsImport (source : List Lexeme) (start : Nat) (listing : Listing)
    (run : List Lexeme) : Prop where
  spelled : SpellsImport listing (run.map Lexeme.token)
  ends : ∃ rest, Lexeme.bare ((Lexeme.unmarked source).drop start) = run ++ rest ∧ EndsBefore rest

/-- An import at a position of a source: the shortest run of lexemes there that is a whole one. -/
def ImportAt (source : List Lexeme) (start : Nat) (listing : Listing) : Prop :=
  ∃ run, ReadsImport source start listing run ∧
    ∀ listing' run', ReadsImport source start listing' run' → run.length ≤ run'.length

/-- A position has one import at most. -/
theorem ImportAt.unique {source : List Lexeme} {start : Nat} {listing listing' : Listing}
    (h : ImportAt source start listing) (h' : ImportAt source start listing') :
    listing = listing' := by
  obtain ⟨run, hrun, hshortest⟩ := h
  obtain ⟨run', hrun', hshortest'⟩ := h'
  have hlength := Nat.le_antisymm (hshortest _ _ hrun') (hshortest' _ _ hrun)
  obtain ⟨rest, hrest, -⟩ := hrun.ends
  obtain ⟨rest', hrest', -⟩ := hrun'.ends
  obtain ⟨rfl, -⟩ := List.append_inj (hrest.symm.trans hrest') hlength
  exact hrun.spelled.unique hrun'.spelled

/-- No line ends before a lexeme where listed names might end. -/
def KeepsLine : ListPlace → List Lexeme → Prop
  | _, [] => True
  | p, l :: rest => (p ≠ .inside → l.breaks = false) ∧ KeepsLine (p.next l.token) rest

theorem keepsLine_append {p : ListPlace} {first second : List Lexeme} :
    KeepsLine p (first ++ second) ↔
      KeepsLine p first ∧ KeepsLine (p.after (first.map Lexeme.token)) second := by
  induction first generalizing p with
  | nil => exact (iff_of_eq (true_and _)).symm
  | cons l first ih =>
    rw [List.cons_append, KeepsLine, KeepsLine, ih, and_assoc]
    rfl

/-- Where names end before others that are listed with them, no line does. -/
theorem KeepsLine.breaks {before after : List Lexeme} {k : Lexeme} {paths : List DottedName}
    (h : KeepsLine .inside (before ++ k :: after))
    (hnames : SpellsNames paths (before.map Lexeme.token)) : k.breaks = false :=
  (keepsLine_append.mp h).2.1 (ListPlace.after_names hnames)

/-- The same of a name, if no line ends before it. -/
def KeepsName (run : List Lexeme) : Prop :=
  ∀ p, p ≠ .behindName → (∀ k ∈ run.head?, p ≠ .inside → k.breaks = false) → KeepsLine p run

/-- Where a shorter import ends within a run, no line does. -/
def Unbroken (run : List Lexeme) : Prop :=
  ∀ before k after listing, run = before ++ k :: after →
    SpellsImport listing (before.map Lexeme.token) → k.breaks = false

/-- A whole import that is unbroken is the shortest. -/
theorem importAt_of_unbroken {source run rest : List Lexeme} {start : Nat} {listing : Listing}
    (hsplit : Lexeme.bare ((Lexeme.unmarked source).drop start) = run ++ rest)
    (hspells : SpellsImport listing (run.map Lexeme.token)) (hunbroken : Unbroken run)
    (hends : EndsBefore rest) : ImportAt source start listing := by
  refine ⟨run, ⟨hspells, rest, hsplit, hends⟩, fun listing' run' h => ?_⟩
  obtain ⟨rest', hrest', hends'⟩ := h.ends
  by_contra hlt
  have hsame : run ++ rest = run' ++ rest' := hsplit.symm.trans hrest'
  obtain ⟨after, rfl⟩ : run' <+: run := List.prefix_of_prefix_length_le
    ⟨rest', hsame.symm⟩ (List.prefix_append _ _) (Nat.le_of_not_le hlt)
  cases after with
  | nil => exact hlt (by rw [List.append_nil])
  | cons k after =>
    obtain rfl : k :: (after ++ rest) = rest' := by simpa using hsame
    rcases hends' k rfl with hbreaks | hsemicolon
    · rw [hunbroken run' k after listing' rfl h.spelled] at hbreaks
      cases hbreaks
    · refine hspells.semicolon_notMem ?_
      rw [← hsemicolon]
      exact List.mem_map_of_mem (by simp)

section Unbroken

variable {inner before after : List Lexeme} {k first : Lexeme}

/-- What ends lexemes by its tokens ends them. -/
theorem exists_append_of_tokens (opening : List Lexeme) {tokens : List Token}
    (hsplit : opening ++ inner = before ++ k :: after)
    (htokens : inner.map Lexeme.token = tokens ++ k.token :: after.map Lexeme.token) :
    ∃ begun, inner = begun ++ k :: after ∧ begun.map Lexeme.token = tokens := by
  have hlength := congrArg List.length htokens
  simp only [List.length_map, List.length_append, List.length_cons] at hlength
  obtain ⟨begun, hbegun⟩ := List.suffix_of_suffix_length_le ⟨before, hsplit.symm⟩
    ⟨opening, rfl⟩ (by simp only [List.length_cons]; omega)
  refine ⟨begun, hbegun.symm, ?_⟩
  rw [← hbegun, List.map_append, List.map_cons] at htokens
  exact List.append_cancel_right htokens

theorem unbroken_modules (hfirst : first.token = .word Keyword.import_)
    (hline : KeepsLine .inside inner) : Unbroken (first :: inner) := by
  intro before k after listing hsplit hspelled
  have htokens := congrArg (List.map Lexeme.token) hsplit
  rw [List.map_cons, hfirst, List.map_append, List.map_cons] at htokens
  generalize hbefore : before.map Lexeme.token = tokens at hspelled htokens
  cases hspelled with
  | modules hnames =>
    obtain ⟨begun, rfl, rfl⟩ := exists_append_of_tokens [first] hsplit
      (List.cons.inj htokens).2
    exact hline.breaks hnames
  | contents =>
    obtain ⟨hword, -⟩ := List.cons.inj htokens
    cases hword

theorem unbroken_contents {origin : DottedName} {what : Contents} {middle : List Lexeme}
    {second : Lexeme} (hfirst : first.token = .word Keyword.from_)
    (horigin : SpellsOrigin origin (middle.map Lexeme.token))
    (hsecond : second.token = .word Keyword.import_)
    (hwhat : SpellsContents what (inner.map Lexeme.token))
    (hline : ∀ paths, SpellsNames paths (inner.map Lexeme.token) → KeepsLine .inside inner) :
    Unbroken (first :: (middle ++ second :: inner)) := by
  intro before k after listing hsplit hspelled
  have htokens := congrArg (List.map Lexeme.token) hsplit
  rw [List.map_cons, hfirst, List.map_append, List.map_cons, hsecond, List.map_append,
    List.map_cons] at htokens
  generalize hbefore : before.map Lexeme.token = tokens at hspelled htokens
  cases hspelled with
  | modules =>
    obtain ⟨hword, -⟩ := List.cons.inj htokens
    cases hword
  | contents horigin' hwhat' =>
    rw [List.cons_append, List.append_assoc, List.cons_append] at htokens
    obtain ⟨-, hinner⟩ := horigin.unique horigin' (List.cons.inj htokens).2
    rw [hinner] at hwhat hline
    obtain ⟨⟨paths, hnames⟩, paths', hnames'⟩ := hwhat.names_of_append hwhat'
    obtain ⟨begun, rfl, rfl⟩ := exists_append_of_tokens (first :: (middle ++ [second]))
      (by simpa using hsplit) hinner
    exact (hline paths hnames).breaks hnames'

end Unbroken

end SourceSurvey.Syntax
