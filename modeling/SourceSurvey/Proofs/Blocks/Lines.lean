import SourceSurvey.Proofs.Blocks.Extents
import SourceSurvey.Proofs.Blocks.Stack
import SourceSurvey.Proofs.Syntax.Acceptance
import SourceSurvey.Proofs.Syntax.Layout
import SourceSurvey.Proofs.Syntax.Places

/-!
The lines at which the check of indentation looks. They are those of the tokens that come first on
their line, and a token before which the grammar finds a line end is one of them.
-/

namespace SourceSurvey.Syntax

/-- The place of a token. -/
def placeAt (places : Array Place) (token : Nat) : Place := places[token]?.getD .start

/-- The indentation of the line that a place is on, up to the place. -/
def Place.indent (p : Place) : Indent := Indent.ofText p.margin.reverse

/-- The first tokens of the lines that are looked at, when some line has been looked at before. -/
def linesAt (places : Array Place) (last : Option Nat) : List Mark → List Nat
  | [] => []
  | .legacy _ _ :: rest => linesAt places last rest
  | .line token :: rest =>
    let place := placeAt places token
    if place.margin.all isIndentChar && last ≠ some place.marginStart then
      token :: linesAt places (some place.marginStart) rest
    else linesAt places last rest

section Lines

variable {places : Array Place} {last : Option Nat} {marks : List Mark} {stack : IndentStack}

theorem sublist_linesAt : (linesAt places last marks).Sublist (marks.map Mark.token) := by
  fun_induction linesAt places last marks with
  | case1 => exact .slnil
  | case2 last t keyword rest ih => exact ih.cons _
  | case3 last t rest place hline ih => exact ih.cons_cons _
  | case4 last t rest place hline ih => exact ih.cons _

theorem violationAt_line (t : Nat) :
    violationAt places stack last (.line t :: marks) =
      if (placeAt places t).margin.all isIndentChar &&
          last ≠ some (placeAt places t).marginStart then
        match stack.accept (placeAt places t).indent with
        | .ok stack => violationAt places stack (some (placeAt places t).marginStart) marks
        | .error problem => some (.indentation problem (placeAt places t).line)
      else violationAt places stack last marks := rfl

/-- Where nothing is found wrong, the lines are let pass one after the other. -/
theorem run_of_violationAt (h : violationAt places stack last marks = none) :
    ∃ final, ((linesAt places last marks).map fun t => (placeAt places t).indent).foldlM
      IndentStack.accept stack = .ok final := by
  fun_induction linesAt places last marks generalizing stack
  case case1 => exact ⟨stack, rfl⟩
  case case2 last t keyword rest ih => cases h
  case case3 last t rest place hline ih =>
    rw [violationAt_line, if_pos hline] at h
    split at h
    · next next haccept =>
      obtain ⟨final, hrun⟩ := ih h
      refine ⟨final, ?_⟩
      rw [List.map_cons, List.foldlM_cons, haccept]
      exact hrun
    · cases h
  case case4 last t rest place hline ih =>
    rw [violationAt_line, if_neg hline] at h
    exact ih h

/-- Nothing is found wrong only where no statement is of the older edition. -/
theorem line_of_violationAt (h : violationAt places stack last marks = none) :
    ∀ mark ∈ marks, mark = .line mark.token := by
  induction marks generalizing stack last with
  | nil => nofun
  | cons mark rest ih =>
    cases mark with
    | legacy t keyword => cases h
    | line t =>
      refine List.forall_mem_cons.mpr ⟨rfl, ?_⟩
      rw [violationAt_line] at h
      split at h
      · split at h
        · exact ih h
        · cases h
      · exact ih h

/-- A token that comes first on its line, behind all lines of the tokens before it, is looked at. -/
theorem mem_linesAt (hmarks : (marks.map Mark.token).Pairwise (· < ·)) {t : Nat}
    (ht : .line t ∈ marks) (hmargin : (placeAt places t).margin.all isIndentChar = true)
    (hlast : last ≠ some (placeAt places t).marginStart)
    (hearly : ∀ u < t, (placeAt places u).marginStart ≠ (placeAt places t).marginStart) :
    t ∈ linesAt places last marks := by
  fun_induction linesAt places last marks with
  | case1 => cases ht
  | case2 last u keyword rest ih =>
    obtain ht | ht := List.mem_cons.mp ht
    · cases ht
    · exact ih (List.Pairwise.of_cons hmarks) ht hlast
  | case3 last u rest place hline ih =>
    obtain ht | ht := List.mem_cons.mp ht
    · cases ht
      exact List.mem_cons_self
    · have hless := List.rel_of_pairwise_cons hmarks (List.mem_map_of_mem ht)
      refine List.mem_cons_of_mem _ (ih (List.Pairwise.of_cons hmarks) ht ?_)
      intro heq
      exact hearly u hless (Option.some.inj heq)
  | case4 last u rest place hline ih =>
    obtain ht | ht := List.mem_cons.mp ht
    · cases ht
      exact absurd (by simp [place, hmargin, hlast]) hline
    · exact ih (List.Pairwise.of_cons hmarks) ht hlast

end Lines

/-! ### Line ends before a token -/

theorem exists_append_of_getElem? {α : Type} {l : List α} {i : Nat} {a : α} (h : l[i]? = some a) :
    ∃ before after, l = before ++ a :: after ∧ before.length = i := by
  obtain ⟨hlt, rfl⟩ := List.getElem?_eq_some_iff.mp h
  refine ⟨l.take i, l.drop (i + 1), ?_, List.length_take_of_le (Nat.le_of_lt hlt)⟩
  rw [← List.drop_eq_getElem_cons hlt, List.take_append_drop]

/-- The margin of a token begins before what comes behind the token. -/
theorem marginStart_placeAt_le {lexemes before after : List Lexeme} {u : Nat}
    (hsplit : lexemes = before ++ after) (hu : u < before.length) :
    (placeAt (placesOf lexemes) u).marginStart ≤ (Lexeme.joined before).length := by
  obtain ⟨l, hl⟩ : ∃ l, before[u]? = some l := ⟨_, List.getElem?_eq_getElem hu⟩
  obtain ⟨early, late, rfl, rfl⟩ := exists_append_of_getElem? hl
  have hplace := getElem?_placesOf early l (late ++ after)
  rw [← List.cons_append, ← List.append_assoc, ← hsplit] at hplace
  rw [placeAt, hplace, Option.getD_some, ← Place.over_append, Lexeme.joined_append, joined_cons]
  have hle := Place.marginStart_le (Lexeme.joined early ++ l.gap)
  simp only [List.length_append] at hle ⊢
  omega

/-- A token before which the grammar finds a line end comes first on its line. -/
theorem indented_of_breaksAt {text : List Char} {t : Nat}
    (hmeasured : Measured (Piece.ofLexemes (lexemes text)))
    (hbreaks : breaksAt (Piece.ofLexemes (lexemes text)) t)
    (hlt : t + 1 < (Piece.ofLexemes (lexemes text)).length) :
    (placeAt (placesOf (lexemes text)) t).margin.all isIndentChar = true ∧
      ∀ u < t, (placeAt (placesOf (lexemes text)) u).marginStart <
        (placeAt (placesOf (lexemes text)) t).marginStart := by
  obtain ⟨p, hp, hline⟩ := hbreaks
  have hclear := hmeasured p (List.mem_of_getElem? hp) hline
  obtain ⟨l, gap, hl, hgap, rfl⟩ := exists_lexeme_of_getElem? hp
  have htoken : l.token ≠ .finish := by
    intro hfinish
    have hlast := eq_length_of_finish hl hfinish
    rw [length_ofLexemes] at hlt
    exact absurd hlast (Nat.ne_of_lt hlt)
  have hlayout : (Piece.ofLexeme { l with gap := gap }).layout = Layout.ofGap gap := by
    rw [Piece.ofLexeme]
    split
    · contradiction
    · rfl
  rw [hlayout, Layout.ofGap] at hline hclear
  obtain ⟨before, after, hsplit, rfl⟩ := exists_append_of_getElem? hl
  have hoffset := Place.offset_start_over (Lexeme.joined before)
  have hstart : (Lexeme.joined before).length ≤ (Place.start.over (Lexeme.joined before)).offset :=
    Nat.le_of_eq hoffset.symm
  have hindented : ((Place.start.over (Lexeme.joined before)).over l.gap).Indented
      (Lexeme.joined before).length := by
    obtain hgap | hgap := hgap
    · rw [hgap]
      exact indented_over hstart (fun h => by cases h) hclear hline
    · -- a byte order mark before the first token
      rw [hgap, Place.over_cons]
      exact indented_over (Place.le_offset_after hstart _) (fun h => by cases h) hclear hline
  have hplace : placeAt (placesOf (lexemes text)) before.length =
      (Place.start.over (Lexeme.joined before)).over l.gap := by
    rw [placeAt, hsplit, getElem?_placesOf, Option.getD_some]
  rw [hplace]
  refine ⟨hindented.margin, fun u hu => ?_⟩
  exact Nat.lt_of_le_of_lt (marginStart_placeAt_le hsplit hu) hindented.late

end SourceSurvey.Syntax
