import SourceSurvey.Proofs.LineEnds.Lexemes
import SourceSurvey.Proofs.Syntax.Places

/-!
Where tokens stand in a source and in the same source with its line ends written in the other way:
on the same line, in the same column and behind the same margin. So the check of statements and of
indentation finds the same in both.
-/

namespace SourceSurvey.Syntax

open SourceSurvey.Text

/-- Where the character at some offset of a source stands when the line ends are written in the other
    way. -/
def shifted (source : List Char) (offset : Nat) : Nat :=
  offset + (source.take offset).count '\n'

/-- Places that come later in one text come later in the other. -/
theorem shifted_lt {source : List Char} {first second : Nat} (h : first < second) :
    shifted source first < shifted source second := by
  have hcount := (List.take_sublist_take_left (l := source) (Nat.le_of_lt h)).count_le '\n'
  unfold shifted
  omega

theorem shifted_inj {source : List Char} {first second : Nat} :
    shifted source first = shifted source second ↔ first = second := by
  constructor
  · intro heq
    obtain hlt | rfl | hlt := Nat.lt_trichotomy first second
    · exact absurd heq (Nat.ne_of_lt (shifted_lt hlt))
    · rfl
    · exact absurd heq (Nat.ne_of_gt (shifted_lt hlt))
  · rintro rfl
    rfl

/-- Two places at which the check sees the same, in texts that differ in their line ends. -/
structure Place.Matches (source : List Char) (p p' : Place) : Prop where
  line : p'.line = p.line
  column : p'.column = p.column
  margin : p'.margin = p.margin
  marginStart : p'.marginStart = shifted source p.marginStart

theorem Place.matches_start (source : List Char) : Place.start.Matches source .start :=
  ⟨rfl, rfl, rfl, rfl⟩

/-- What is added to a text does not move the places in it. -/
theorem shifted_append {text : List Char} {offset : Nat} (hle : offset ≤ text.length)
    (more : List Char) : shifted (text ++ more) offset = shifted text offset := by
  rw [shifted, shifted, List.take_append_of_le_length hle]

/-- The places behind a text. -/
theorem Place.matches_over {text : List Char} (hreturn : '\r' ∉ text) :
    (Place.start.over text).Matches text (Place.start.over (crlf text)) := by
  induction text using List.reverseRecOn with
  | nil => exact Place.matches_start []
  | append_singleton text c ih =>
    have hmatches := ih fun hmem => hreturn (List.mem_append_left _ hmem)
    have hc' : c ≠ '\r' := by
      rintro rfl
      exact hreturn (by simp)
    by_cases hc : c = '\n'
    · subst hc
      have hlength := length_crlf text
      have hends : crlf (text ++ ['\n']) = crlf text ++ ['\r'] ++ ['\n'] := by
        rw [crlf_append, List.append_assoc]
        rfl
      rw [hends, Place.over_concat, Place.over_concat, Place.over_concat]
      refine ⟨?_, rfl, rfl, ?_⟩
      · simp [Place.after, hmatches.line]
      · have htake : (text ++ ['\n']).take (text.length + 1) = text ++ ['\n'] :=
          List.take_of_length_le (by simp)
        simp [Place.after, Place.offset_start_over, shifted, hlength, htake]
        omega
    · rw [crlf_append, crlf_cons hc, crlf_nil, Place.over_concat, Place.over_concat]
      refine ⟨?_, ?_, ?_, ?_⟩
      · simp [Place.after, hc, hmatches.line]
      · simp [Place.after, hc, hmatches.column]
      · simp [Place.after, hc, hc', hmatches.margin]
      · simp [Place.after, hc, hc', hmatches.marginStart,
          shifted_append (Place.marginStart_le text)]

theorem Place.matches_over_append {text : List Char} (hreturn : '\r' ∉ text) (more : List Char) :
    (Place.start.over text).Matches (text ++ more) (Place.start.over (crlf text)) := by
  have hmatches := Place.matches_over hreturn
  refine ⟨hmatches.line, hmatches.column, hmatches.margin, ?_⟩
  rw [hmatches.marginStart, shifted_append (Place.marginStart_le text)]

/-- The places of all tokens. -/
theorem matches_ofLexemes {source : List Char} (before : List Char) {early : Bool} {lexemes lexemes' : List Lexeme}
    (h : Rewritten early lexemes lexemes') (hreturn : '\r' ∉ source)
    (hsource : source = before ++ Lexeme.joined lexemes) (i : Nat) :
    Place.Matches source
      (((Place.start.over before).ofLexemes lexemes)[i]?.getD .start)
      (((Place.start.over (crlf before ++ taken early)).ofLexemes lexemes')[i]?.getD .start) := by
  induction h generalizing before i with
  | nil => exact Place.matches_start source
  | @cons early late gap gap' text text' token rest rest' _ hgap htext _ _ _ ih =>
    rw [joined_cons] at hsource
    have hbefore : '\r' ∉ before ++ gap := fun hmem => hreturn (by
      rw [hsource, ← List.append_assoc]
      exact List.mem_append_left _ hmem)
    have hhere : crlf before ++ taken early ++ gap' = crlf (before ++ gap) := by
      rw [List.append_assoc, hgap, crlf_append]
    cases i with
    | zero =>
      have hmatches := Place.matches_over_append hbefore (text ++ Lexeme.joined rest)
      rw [List.append_assoc, ← hsource, ← hhere, Place.over_append, Place.over_append] at hmatches
      exact hmatches
    | succ i =>
      have hmore : source = before ++ gap ++ text ++ Lexeme.joined rest := by
        simp only [hsource, List.append_assoc]
      have hbehind := ih _ hmore i
      rw [crlf_append, List.append_assoc (crlf (before ++ gap)), ← htext, ← hhere,
        Place.over_append, Place.over_append, Place.over_append, Place.over_append] at hbehind
      exact hbehind

/-- The check finds the same at the same marks. -/
theorem violationAt_matches (source : List Char) {places places' : Array Place}
    (hplaces : ∀ token : Nat, Place.Matches source (places[token]?.getD .start)
      (places'[token]?.getD .start)) (stack : IndentStack) (last : Option Nat) (marks : List Mark) :
    violationAt places' stack (last.map (shifted source)) marks =
      violationAt places stack last marks := by
  induction marks generalizing stack last with
  | nil => rfl
  | cons mark rest ih =>
    cases mark with
    | legacy token keyword =>
      have hplace := hplaces token
      simp only [violationAt, hplace.line, hplace.column]
    | line token =>
      have hplace := hplaces token
      have hlast : last.map (shifted source) =
          some (shifted source (places[token]?.getD .start).marginStart) ↔
          last = some (places[token]?.getD .start).marginStart := by
        cases last with
        | none => simp
        | some start => simp [shifted_inj]
      have hbehind : ∀ stack, violationAt places' stack
          (some (shifted source (places[token]?.getD .start).marginStart)) rest =
          violationAt places stack (some (places[token]?.getD .start).marginStart) rest :=
        fun stack => ih stack (some _)
      simp only [violationAt, hplace.line, hplace.margin, hplace.marginStart, ne_eq, hlast, hbehind,
        ih]

end SourceSurvey.Syntax
