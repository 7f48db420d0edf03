import SourceSurvey.Proofs.Blocks.LogicalLines
import SourceSurvey.Proofs.Splices.Lexemes

/-!
Where tokens stand in a source with one more joined line. What comes behind that line stands on the
next one, but only a token whose own line begins behind it is looked at there, and it has the margin
that it had. So the check of statements and of indentation finds nothing where it found nothing,
unless a statement begins at the very token that the joined line stands before.
-/

namespace SourceSurvey.Syntax

/-- Where a character stands when a line is joined behind so many characters of a text. -/
def joinedOffset (n offset : Nat) : Nat := if offset ≤ n then offset else offset + 2

theorem joinedOffset_inj {n first second : Nat} :
    joinedOffset n first = joinedOffset n second ↔ first = second := by
  unfold joinedOffset
  split <;> split <;> omega

/-- Two places at which the check sees the same, in a text and in the same with a joined line behind
    so many characters: there is more than indentation before both, or the same margin. -/
inductive Place.Keeps (n : Nat) (p q : Place) : Prop
  | within (hp : p.margin.all isIndentChar = false) (hq : q.margin.all isIndentChar = false)
  | begins (hmargin : q.margin = p.margin) (hstart : q.marginStart = joinedOffset n p.marginStart)

/-- Behind the same text two places either have all of it before them on their lines, or these lines
    begin within it. -/
theorem Place.over_cases {p q : Place} (hoffset : q.offset = p.offset + 2) (text : List Char) :
    (∀ c ∈ text, c ∈ (p.over text).margin ∧ c ∈ (q.over text).margin) ∨
      (q.over text).margin = (p.over text).margin ∧
        (q.over text).marginStart = (p.over text).marginStart + 2 ∧
          p.offset < (p.over text).marginStart := by
  induction text using List.reverseRecOn with
  | nil => exact .inl nofun
  | append_singleton text c ih =>
    have hp := p.offset_over text
    have hq := q.offset_over text
    rw [Place.over_concat, Place.over_concat]
    by_cases hc : c = '\n' ∨ c = '\r'
    · refine .inr ?_
      simp only [Place.after, Bool.or_eq_true, decide_eq_true_eq, hc, if_true, true_and]
      omega
    · simp only [Place.after, Bool.or_eq_true, decide_eq_true_eq, hc, if_false]
      obtain hinside | ⟨hmargin, hstart, hbehind⟩ := ih
      · refine .inl (List.forall_mem_append.mpr ⟨fun d hd => ?_, ?_⟩)
        · exact ⟨List.mem_cons_of_mem c (hinside d hd).1, List.mem_cons_of_mem c (hinside d hd).2⟩
        · exact List.forall_mem_singleton.mpr ⟨List.mem_cons_self, List.mem_cons_self⟩
      · exact .inr ⟨by rw [hmargin], hstart, hbehind⟩

/-- The place behind some text, and the place there when a line is joined before that text. -/
theorem Place.keeps_over {first second : List Char} {c : Char} (hc : c ∈ second)
    (hindent : isIndentChar c = false) :
    (Place.start.over (first ++ second)).Keeps first.length
      (Place.start.over (first ++ '\\' :: '\n' :: second)) := by
  have hmore : first ++ '\\' :: '\n' :: second = first ++ ['\\', '\n'] ++ second := by simp
  have hoffset : (Place.start.over (first ++ ['\\', '\n'])).offset =
      (Place.start.over first).offset + 2 := by
    rw [Place.offset_start_over, Place.offset_start_over, List.length_append]
    rfl
  rw [hmore, Place.over_append, Place.over_append]
  obtain hinside | ⟨hmargin, hstart, hbehind⟩ := Place.over_cases hoffset second
  · have hfails : ∀ {margin : List Char}, c ∈ margin → margin.all isIndentChar = false := fun hmem =>
      List.all_eq_false.mpr ⟨c, hmem, by rw [hindent]; exact Bool.false_ne_true⟩
    exact .within (hfails (hinside c hc).1) (hfails (hinside c hc).2)
  · rw [Place.offset_start_over] at hbehind
    exact .begins hmargin (by rw [hstart, joinedOffset, if_neg (Nat.not_le_of_lt hbehind)])

/-- The check finds nothing where it found nothing. -/
theorem violationAt_eq_none_of_keeps {n : Nat} {places places' : Array Place} {marks : List Mark}
    (hplaces : ∀ mark ∈ marks,
      (placeAt places mark.token).Keeps n (placeAt places' mark.token))
    {stack : IndentStack} {last : Option Nat} (h : violationAt places stack last marks = none) :
    violationAt places' stack (last.map (joinedOffset n)) marks = none := by
  induction marks generalizing stack last with
  | nil => rfl
  | cons mark rest ih =>
    obtain ⟨hplace, hrest⟩ := List.forall_mem_cons.mp hplaces
    cases mark with
    | legacy token keyword => cases h
    | line token =>
      rw [violationAt_line] at h ⊢
      cases hplace with
      | within hp hq =>
        replace hp : (placeAt places token).margin.all isIndentChar = false := hp
        replace hq : (placeAt places' token).margin.all isIndentChar = false := hq
        rw [hp, Bool.false_and, if_neg Bool.false_ne_true] at h
        rw [hq, Bool.false_and, if_neg Bool.false_ne_true]
        exact ih hrest h
      | begins hmargin hstart =>
        replace hmargin : (placeAt places' token).margin = (placeAt places token).margin := hmargin
        replace hstart : (placeAt places' token).marginStart =
          joinedOffset n (placeAt places token).marginStart := hstart
        have hlast : last.map (joinedOffset n) =
            some (joinedOffset n (placeAt places token).marginStart) ↔
              last = some (placeAt places token).marginStart := by
          cases last <;> simp [joinedOffset_inj]
        have hindent : (placeAt places' token).indent = (placeAt places token).indent :=
          congrArg (fun margin => Indent.ofText (List.reverse margin)) hmargin
        simp only [hmargin, hstart, hindent, ne_eq, hlast]
        split at h
        · next hlooked =>
          rw [if_pos hlooked]
          split at h
          · next stack' haccept => exact ih hrest h
          · cases h
        · next hlooked =>
          rw [if_neg hlooked]
          exact ih hrest h

section Splice

variable {text : List Char} {before after : List Lexeme} {l : Lexeme} {n t : Nat}
  (hcut : lexemes text = before ++ l :: after)

include hcut

/-- What the check sees at another token. -/
theorem keeps_placesOf (hfinish : l.token ≠ .finish) (hvalid : l.token ≠ .invalid)
    (ht : t ≠ before.length) (hlt : t < (lexemes text).length) :
    (placeAt (placesOf (lexemes text)) t).Keeps (Lexeme.joined before ++ l.gap.take n).length
      (placeAt (placesOf (before ++ l.splice n :: after)) t) := by
  rw [hcut, List.length_append, List.length_cons] at hlt
  obtain hless | hgreater := Nat.lt_or_gt_of_ne ht
  · have hk := List.getElem?_eq_getElem hless
    generalize before[t] = k at hk
    have hplace : ∀ more, placeAt (placesOf (before ++ more)) t =
        (Place.start.over (Lexeme.joined (before.take t) ++ k.gap)) := by
      intro more
      have hfound : (before ++ more)[t]? = some k := by rw [List.getElem?_append_left hless, hk]
      rw [placeAt_placesOf hfound, List.take_append_of_le_length (Nat.le_of_lt hless),
        Place.over_append]
    rw [hcut, hplace, hplace]
    refine .begins rfl (Eq.symm (if_pos ?_))
    -- the line of an earlier token begins before it
    obtain ⟨rest, hbefore⟩ := joined_take_of_lt hk hless
    rw [List.take_length] at hbefore
    refine Nat.le_trans (Place.marginStart_le _) ?_
    rw [hbefore]
    simp only [List.length_append]
    omega
  · obtain ⟨j, rfl⟩ := Nat.exists_eq_add_of_lt hgreater
    have hk := List.getElem?_eq_getElem (l := after) (i := j) (by omega)
    generalize after[j] = k at hk
    have hplace : ∀ l' : Lexeme, placeAt (placesOf (before ++ l' :: after)) (before.length + j + 1) =
        Place.start.over (Lexeme.joined (before ++ l' :: after.take j) ++ k.gap) := by
      intro l'
      have hfound : (before ++ l' :: after)[before.length + j + 1]? = some k := by
        rw [List.getElem?_append_right (by omega), Nat.add_assoc, Nat.add_sub_cancel_left,
          List.getElem?_cons_succ, hk]
      rw [placeAt_placesOf hfound, Nat.add_assoc, List.take_length_add_append, List.take_succ_cons,
        Place.over_append]
    have hmem : l ∈ lexemesFrom [] text := by
      rw [← lexemes, hcut]
      exact List.mem_append_right _ List.mem_cons_self
    obtain ⟨c, hc, hseparator⟩ := exists_mem_text l hmem hfinish hvalid
    have hindent : isIndentChar c = false := by
      rw [← Bool.not_eq_true] at hseparator ⊢
      exact fun h => hseparator (isSeparator_of_isIndentChar h)
    let second := l.gap.drop n ++ (l.text ++ Lexeme.joined (after.take j)) ++ k.gap
    have hsecond : c ∈ second := by simp [second, hc]
    have hparted : Lexeme.joined (before ++ l :: after.take j) ++ k.gap =
        Lexeme.joined before ++ l.gap.take n ++ second := by
      rw [joined_parted before _ l n, List.append_assoc]
    have hspliced : Lexeme.joined (before ++ l.splice n :: after.take j) ++ k.gap =
        Lexeme.joined before ++ l.gap.take n ++ '\\' :: '\n' :: second := by
      rw [joined_splice, List.append_assoc]
      rfl
    rw [hcut, hplace, hplace, hparted, hspliced]
    exact Place.keeps_over hsecond hindent

/-- A source in which the check finds nothing is none in which it finds something when a line is
    joined, unless a statement begins behind that line. -/
theorem violation_splice {body : List Statement} (hfinish : l.token ≠ .finish)
    (hvalid : l.token ≠ .invalid) (hstarts : ∀ t ∈ startsOf body, t < (lexemes text).length)
    (hl : before.length ∉ startsOf body)
    (h : violation (placesOf (lexemes text)) body = none) :
    violation (placesOf (before ++ l.splice n :: after)) body = none := by
  have hplaces : ∀ mark ∈ Statement.marksOf body,
      (placeAt (placesOf (lexemes text)) mark.token).Keeps
        (Lexeme.joined before ++ l.gap.take n).length
        (placeAt (placesOf (before ++ l.splice n :: after)) mark.token) := by
    intro mark hmark
    have hmem : mark.token ∈ startsOf body := List.mem_map_of_mem hmark
    exact keeps_placesOf hcut hfinish hvalid (fun heq => hl (heq ▸ hmem)) (hstarts _ hmem)
  exact violationAt_eq_none_of_keeps hplaces h

end Splice

end SourceSurvey.Syntax
