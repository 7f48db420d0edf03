import SourceSurvey.Proofs.Outline.Statements
import SourceSurvey.Syntax.Survey

/-!
The indentation of an outline. Each of its lines is indented by at most one level more than the line
before it, so the check of indentation finds nothing wrong.
-/

namespace SourceSurvey.Syntax

/-- The open blocks behind a line of some level. -/
def levels : Nat → IndentStack
  | 0 => .base
  | level + 1 => ⟨4 * (level + 1), 4 * (level + 1)⟩ :: levels level

theorem top_levels (level : Nat) : (levels level).top = ⟨4 * level, 4 * level⟩ := by
  cases level <;> rfl

/-- Closing blocks leaves those up to the level of the line. -/
theorem unwind_levels {level k : Nat} (hle : k ≤ level) :
    (levels level).unwind (4 * k) = levels k := by
  induction level with
  | zero =>
    obtain rfl : k = 0 := by omega
    rfl
  | succ level ih =>
    obtain ⟨next, rest, hlevels⟩ : ∃ next rest, levels level = next :: rest := by
      cases level with
      | zero => exact ⟨_, _, rfl⟩
      | succ level => exact ⟨_, _, rfl⟩
    rw [levels, hlevels, IndentStack.unwind, ← hlevels]
    by_cases hk : k = level + 1
    · rw [if_neg (by simp only; omega), hk, levels]
    · rw [if_pos (by simp only; omega), ih (by omega)]

theorem ofText_spaces (n : Nat) (i : Indent) :
    (List.replicate n ' ').foldl Indent.after i = ⟨i.stops + n, i.flat + n⟩ := by
  induction n generalizing i with
  | zero => rfl
  | succ n ih =>
    rw [List.replicate_succ, List.foldl_cons, ih, Indent.after, if_pos rfl]
    simp only [Indent.mk.injEq]
    omega

/-- A line may be indented by one level more than the open blocks, or by any lower level. -/
theorem check_margin {level k : Nat} (hle : k ≤ level + 1) :
    (levels level).check (margin k) = .ok (levels k) := by
  have hindent : Indent.ofText (margin k) = ⟨4 * k, 4 * k⟩ := by
    rw [Indent.ofText, margin, ofText_spaces, Nat.zero_add]
  rw [IndentStack.check, hindent, IndentStack.accept, top_levels]
  obtain hlt | rfl | rfl : k < level ∨ k = level ∨ k = level + 1 := by omega
  · have hunwind := unwind_levels (Nat.le_of_lt hlt)
    simp only [hunwind, top_levels]
    rw [if_neg (by omega), if_neg (by omega)]
    simp
  · simp
  · rw [if_neg (by simp only; omega), if_pos (by simp only; omega), if_pos (by simp only; omega)]
    rfl

theorem Place.over_spaces (p : Place) (n : Nat) :
    (p.over (List.replicate n ' ')).marginStart = p.marginStart ∧
      (p.over (List.replicate n ' ')).margin = List.replicate n ' ' ++ p.margin := by
  induction n generalizing p with
  | zero => exact ⟨rfl, rfl⟩
  | succ n ih =>
    obtain ⟨hstart, hmargin⟩ := ih (p.after ' ')
    have hstep : p.over (List.replicate (n + 1) ' ') = (p.after ' ').over (List.replicate n ' ') :=
      rfl
    rw [hstep, hstart, hmargin]
    refine ⟨rfl, ?_⟩
    have hafter : (p.after ' ').margin = ' ' :: p.margin := rfl
    rw [hafter, List.replicate_succ', List.append_assoc, List.singleton_append]

/-- Behind a line end and the blanks of some level, the margin of the line is that level. -/
theorem Place.over_lead (p : Place) (level : Nat) :
    (p.over (lead level)).marginStart = p.offset + 1 ∧
      (p.over (lead level)).margin = Syntax.margin level := by
  obtain ⟨hstart, hmargin⟩ := (p.after '\n').over_spaces (4 * level)
  exact ⟨hstart, hmargin.trans (List.append_nil _)⟩

theorem length_joined_le_append (first second : List Lexeme) :
    (Lexeme.joined first).length ≤ (Lexeme.joined (first ++ second)).length := by
  rw [Lexeme.joined_append, List.length_append]
  exact Nat.le_add_right _ _

/-- Nothing is wrong at some marks on lines that begin behind an offset, when they come behind
    blocks that a line of some level may follow. -/
def Unviolated (places : Array Place) (level offset : Nat) (marks : List Mark) : Prop :=
  ∀ ⦃blocks last⦄, level ≤ blocks + 1 → (∀ start ∈ last, start ≤ offset) →
    violationAt places (levels blocks) last marks = none

theorem unviolated_nil (places : Array Place) (level offset : Nat) :
    Unviolated places level offset [] :=
  fun _ _ _ _ => rfl

section Marks

variable {places : Array Place} {level offset : Nat} {marks : List Mark}

theorem Unviolated.mono {deeper earlier : Nat} (h : Unviolated places level offset marks)
    (hlevel : level ≤ deeper) (hoffset : earlier ≤ offset) :
    Unviolated places deeper earlier marks :=
  fun _ _ hblocks hlast => h (Nat.le_trans hlevel hblocks) fun start hstart =>
    Nat.le_trans (hlast start hstart) hoffset

/-- A line of some level leaves the blocks up to that level open. -/
theorem unviolated_line {token : Nat} {place : Place} (hplace : places[token]? = some place)
    (hmargin : place.margin = margin level) (hoffset : offset < place.marginStart)
    (hmarks : Unviolated places (level + 1) place.marginStart marks) :
    Unviolated places level offset (.line token :: marks) := by
  intro blocks last hblocks hlast
  have hchars : place.margin.all isIndentChar = true := by
    rw [hmargin]
    exact List.all_eq_true.mpr fun c hc => by rw [List.eq_of_mem_replicate hc]; rfl
  have hnew : last ≠ some place.marginStart := fun heq =>
    absurd (hlast place.marginStart heq) (Nat.not_le_of_lt hoffset)
  have hcheck : (levels blocks).check place.margin.reverse = .ok (levels level) := by
    rw [hmargin, margin, List.reverse_replicate]
    exact check_margin hblocks
  have hrest : violationAt places (levels level) (some place.marginStart) marks = none :=
    hmarks (Nat.le_refl _) (by simp)
  rw [violationAt]
  simp only [hplace, Option.getD_some, hchars, hcheck, hrest]
  simp [hnew]

end Marks

/-- A lexeme at the beginning of a line passes the check if those behind it do. -/
theorem unviolated_lexeme {all before after : List Lexeme} {text : List Char} {token : Token}
    {level : Nat} {marks : List Mark}
    (hall : all = before ++ ⟨lead level, text, token⟩ :: after)
    (hmarks : Unviolated (placesOf all) (level + 1)
      (Lexeme.joined (before ++ [⟨lead level, text, token⟩])).length marks) :
    Unviolated (placesOf all) level (Lexeme.joined before).length
      (.line before.length :: marks) := by
  have hplace := getElem?_placesOf before ⟨lead level, text, token⟩ after
  rw [← hall] at hplace
  obtain ⟨hstart, hmargin⟩ := (Place.start.over (Lexeme.joined before)).over_lead level
  have hoffset : (Place.start.over (Lexeme.joined before)).offset =
      (Lexeme.joined before).length := by
    rw [Place.offset_over]
    exact Nat.zero_add _
  rw [hoffset] at hstart
  have hbelow := Nat.lt_succ_self (Lexeme.joined before).length
  rw [Nat.succ_eq_add_one, ← hstart] at hbelow
  refine unviolated_line hplace hmargin hbelow (hmarks.mono (Nat.le_refl _) ?_)
  rw [hstart, Lexeme.joined_append, List.length_append, joined_cons, lead]
  simp only [List.cons_append, List.length_cons]
  omega

theorem marksOf_append (first second : List Statement) :
    Statement.marksOf (first ++ second) = Statement.marksOf first ++ Statement.marksOf second := by
  induction first with
  | nil => rfl
  | cons s rest ih =>
    rw [List.cons_append, Statement.marksOf, Statement.marksOf, ih, List.append_assoc]

/-- Some lexemes of a source pass the check, which looks at certain marks of them when they begin at
    a certain token, if what comes behind them does. -/
def Passes (level : Nat) (lexemes : List Lexeme) (marks : Nat → List Mark) : Prop :=
  ∀ before after ⦃all rest⦄, all = before ++ (lexemes ++ after) →
    Unviolated (placesOf all) level (Lexeme.joined (before ++ lexemes)).length rest →
    Unviolated (placesOf all) level (Lexeme.joined before).length (marks before.length ++ rest)

theorem passes_unmarked (level : Nat) (lexemes : List Lexeme) :
    Passes level lexemes fun _ => [] :=
  fun before _ _ _ _ hrest => hrest.mono (Nat.le_refl _) (length_joined_le_append before lexemes)

theorem Passes.of_eq {level : Nat} {lexemes : List Lexeme} {marks marks' : Nat → List Mark}
    (h : Passes level lexemes marks) (heq : ∀ index, marks' index = marks index) :
    Passes level lexemes marks' :=
  funext heq ▸ h

theorem Passes.append {level : Nat} {first second : List Lexeme} {early late : Nat → List Mark}
    (hfirst : Passes level first early) (hsecond : Passes level second late) :
    Passes level (first ++ second) fun index => early index ++ late (index + first.length) := by
  intro before after all rest hall hrest
  have hlate : Unviolated (placesOf all) level (Lexeme.joined (before ++ first)).length
      (late (before.length + first.length) ++ rest) := by
    rw [← List.length_append]
    refine hsecond (before ++ first) after ?_ ?_
    · rw [hall, List.append_assoc, List.append_assoc]
    · rw [List.append_assoc]
      exact hrest
  rw [List.append_assoc]
  exact hfirst before (second ++ after) (by rw [hall, List.append_assoc]) hlate

/-- Lines that are indented one level further may follow a line. -/
theorem Passes.line {level : Nat} {lexemes : List Lexeme} {marks : Nat → List Mark}
    (h : Passes (level + 1) lexemes marks) (text : List Char) (token : Token) :
    Passes level (⟨lead level, text, token⟩ :: lexemes) fun index =>
      .line index :: marks (index + 1) := by
  intro before after all rest hall hrest
  let first : Lexeme := ⟨lead level, text, token⟩
  have happend : before ++ first :: lexemes = before ++ [first] ++ lexemes := by
    rw [List.append_assoc, List.singleton_append]
  refine unviolated_lexeme hall ?_
  have hsplit : all = before ++ [first] ++ (lexemes ++ after) := by
    rw [hall, ← List.append_assoc, happend, List.append_assoc]
  have hrest' := hrest.mono (Nat.le_succ level) (Nat.le_refl _)
  rw [happend] at hrest'
  have hdeeper := h (before ++ [first]) after hsplit hrest'
  rw [List.length_append, List.length_singleton] at hdeeper
  exact hdeeper

theorem passes_docLexemes (level : Nat) (doc : Option (List Char)) :
    Passes level (docLexemes level doc) fun index =>
      Statement.marksOf (docStatements index doc) := by
  cases doc with
  | none => exact passes_unmarked level []
  | some doc => exact (passes_unmarked (level + 1) []).line _ _

/-- A body passes the check if the definitions inside it do. -/
theorem passes_bodyLexemes {level : Nat} (doc : Option (List Char)) {inside : List Lexeme}
    {statements : Nat → List Statement}
    (hinside : Passes (level + 1) inside fun index => Statement.marksOf (statements index)) :
    Passes (level + 1) (bodyLexemes level doc inside) fun index =>
      Statement.marksOf (docStatements (index + 1) doc ++ (statements (index + 1 + docSize doc) ++
        [.plain (index + 1 + docSize doc + inside.length)])) := by
  let pass : Lexeme := ⟨lead (level + 1), Keyword.pass_, .word Keyword.pass_⟩
  have hpass : Passes (level + 1) [pass] fun index => [.line index] :=
    (passes_unmarked (level + 2) []).line _ _
  have hall := (passes_unmarked (level + 1) [⟨[], [':'], .symbol .colon⟩]).append
    ((passes_docLexemes (level + 1) doc).append (hinside.append hpass))
  simp only [List.length_singleton, List.nil_append, length_docLexemes] at hall
  simp only [marksOf_append]
  exact hall

/-- The lexemes of a definition behind its first one pass the check one level further in. -/
theorem Heading.passes_tail (heading : Heading) {level : Nat} (doc : Option (List Char))
    {inside : List Lexeme} {statements : Nat → List Statement}
    (hinside : Passes (level + 1) inside fun index => Statement.marksOf (statements index)) :
    Passes (level + 1) (heading.tail ++ bodyLexemes level doc inside) fun index =>
      Statement.marksOf (docStatements (index + heading.size) doc ++
        (statements (index + heading.size + docSize doc) ++
          [.plain (index + heading.size + docSize doc + inside.length)])) := by
  have htail := (passes_unmarked (level + 1) heading.tail).append (passes_bodyLexemes doc hinside)
  simp only [List.nil_append, Nat.add_assoc] at htail
  simp only [Heading.size, Nat.add_assoc]
  exact htail

theorem Outline.passes_lexemes (o : Outline) (level : Nat) :
    Passes level (o.lexemes (lead level) level) fun index =>
      Statement.marksOf (o.statements index) := by
  induction o generalizing level with
  | done => exact passes_unmarked level []
  | definition heading doc inside rest ihinside ihrest =>
    have hfirst := (heading.passes_tail doc (ihinside (level + 1))).line heading.keyword
      (.word heading.keyword)
    refine (hfirst.append (ihrest level)).of_eq fun index => ?_
    have hbody : index + 1 + heading.size = index + heading.size + 1 := by omega
    have hstop : index + (⟨lead level, heading.keyword, .word heading.keyword⟩ :: (heading.tail ++
        bodyLexemes level doc (inside.lexemes (lead (level + 1)) (level + 1)))).length =
        index + heading.size + 1 + docSize doc + inside.size + 1 := by
      rw [← List.cons_append, ← Heading.lexemes, length_definition]
      omega
    rw [hbody, hstop, length_lexemes]
    rfl

/-- The first line of a source passes the check where nothing is before its first lexeme. -/
theorem violationAt_first {text : List Char} {token : Token} {after : List Lexeme}
    {marks : List Mark}
    (hmarks : Unviolated (placesOf (⟨[], text, token⟩ :: after)) 1 0 marks) :
    violationAt (placesOf (⟨[], text, token⟩ :: after)) .base none (.line 0 :: marks) = none := by
  have hplace : (placesOf (⟨[], text, token⟩ :: after))[0]? = some Place.start :=
    getElem?_placesOf [] ⟨[], text, token⟩ after
  have hrest : violationAt (placesOf (⟨[], text, token⟩ :: after)) (levels 0) (some 0) marks =
      none :=
    hmarks (Nat.le_refl 1) (by simp)
  rw [violationAt, hplace]
  exact hrest

/-- The check finds nothing wrong with the lines of an outline. -/
theorem Outline.violation_eq_none (o : Outline) (after : List Lexeme) :
    violation (placesOf (o.lexemes [] 0 ++ after)) (o.statements 0) = none := by
  cases o with
  | done => rfl
  | definition heading doc inside rest =>
    let first : Lexeme := ⟨[], heading.keyword, .word heading.keyword⟩
    let behind := heading.tail ++ bodyLexemes 0 doc (inside.lexemes (lead 1) 1)
    let stop := 0 + heading.size + 1 + docSize doc + inside.size + 1
    have hall : (definition heading doc inside rest).lexemes [] 0 ++ after =
        first :: (behind ++ (rest.lexemes (lead 0) 0 ++ after)) := by
      simp [lexemes, Heading.lexemes, first, behind]
    have hstop : ([first] ++ behind).length = stop := by
      have hlength := length_definition [] 0 heading doc inside
      rw [Heading.lexemes, List.cons_append] at hlength
      rw [List.singleton_append, hlength]
      omega
    have hrest : Unviolated (placesOf (first :: (behind ++ (rest.lexemes (lead 0) 0 ++ after)))) 0
        (Lexeme.joined ([first] ++ behind)).length
        (Statement.marksOf (rest.statements stop) ++ []) := by
      rw [← hstop]
      refine rest.passes_lexemes 0 ([first] ++ behind) after ?_ (unviolated_nil _ _ _)
      rw [List.singleton_append, List.cons_append]
    have hbehind := heading.passes_tail doc (inside.passes_lexemes 1) [first] _ rfl
      (hrest.mono (Nat.zero_le 1) (Nat.le_refl _))
    have hindex : [first].length + heading.size = 0 + heading.size + 1 := by
      rw [List.length_singleton]
      omega
    simp only [hindex, length_lexemes, List.append_nil] at hbehind
    rw [violation, hall]
    exact violationAt_first (hbehind.mono (Nat.le_refl 1) (Nat.zero_le _))

end SourceSurvey.Syntax
