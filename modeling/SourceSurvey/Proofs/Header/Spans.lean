import Mathlib.Data.List.TakeWhile
import SourceSurvey.Header
import SourceSurvey.Proofs.Syntax.Lexing

/-!
One header, by the text that it takes: a keyword, blanks and a name, and for a function what may
follow the name. A recogniser finds a header at the start of a text exactly where the text begins with
such a span.
-/

namespace SourceSurvey.Header

open Text

/-- Spaces and tabs, which may follow the name of a function. -/
def isGap (c : Char) : Bool := c == ' ' || c == '\t'

/-- A keyword, some blanks and a name. -/
inductive Introduces (keywords : List (List Char)) (name : List Char) : List Char → Prop
  | intro {keyword blanks : List Char} (hkeyword : keyword ∈ keywords) (hsome : blanks ≠ [])
    (hblanks : ∀ c ∈ blanks, isBlank c = true) (hne : name ≠ [])
    (hname : ∀ c ∈ name, isWordChar c = true) :
    Introduces keywords name (keyword ++ blanks ++ name)

/-- The span of the header of a class, before other text. The name goes as far as it can. -/
inductive ClassSpan : List Char → List Char → Header → Prop
  | intro {name span rest : List Char} (hspan : Introduces classKeywords name span)
    (hmaximal : rest.head?.any isWordChar = false) : ClassSpan span rest ⟨name, none⟩

/-- The span of the header of a function, before other text. The name and the spaces and tabs behind
    it go as far as they can; what is in parentheses goes to the first that closes, and belongs to the
    header only if one does. -/
inductive FunctionSpan : List Char → List Char → Header → Prop
  | bare {name span gap rest : List Char} (hspan : Introduces functionKeywords name span)
    (hgap : ∀ c ∈ gap, isGap c = true) (hmaximal : (gap ++ rest).head?.any isWordChar = false)
    (hend : rest.head?.any isGap = false)
    (hopen : ∀ inside after, rest ≠ '(' :: (inside ++ ')' :: after)) :
    FunctionSpan (span ++ gap) rest ⟨name, none⟩
  | listed {name span gap inside rest : List Char} (hspan : Introduces functionKeywords name span)
    (hgap : ∀ c ∈ gap, isGap c = true) (hinside : ')' ∉ inside) :
    FunctionSpan (span ++ gap ++ '(' :: (inside ++ [')'])) rest ⟨name, some inside⟩

/-- A recogniser finds a header exactly where a text begins with the span of one. -/
def Recognises (header? : List Char → Option (Header × Nat))
    (Span : List Char → List Char → Header → Prop) : Prop :=
  ∀ text header n, header? text = some (header, n) ↔
    ∃ span rest, text = span ++ rest ∧ span.length = n ∧ Span span rest header

/-! ### Characters -/

/-- Two boundaries of a table hold a range of code points between them. -/
theorem withinBounds_cons_cons_iff {first last code : Nat} {rest : List Nat} :
    withinBounds (first :: last :: rest) code = true ↔
      first ≤ code ∧ (code < last ∨ withinBounds rest code = true) := by
  simp only [withinBounds]
  grind

/-- The ranges of blank code points, each by its first and by how many it has. -/
def blankRanges : List (Nat × Nat) := [
  (9, 5), (32, 1), (133, 1), (160, 1), (5760, 1), (8192, 11), (8232, 2), (8239, 1), (8287, 1),
  (12288, 1)]

/-- A table that opens and closes ranges one after the other holds what one of them holds. -/
theorem exists_range_of_withinBounds {ranges : List (Nat × Nat)} {code : Nat}
    (h : withinBounds (ranges.flatMap fun r => [r.1, r.1 + r.2]) code = true) :
    ∃ r ∈ ranges, r.1 ≤ code ∧ code - r.1 < r.2 := by
  induction ranges with
  | nil => cases h
  | cons r ranges ih =>
    obtain ⟨hfirst, hlast | hrest⟩ := withinBounds_cons_cons_iff.mp h
    · exact ⟨r, List.mem_cons_self, hfirst, by omega⟩
    · obtain ⟨s, hs, hcode⟩ := ih hrest
      exact ⟨s, List.mem_cons_of_mem r hs, hcode⟩

theorem exists_blankRange {code : Nat} (h : withinBounds blankBounds code = true) :
    ∃ r ∈ blankRanges, r.1 ≤ code ∧ code - r.1 < r.2 := by
  have hbounds : blankBounds = blankRanges.flatMap fun r => [r.1, r.1 + r.2] := by decide
  rw [hbounds] at h
  exact exists_range_of_withinBounds h

theorem withinBounds_word_of_blankRange : ∀ r ∈ blankRanges, ∀ k < r.2,
    withinBounds wordBounds (r.1 + k) = false := by
  decide +kernel

/-- No character is both blank and part of a word. -/
theorem isBlank_of_isWordChar {c : Char} (h : isWordChar c = true) : isBlank c = false := by
  refine Bool.eq_false_iff.mpr fun hblank => ?_
  obtain ⟨r, hr, hle, hlt⟩ := exists_blankRange hblank
  have hnone := withinBounds_word_of_blankRange r hr _ hlt
  rw [Nat.add_sub_cancel' hle] at hnone
  rw [isWordChar, hnone] at h
  cases h

theorem isWordChar_of_isGap {c : Char} (h : isGap c = true) : isWordChar c = false := by
  rw [isGap, Bool.or_eq_true, beq_iff_eq, beq_iff_eq] at h
  obtain rfl | rfl := h
  · rfl
  · rfl

/-! ### Runs of characters -/

section Runs

variable {p : Char → Bool} {run rest : List Char}

theorem takeWhile_append_of_head? (hrun : ∀ c ∈ run, p c = true)
    (hrest : rest.head?.any p = false) : (run ++ rest).takeWhile p = run := by
  rw [List.takeWhile_append_of_pos hrun]
  cases rest with
  | nil => exact List.append_nil run
  | cons c rest => rw [List.takeWhile_cons_of_neg (by simpa using hrest), List.append_nil]

theorem head?_dropWhile_any (p : Char → Bool) (text : List Char) :
    (text.dropWhile p).head?.any p = false := by
  cases hdrop : text.dropWhile p with
  | nil => rfl
  | cons c rest =>
    have hhead := List.head_dropWhile_not p (l := text) (by simp [hdrop])
    simpa [hdrop] using hhead

end Runs

/-! ### Names -/

/-- A keyword finds a name in a text exactly where the text begins with the keyword, some blanks and
    that name. -/
theorem nameAfter?_eq_some_iff {keyword text name : List Char} {n : Nat} :
    nameAfter? keyword text = some (name, n) ↔ ∃ blanks rest,
      text = keyword ++ blanks ++ name ++ rest ∧ blanks ≠ [] ∧ (∀ c ∈ blanks, isBlank c = true) ∧
        name ≠ [] ∧ (∀ c ∈ name, isWordChar c = true) ∧ rest.head?.any isWordChar = false ∧
          (keyword ++ blanks ++ name).length = n := by
  constructor
  · intro h
    rw [nameAfter?] at h
    split at h
    · next hprefix =>
      obtain ⟨behind, rfl⟩ := List.isPrefixOf_iff_prefix.mp hprefix
      simp only [List.drop_left, Syntax.drop_length_takeWhile] at h
      split at h
      · cases h
      · next hne =>
        cases h
        rw [Bool.or_eq_true, not_or, decide_eq_true_iff, List.isEmpty_iff] at hne
        refine ⟨behind.takeWhile isBlank, (behind.dropWhile isBlank).dropWhile isWordChar, ?_,
          fun hnil => hne.1 (by rw [hnil]; rfl), fun c hc => List.mem_takeWhile_imp hc, hne.2,
          fun c hc => List.mem_takeWhile_imp hc, head?_dropWhile_any _ _, ?_⟩
        · rw [List.append_assoc, List.takeWhile_append_dropWhile, List.append_assoc,
            List.takeWhile_append_dropWhile]
        · simp [Nat.add_assoc]
    · cases h
  · rintro ⟨blanks, rest, rfl, hsome, hblanks, hne, hname, hrest, rfl⟩
    have hprefix : keyword.isPrefixOf (keyword ++ blanks ++ name ++ rest) = true := by
      rw [List.isPrefixOf_iff_prefix, List.append_assoc, List.append_assoc]
      exact List.prefix_append _ _
    have hblank : (blanks ++ (name ++ rest)).takeWhile isBlank = blanks := by
      obtain ⟨c, more, rfl⟩ := List.exists_cons_of_ne_nil hne
      refine takeWhile_append_of_head? hblanks ?_
      simpa using isBlank_of_isWordChar (hname c List.mem_cons_self)
    rw [nameAfter?, if_pos hprefix]
    simp only [List.append_assoc, List.drop_left, hblank, takeWhile_append_of_head? hname hrest]
    rw [if_neg (by simpa [hne] using hsome)]
    simp [Nat.add_assoc]

/-- A keyword of which no character is blank is the text up to the first blank. -/
theorem takeWhile_keyword {keyword blanks : List Char} (hkeyword : ∀ c ∈ keyword, isBlank c = false)
    (hsome : blanks ≠ []) (hblanks : ∀ c ∈ blanks, isBlank c = true) (rest : List Char) :
    (keyword ++ blanks ++ rest).takeWhile (fun c => !isBlank c) = keyword := by
  obtain ⟨c, more, rfl⟩ := List.exists_cons_of_ne_nil hsome
  rw [List.append_assoc]
  refine takeWhile_append_of_head? (fun d hd => by simp [hkeyword d hd]) ?_
  simp [hblanks c List.mem_cons_self]

/-- At most one keyword finds a name in a text. -/
theorem eq_of_nameAfter? {keyword keyword' text : List Char} {found found' : List Char × Nat}
    (hkeyword : ∀ c ∈ keyword, isBlank c = false) (hkeyword' : ∀ c ∈ keyword', isBlank c = false)
    (h : nameAfter? keyword text = some found) (h' : nameAfter? keyword' text = some found') :
    keyword = keyword' := by
  obtain ⟨blanks, rest, rfl, hsome, hblanks, -⟩ := nameAfter?_eq_some_iff.mp h
  obtain ⟨blanks', rest', heq, hsome', hblanks', -⟩ := nameAfter?_eq_some_iff.mp h'
  rw [List.append_assoc, List.append_assoc _ found'.1] at heq
  rw [← takeWhile_keyword hkeyword hsome hblanks, heq,
    takeWhile_keyword hkeyword' hsome' hblanks']

/-- The keywords find a name in a text exactly where the text begins with one of them, some blanks and
    that name, and the name goes as far as it can. -/
theorem named?_eq_some_iff {keywords : List (List Char)}
    (hkeywords : keywords.all (·.all fun c => !isBlank c) = true) {text name : List Char} {n : Nat} :
    named? keywords text = some (name, n) ↔ ∃ span rest, text = span ++ rest ∧ span.length = n ∧
      Introduces keywords name span ∧ rest.head?.any isWordChar = false := by
  have hkeyword : ∀ keyword ∈ keywords, ∀ c ∈ keyword, isBlank c = false := by
    intro keyword hmem c hc
    simpa using List.all_eq_true.mp (List.all_eq_true.mp hkeywords keyword hmem) c hc
  constructor
  · intro h
    obtain ⟨keyword, hmem, hname⟩ := List.exists_of_findSome?_eq_some h
    obtain ⟨blanks, rest, rfl, hsome, hblanks, hne, hword, hrest, rfl⟩ :=
      nameAfter?_eq_some_iff.mp hname
    exact ⟨_, rest, rfl, rfl, .intro hmem hsome hblanks hne hword, hrest⟩
  · rintro ⟨_, rest, rfl, rfl, hspan, hrest⟩
    obtain @⟨keyword, blanks, hmem, hsome, hblanks, hne, hword⟩ := hspan
    have hfound : nameAfter? keyword (keyword ++ blanks ++ name ++ rest) = some (name, _) :=
      nameAfter?_eq_some_iff.mpr ⟨blanks, rest, rfl, hsome, hblanks, hne, hword, hrest, rfl⟩
    obtain ⟨found, hnamed⟩ : ∃ found, named? keywords (keyword ++ blanks ++ name ++ rest) =
        some found := by
      rw [← Option.isSome_iff_exists, named?, List.findSome?_isSome_iff]
      exact ⟨keyword, hmem, by rw [hfound]; rfl⟩
    -- Another keyword that is found first is the same.
    obtain ⟨first, hfirst, hname⟩ := List.exists_of_findSome?_eq_some hnamed
    cases eq_of_nameAfter? (hkeyword first hfirst) (hkeyword keyword hmem) hname hfound
    rw [hnamed, ← hname, hfound]

/-! ### Parentheses -/

theorem parenthesised?_eq_some_iff {text inside : List Char} {n : Nat} :
    parenthesised? text = some (inside, n) ↔
      (∃ rest, text = '(' :: (inside ++ ')' :: rest)) ∧ ')' ∉ inside ∧ n = inside.length + 2 := by
  constructor
  · intro h
    unfold parenthesised? at h
    split at h
    · next rest =>
      simp only [Option.ite_none_right_eq_some, Option.some.injEq, Prod.mk.injEq] at h
      obtain ⟨hlt, rfl, rfl⟩ := h
      refine ⟨?_, fun hmem => by simpa using List.mem_takeWhile_imp hmem, rfl⟩
      have hsplit := List.takeWhile_append_dropWhile (p := (· != ')')) (l := rest)
      have hhead := head?_dropWhile_any (· != ')') rest
      cases hdrop : rest.dropWhile (· != ')') with
      | nil =>
        rw [hdrop, List.append_nil] at hsplit
        rw [hsplit] at hlt
        exact absurd hlt (Nat.lt_irrefl _)
      | cons c after =>
        rw [hdrop] at hsplit hhead
        obtain rfl : c = ')' := by simpa using hhead
        exact ⟨after, by rw [hsplit]⟩
    · cases h
  · rintro ⟨⟨rest, rfl⟩, hinside, rfl⟩
    have htake : (inside ++ ')' :: rest).takeWhile (· != ')') = inside :=
      takeWhile_append_of_head? (fun c hc => bne_iff_ne.mpr fun heq => hinside (heq ▸ hc)) rfl
    rw [parenthesised?, htake]
    simp

theorem parenthesised?_eq_none_iff {text : List Char} :
    parenthesised? text = none ↔ ∀ inside rest, text ≠ '(' :: (inside ++ ')' :: rest) := by
  constructor
  · rintro h inside rest rfl
    obtain ⟨first, after, hsplit, hfirst⟩ :=
      List.eq_append_cons_of_mem (show ')' ∈ inside ++ ')' :: rest by simp)
    rw [hsplit, parenthesised?_eq_some_iff.mpr ⟨⟨after, rfl⟩, hfirst, rfl⟩] at h
    cases h
  · intro h
    rw [Option.eq_none_iff_forall_ne_some]
    rintro ⟨inside, n⟩ hfound
    obtain ⟨⟨rest, heq⟩, -⟩ := parenthesised?_eq_some_iff.mp hfound
    exact h inside rest heq

/-! ### Headers -/

theorem Introduces.ne_nil {keywords : List (List Char)} {name span : List Char}
    (h : Introduces keywords name span) : span ≠ [] := by
  cases h with
  | intro _ _ _ hne _ => simp [hne]

theorem recognises_class? : Recognises class? ClassSpan := by
  intro text header n
  simp only [class?, Option.map_eq_some_iff, Prod.exists, Prod.mk.injEq]
  constructor
  · rintro ⟨name, n, hname, rfl, rfl⟩
    obtain ⟨span, rest, rfl, hlength, hspan, hrest⟩ := (named?_eq_some_iff rfl).mp hname
    exact ⟨span, rest, rfl, hlength, .intro hspan hrest⟩
  · rintro ⟨span, rest, rfl, rfl, @⟨name, _, _, hspan, hrest⟩⟩
    exact ⟨name, _, (named?_eq_some_iff rfl).mpr ⟨span, rest, rfl, rfl, hspan, hrest⟩, rfl, rfl⟩

/-- What may follow the name of a function, given what the name takes. -/
theorem function?_append {name span gap behind : List Char}
    (hspan : Introduces functionKeywords name span) (hgap : ∀ c ∈ gap, isGap c = true)
    (hmaximal : (gap ++ behind).head?.any isWordChar = false)
    (hend : behind.head?.any isGap = false) :
    function? (span ++ (gap ++ behind)) = some (match parenthesised? behind with
      | some (inside, m) => (⟨name, some inside⟩, span.length + gap.length + m)
      | none => (⟨name, none⟩, span.length + gap.length)) := by
  have hname : named? functionKeywords (span ++ (gap ++ behind)) = some (name, span.length) :=
    (named?_eq_some_iff rfl).mpr ⟨span, _, rfl, rfl, hspan, hmaximal⟩
  have htake : (gap ++ behind).takeWhile (fun c => c == ' ' || c == '\t') = gap :=
    takeWhile_append_of_head? hgap hend
  cases hparens : parenthesised? behind with
  | none => simp [function?, hname, htake, hparens]
  | some inside => simp [function?, hname, htake, hparens]

theorem recognises_function? : Recognises function? FunctionSpan := by
  intro text header n
  constructor
  · intro h
    obtain ⟨⟨name, k⟩, hname, -⟩ := Option.map_eq_some_iff.mp h
    obtain ⟨span, rest, rfl, -, hspan, hrest⟩ := (named?_eq_some_iff rfl).mp hname
    obtain ⟨gap, behind, rfl, hgap, hend⟩ : ∃ gap behind, rest = gap ++ behind ∧
        (∀ c ∈ gap, isGap c = true) ∧ behind.head?.any isGap = false :=
      ⟨_, _, (List.takeWhile_append_dropWhile (p := isGap)).symm,
        fun c hc => List.mem_takeWhile_imp hc, head?_dropWhile_any isGap rest⟩
    rw [function?_append hspan hgap hrest hend, Option.some.injEq] at h
    cases hparens : parenthesised? behind with
    | none =>
      rw [hparens] at h
      obtain ⟨rfl, rfl⟩ := Prod.mk.inj h
      refine ⟨span ++ gap, behind, (List.append_assoc ..).symm, List.length_append, ?_⟩
      exact .bare hspan hgap hrest hend (parenthesised?_eq_none_iff.mp hparens)
    | some found =>
      obtain ⟨inside, m⟩ := found
      rw [hparens] at h
      obtain ⟨rfl, rfl⟩ := Prod.mk.inj h
      obtain ⟨⟨rest, rfl⟩, hinside, rfl⟩ := parenthesised?_eq_some_iff.mp hparens
      refine ⟨_, rest, ?_, ?_, .listed hspan hgap hinside⟩
      · simp
      · simp [Nat.add_assoc]
  · rintro ⟨_, rest, rfl, rfl, hspan⟩
    cases hspan with
    | @bare name span gap _ hspan hgap hmaximal hend hopen =>
      rw [List.append_assoc, function?_append hspan hgap hmaximal hend,
        parenthesised?_eq_none_iff.mpr hopen, List.length_append]
    | @listed name span gap inside _ hspan hgap hinside =>
      have hmaximal : (gap ++ '(' :: (inside ++ ')' :: rest)).head?.any isWordChar = false := by
        cases gap with
        | nil => rfl
        | cons c gap => exact isWordChar_of_isGap (hgap c List.mem_cons_self)
      have hparens : parenthesised? ('(' :: (inside ++ ')' :: rest)) = some (inside, _) :=
        parenthesised?_eq_some_iff.mpr ⟨⟨rest, rfl⟩, hinside, rfl⟩
      have hfound := function?_append hspan hgap hmaximal rfl
      rw [hparens] at hfound
      simpa [Nat.add_assoc] using hfound

theorem ClassSpan.ne_nil {span rest : List Char} {header : Header}
    (h : ClassSpan span rest header) : span ≠ [] := by
  cases h with
  | intro hspan _ => exact hspan.ne_nil

theorem FunctionSpan.ne_nil {span rest : List Char} {header : Header}
    (h : FunctionSpan span rest header) : span ≠ [] := by
  cases h with
  | bare hspan _ _ _ _ => simp [hspan.ne_nil]
  | listed hspan _ _ => simp

end SourceSurvey.Header
