import Mathlib.Data.List.Infix
import SourceSurvey.Proofs.Header.Search

/-!
Separators that no header reaches over. What is neither blank nor part of a word ends the name of a
header, and a search for classes finds in a text with such a separator in it what it finds before it
and then what it finds behind it. For functions the same holds if no parenthesis before the separator
is left open, where a list of parameters could go on behind it.
-/

namespace SourceSurvey.Header

open Text

/-- Every parenthesis that opens in the text is followed by one that closes. -/
def Closes (text : List Char) : Prop := ∀ behind, '(' :: behind <:+ text → ')' ∈ behind

instance (text : List Char) : Decidable (Closes text) :=
  decidable_of_iff (∀ rest ∈ text.tails, rest.head? = some '(' → ')' ∈ rest.tail) <| by
    constructor
    · intro h behind hbehind
      exact h ('(' :: behind) ((List.mem_tails _ _).mpr hbehind) rfl
    · intro h rest hrest hhead
      obtain ⟨behind, rfl⟩ := List.head?_eq_some_iff.mp hhead
      exact h behind ((List.mem_tails _ _).mp hrest)

theorem Closes.of_suffix {text rest : List Char} (h : Closes text) (hrest : rest <:+ text) :
    Closes rest :=
  fun behind hbehind => h behind (hbehind.trans hrest)

/-! ### Names and lists of parameters -/

section Separator

variable {separator : Char} {text behind : List Char}

/-- A stretch of a text without the separator lies before it. -/
theorem exists_of_append_eq {span after : List Char} (hspan : separator ∉ span)
    (h : span ++ after = text ++ separator :: behind) :
    ∃ rest, text = span ++ rest ∧ after = rest ++ separator :: behind := by
  obtain ⟨rest, htext, hafter⟩ | ⟨more, hmore, hbehind⟩ := List.append_eq_append_iff.mp h
  · exact ⟨rest, htext, hafter⟩
  · cases more with
    | nil => exact ⟨[], by simpa using hmore.symm, by simpa using hbehind.symm⟩
    | cons c more =>
      obtain ⟨rfl, -⟩ := List.cons.inj hbehind
      exact absurd (by simp [hmore]) hspan

/-- A run that the separator is no part of ends before it, with or without other text behind. -/
theorem dropWhile_append_separator {p : Char → Bool} (hp : p separator = false)
    (text behind : List Char) :
    (text ++ separator :: behind).dropWhile p = text.dropWhile p ++ separator :: behind := by
  induction text with
  | nil => simp [hp]
  | cons c text ih =>
    cases hc : p c with
    | true => simpa [hc] using ih
    | false => simp [hc]

theorem takeWhile_append_separator {p : Char → Bool} (hp : p separator = false)
    (text behind : List Char) :
    (text ++ separator :: behind).takeWhile p = text.takeWhile p := by
  induction text with
  | nil => simp [hp]
  | cons c text ih =>
    cases hc : p c with
    | true => simpa [hc] using ih
    | false => simp [hc]

theorem head?_any_append {p : Char → Bool} (hp : p separator = false) (text behind : List Char) :
    (text ++ separator :: behind).head?.any p = text.head?.any p := by
  cases text with
  | nil => simpa using hp
  | cons c text => rfl

variable (hword : isWordChar separator = false) (hblank : isBlank separator = false)
include hword hblank

/-- No keyword, blank or name has the separator in it. -/
theorem Introduces.not_mem {keywords : List (List Char)} {name span : List Char}
    (h : Introduces keywords name span) (hkeywords : keywords.all (·.all isWordChar) = true) :
    separator ∉ span := by
  cases h with
  | @intro keyword blanks hkeyword _ hblanks _ hname =>
    have hkeyword := List.all_eq_true.mp (List.all_eq_true.mp hkeywords keyword hkeyword)
    simp only [List.mem_append, not_or]
    refine ⟨⟨fun hmem => ?_, fun hmem => ?_⟩, fun hmem => ?_⟩
    · simp [hkeyword separator hmem] at hword
    · simp [hblanks separator hmem] at hblank
    · simp [hname separator hmem] at hword

theorem named?_append_separator {keywords : List (List Char)}
    (hkeywords : keywords.all (·.all isWordChar) = true) (text behind : List Char) :
    named? keywords (text ++ separator :: behind) = named? keywords text := by
  have hblanks : keywords.all (·.all fun c => !isBlank c) = true := by
    simp only [List.all_eq_true, Bool.not_eq_true'] at hkeywords ⊢
    exact fun keyword hmem c hc => isBlank_of_isWordChar (hkeywords keyword hmem c hc)
  ext ⟨name, n⟩
  rw [named?_eq_some_iff hblanks, named?_eq_some_iff hblanks]
  constructor
  · rintro ⟨span, after, htext, hlength, hspan, hmaximal⟩
    obtain ⟨rest, rfl, rfl⟩ :=
      exists_of_append_eq (hspan.not_mem hword hblank hkeywords) htext.symm
    rw [head?_any_append hword] at hmaximal
    exact ⟨span, rest, rfl, hlength, hspan, hmaximal⟩
  · rintro ⟨span, rest, rfl, hlength, hspan, hmaximal⟩
    refine ⟨span, rest ++ separator :: behind, by simp, hlength, hspan, ?_⟩
    rwa [head?_any_append hword]

omit hword hblank in
/-- Parentheses that close before the separator have nothing behind it between them. -/
theorem parenthesised?_append_separator (hopen : separator ≠ '(') (hclosed : Closes text)
    (behind : List Char) : parenthesised? (text ++ separator :: behind) = parenthesised? text := by
  cases text with
  | nil =>
    rw [List.nil_append, parenthesised?.eq_2 _ (by simpa using hopen)]
    rfl
  | cons c rest =>
    by_cases hc : c = '('
    · -- The first parenthesis that closes is in the text, so that both lists end there.
      subst hc
      obtain ⟨inside, after, rfl, hinside⟩ :=
        List.eq_append_cons_of_mem (hclosed rest List.suffix_rfl)
      rw [List.cons_append, List.append_assoc, List.cons_append,
        parenthesised?_eq_some_iff.mpr ⟨⟨_, rfl⟩, hinside, rfl⟩,
        parenthesised?_eq_some_iff.mpr ⟨⟨_, rfl⟩, hinside, rfl⟩]
    · rw [List.cons_append, parenthesised?.eq_2 _ (by simpa using hc),
        parenthesised?.eq_2 _ (by simpa using hc)]

theorem class?_append_separator (text behind : List Char) :
    class? (text ++ separator :: behind) = class? text := by
  rw [class?, named?_append_separator hword hblank (by decide)]
  rfl

theorem function?_append_separator (hopen : separator ≠ '(') (hclosed : Closes text)
    (behind : List Char) : function? (text ++ separator :: behind) = function? text := by
  have hgap : isGap separator = false := by
    rw [isGap, Bool.or_eq_false_iff, beq_eq_false_iff_ne, beq_eq_false_iff_ne]
    constructor
    · rintro rfl
      cases hblank
    · rintro rfl
      cases hblank
  rw [function?, function?, named?_append_separator hword hblank (by decide)]
  -- Behind the name come the gap and the list, and both end before the separator.
  apply Option.map_congr
  rintro ⟨name, n⟩ hname
  obtain ⟨span, rest, rfl, rfl, -⟩ := (named?_eq_some_iff rfl).mp hname
  have htake : (rest ++ separator :: behind).takeWhile (fun c => c == ' ' || c == '\t') =
      rest.takeWhile isGap :=
    takeWhile_append_separator hgap rest behind
  have hdrop : (rest ++ separator :: behind).drop (rest.takeWhile isGap).length =
      rest.dropWhile isGap ++ separator :: behind := by
    rw [← takeWhile_append_separator hgap rest behind, Syntax.drop_length_takeWhile,
      dropWhile_append_separator hgap]
  have hrest : Closes (rest.dropWhile isGap) :=
    hclosed.of_suffix ((List.dropWhile_suffix _).trans (List.suffix_append _ _))
  have hparens : parenthesised? (rest.dropWhile isGap ++ separator :: behind) =
      parenthesised? (rest.drop (rest.takeWhile isGap).length) := by
    rw [parenthesised?_append_separator hopen hrest, Syntax.drop_length_takeWhile]
  simp only [List.append_assoc, List.drop_left, htake, hdrop, hparens]
  rfl

end Separator

/-! ### The search -/

section Search

variable {keywords : List (List Char)} {header? : List Char → Option (Header × Nat)}
  {Span : List Char → List Char → Header → Prop} {separator : Char}

/-- Where no header reaches over a separator, a search finds the headers before it and then those
    behind it. -/
theorem all_append_separator (hrecognises : Recognises header? Span)
    (hne : ∀ {span rest header}, Span span rest header → span ≠ [])
    (hpasses : PassesOver keywords header?) (hkeywords : [] ∉ keywords)
    (hword : isWordChar separator = false) (text : List Char) {behind : List Char}
    (hlocal : ∀ rest, rest <:+ text → header? (rest ++ separator :: behind) = header? rest)
    (afterWord : Bool) :
    all header? afterWord (text ++ separator :: behind) =
      all header? afterWord text ++ all header? false behind := by
  induction hn : text.length using Nat.strong_induction_on generalizing text afterWord with
  | _ n ih =>
    subst hn
    by_cases hhere : ∃ header n, afterWord = false ∧ header? text = some (header, n)
    · -- The header ends before the separator, and the search goes on behind the header.
      obtain ⟨header, n, rfl, hheader⟩ := hhere
      obtain ⟨span, rest, rfl, rfl, hspan⟩ := (hrecognises _ _ _).mp hheader
      obtain ⟨c, taken, rfl⟩ := List.exists_cons_of_ne_nil (hne hspan)
      have hlonger : header? (c :: taken ++ (rest ++ separator :: behind)) =
          some (header, taken.length + 1) := by
        rw [← List.append_assoc, hlocal _ List.suffix_rfl, hheader, List.length_cons]
      have hrest := ih rest.length (by simp only [List.length_append, List.length_cons]; omega) rest
        (fun later hlater => hlocal later (hlater.trans (List.suffix_append _ _)))
        ((c :: taken).getLast?.any isWordChar) rfl
      rw [List.append_assoc, all_append hlonger, all_append hheader, hrest, List.cons_append]
    · cases text with
      | nil => rw [List.nil_append, hpasses.single hword hkeywords, all_nil, List.nil_append]
      | cons c rest =>
        have hskip : afterWord = true ∨ header? (c :: rest) = none := by
          rw [Classical.or_iff_not_imp_left, Bool.not_eq_true, Option.eq_none_iff_forall_ne_some]
          exact fun hfirst found hfound => hhere ⟨found.1, found.2, hfirst, hfound⟩
        have hskip' : afterWord = true ∨ header? (c :: (rest ++ separator :: behind)) = none := by
          rwa [← List.cons_append, hlocal _ List.suffix_rfl]
        rw [List.cons_append, all_cons hskip', all_cons hskip]
        exact ih rest.length (by simp) rest
          (fun later hlater => hlocal later (hlater.trans (List.suffix_cons c rest))) _ rfl

end Search

/-! ### Records -/

variable {separator : Char} {first : List Char}

theorem classes_append_separator (hword : isWordChar separator = false)
    (hblank : isBlank separator = false) (first second : List Char) :
    classes (first ++ separator :: second) = classes first ++ classes second := by
  rw [classes, all_append_separator recognises_class? ClassSpan.ne_nil passesOver_class? (by decide)
    hword first fun rest _ => class?_append_separator hword hblank rest second]
  exact List.map_append

theorem functions_append_separator (hword : isWordChar separator = false)
    (hblank : isBlank separator = false) (hopen : separator ≠ '(') (hclosed : Closes first)
    (second : List Char) :
    functions (first ++ separator :: second) = functions first ++ functions second := by
  rw [functions, all_append_separator recognises_function? FunctionSpan.ne_nil passesOver_function?
    (by decide) hword first fun rest hrest =>
      function?_append_separator hword hblank hopen (hclosed.of_suffix hrest) second]
  exact List.map_append

/-- The classes of two texts with a semicolon between them are those of the first and then those of the
    second. So are the functions, with their parameters, if every parenthesis that opens in the first
    text is followed by one that closes there. -/
theorem record_append_semicolon (file path first second : String) :
    let joined := Header.record file path (first ++ ";" ++ second)
    joined.classes =
        (Header.record file path first).classes ++ (Header.record file path second).classes ∧
      (Closes first.toList → joined.functions =
        (Header.record file path first).functions ++ (Header.record file path second).functions) := by
  have htext : (first ++ ";" ++ second).toList = first.toList ++ ';' :: second.toList := by simp
  have hword : isWordChar ';' = false := by decide
  have hblank : isBlank ';' = false := by decide
  constructor
  · simp only [Header.record, htext]
    exact classes_append_separator hword hblank first.toList second.toList
  · intro hclosed
    simp only [Header.record, htext]
    exact functions_append_separator hword hblank (by decide) hclosed second.toList

set_option maxRecDepth 2000 in
/-- The keyword at the end of the first text names nothing with the second behind it, and the first
    closing parenthesis ends the list that two have opened. -/
theorem record_append_semicolon_keyword :
    let joined := Header.record "a.go" "a.go" ("fn f(a, (b) class" ++ ";" ++ "C func g )")
    Closes "fn f(a, (b) class".toList ∧ joined.classes = [] ∧
      joined.functions.map FunctionRecord.signature = [("f", ["a", "(b"]), ("g", [])] := by
  have hclosed : Closes "fn f(a, (b) class".toList := by decide
  have hclass : all class? false "fn f(a, (b) class".toList = [] := by with_unfolding_all rfl
  have hclass' : all class? false "C func g )".toList = [] := by with_unfolding_all rfl
  have hfunction : all function? false "fn f(a, (b) class".toList =
      [⟨['f'], some ['a', ',', ' ', '(', 'b']⟩] := by with_unfolding_all rfl
  have hfunction' : all function? false "C func g )".toList = [⟨['g'], none⟩] := by
    with_unfolding_all rfl
  obtain ⟨hclasses, hfunctions⟩ :=
    record_append_semicolon "a.go" "a.go" "fn f(a, (b) class" "C func g )"
  refine ⟨hclosed, ?_, ?_⟩
  · rw [hclasses]
    simp only [Header.record, classes, hclass, hclass', List.map_nil, List.append_nil]
  · rw [hfunctions hclosed]
    simp only [Header.record, functions, hfunction, hfunction']
    decide

end SourceSurvey.Header
