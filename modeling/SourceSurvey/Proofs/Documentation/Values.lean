import SourceSurvey.Proofs.Documentation.Phrases
import SourceSurvey.Proofs.LineEnds.Lexemes

/-!
Which literals have a value: those whose letters make them neither bytes nor a literal with
interpolations, and whose quotation marks are no backquotes.
-/

namespace SourceSurvey.Syntax

/-- The letters before the quotation mark of a literal. -/
def Lexeme.letters (l : Lexeme) : List Char := l.text.takeWhile isLiteralLetter

/-- The quotation mark of a literal. -/
def Lexeme.mark? (l : Lexeme) : Option Char := (l.text.drop l.letters.length).head?

/-- The letters that make a literal no text: those of bytes and those of interpolation. -/
def textlessLetters : List Char := ['b', 'B', 'f', 'F']

/-- A literal is cut off with its whole opening, which tells whether it interpolates. -/
theorem opens_of_recogniseCode {frames : List Frame} {c : Char} {rest : List Char}
    (h : (recogniseCode frames c rest).token.startsLiteral = true) :
    ∃ q opening, Quotation.ofText? ((c :: rest).take ((recogniseCode frames c rest).more + 1)) =
        some (q, opening) ∧
      (q.format = true ↔ (recogniseCode frames c rest).token = .formatStart) := by
  cases hopening : Quotation.ofText? (c :: rest) with
  | none =>
    simp only [recogniseCode, hopening] at h
    repeat' split at h
    all_goals cases h
  | some found =>
    obtain ⟨q, opening⟩ := found
    have hone := (Quotation.opening_spec hopening).1
    refine ⟨q, opening, ?_⟩
    simp only [recogniseCode, hopening] at h ⊢
    split
    · next hformat =>
      have hmore : opening - 1 + 1 = opening := by omega
      refine ⟨?_, iff_of_true hformat rfl⟩
      rw [hmore]
      exact Quotation.ofText?_take hopening (Nat.le_refl _)
    · next hformat =>
      rw [if_neg hformat] at h
      split at h
      · next n hstretch =>
        have hmore : opening - 1 + n + 1 = opening + n := by omega
        refine ⟨?_, iff_of_false hformat fun h => by cases h⟩
        rw [hmore]
        exact Quotation.ofText?_take hopening (Nat.le_add_right _ _)
      · cases h

theorem Token.isUniform_of_startsLiteral {t : Token} (h : t.startsLiteral = true) :
    t.isUniform = true := by
  cases t <;> first | rfl | cases h

theorem opens_of_recognise {frames : List Frame} {c : Char} {rest : List Char}
    (h : (recognise frames c rest).token.startsLiteral = true) :
    ∃ q opening, Quotation.ofText? ((c :: rest).take ((recognise frames c rest).more + 1)) =
        some (q, opening) ∧
      (q.format = true ↔ (recognise frames c rest).token = .formatStart) := by
  obtain ⟨behind, -, heq⟩ := recognise_eq_code (Token.isUniform_of_startsLiteral h)
  rw [heq] at h ⊢
  exact opens_of_recogniseCode h

/-- The text of a literal begins with its opening. -/
theorem opens_of_mem_lexemesFrom {frames : List Frame} {source : List Char} :
    ∀ l ∈ lexemesFrom frames source, l.token.startsLiteral = true →
      ∃ q opening, Quotation.ofText? l.text = some (q, opening) ∧
        (q.format = true ↔ l.token = .formatStart) :=
  forall_mem_lexemesFrom (fun _ => nofun) (fun _ _ _ _ _ hstarts => opens_of_recognise hstarts)
    frames source

theorem textless_opened (letters : List Char) (mark : Char) (isMark : isQuotationMark mark = true)
    (rest : List Char) :
    ((Quotation.opened letters mark isMark rest).bytes ||
      (Quotation.opened letters mark isMark rest).format) =
        letters.any (· ∈ textlessLetters) := by
  rw [Bool.eq_iff_iff]
  simp only [Quotation.opened, textlessLetters, Bool.or_eq_true, List.any_eq_true, beq_iff_eq,
    decide_eq_true_iff, List.mem_cons, List.not_mem_nil, or_false]
  grind

/-- An opening is made of the letters and the mark of a literal. -/
theorem letters_of_ofText? {l : Lexeme} {q : Quotation} {opening : Nat}
    (h : Quotation.ofText? l.text = some (q, opening)) :
    l.mark? = some q.mark ∧ (q.bytes || q.format) = l.letters.any (· ∈ textlessLetters) := by
  rw [Quotation.ofText?] at h
  simp only at h
  rw [Lexeme.mark?, Lexeme.letters]
  split at h
  · next mark rest hbehind =>
    split at h
    · cases h
      rw [hbehind]
      exact ⟨rfl, textless_opened ..⟩
    · cases h
  · cases h

/-- A byte order mark is no part of a token. -/
theorem getElem?_unmarked (source : List Lexeme) (i : Nat) :
    ((Lexeme.unmarked source)[i]?).map (fun l => (l.text, l.token)) =
      (source[i]?).map fun l => (l.text, l.token) := by
  cases source with
  | nil => rfl
  | cons first rest => cases i <;> rfl

theorem exists_of_mem_unmarked {source : List Lexeme} {l : Lexeme}
    (h : l ∈ Lexeme.unmarked source) : ∃ k ∈ source, k.text = l.text ∧ k.token = l.token := by
  obtain ⟨i, hi⟩ := List.mem_iff_getElem?.mp h
  have hsame := getElem?_unmarked source i
  rw [hi, Option.map_some, eq_comm, Option.map_eq_some_iff] at hsame
  obtain ⟨k, hk, hboth⟩ := hsame
  exact ⟨k, List.mem_of_getElem? hk, (Prod.mk.inj hboth).1, (Prod.mk.inj hboth).2⟩

theorem literalValue?_isSome {text : List Char} {q : Quotation} {opening : Nat}
    (h : Quotation.ofText? text = some (q, opening)) :
    (literalValue? text).isSome = true ↔ q.mark ≠ '`' ∧ (q.bytes || q.format) = false := by
  rw [literalValue?, h]
  show (if (q.bytes || q.format || q.mark == '`') = true then none else some _).isSome = true ↔ _
  split
  · next hnone =>
    rw [Bool.or_eq_true, beq_iff_eq] at hnone
    refine iff_of_false Bool.false_ne_true fun hvalue => ?_
    obtain ⟨hmark, hletters⟩ := hvalue
    rw [hletters] at hnone
    exact hnone.elim Bool.false_ne_true hmark
  · next hsome =>
    rw [Bool.or_eq_true, beq_iff_eq, not_or, Bool.not_eq_true] at hsome
    exact iff_of_true rfl hsome.symm

/-- A literal has a value unless its letters or its mark say that it is no text. -/
theorem value?_isSome_iff {text : List Char} {l : Lexeme} (hl : l ∈ Lexeme.unmarked (lexemes text))
    (hstarts : l.token.startsLiteral = true) :
    l.value?.isSome = true ↔ l.mark? ≠ some '`' ∧ ∀ c ∈ l.letters, c ∉ textlessLetters := by
  obtain ⟨k, hk, htext, htoken⟩ := exists_of_mem_unmarked hl
  obtain ⟨q, opening, hopening, hformat⟩ := opens_of_mem_lexemesFrom k hk (htoken ▸ hstarts)
  rw [htext] at hopening
  rw [htoken] at hformat
  obtain ⟨hmark, hletters⟩ := letters_of_ofText? hopening
  have hplain : (∀ c ∈ l.letters, c ∉ textlessLetters) ↔ (q.bytes || q.format) = false := by
    rw [hletters, List.any_eq_false]
    simp
  rw [hmark, hplain, ne_eq, Option.some_inj, Lexeme.value?]
  split
  · exact literalValue?_isSome hopening
  · next hstring =>
    have hstart : l.token = .formatStart := by
      cases hkind : l.token with
      | formatStart => rfl
      | string bare => exact absurd hkind (hstring bare)
      | _ =>
        rw [hkind] at hstarts
        cases hstarts
    refine iff_of_false Bool.false_ne_true fun htext => ?_
    have hletters := htext.2
    rw [hformat.mpr hstart, Bool.or_true] at hletters
    cases hletters

/-- The parts of an expression have the values of its literals. -/
theorem mapM_partValue? {source literals : List Lexeme} {parts : List LiteralPart}
    (h : Parts source parts literals) :
    parts.mapM (partValue? source) = literals.mapM Lexeme.value? := by
  induction h with
  | nil => rfl
  | @cons part l parts literals hpart _ ih =>
    have hvalue : partValue? source part = l.value? := by
      cases hpart with
      | @plain index _ hl =>
        have hsame := getElem?_unmarked source index
        rw [hl, Option.map_some, eq_comm, Option.map_eq_some_iff] at hsame
        obtain ⟨k, hk, hboth⟩ := hsame
        obtain ⟨htext, htoken⟩ := Prod.mk.inj hboth
        rw [partValue?, hk, Option.bind_some, Lexeme.value?, Lexeme.value?, htext, htoken]
      | formatted hstart => rw [partValue?, Lexeme.value?, hstart]
    rw [List.mapM_cons, List.mapM_cons, hvalue, ih]

/-- Only literals that stand in the source by themselves have values. -/
theorem Lexeme.plain_of_value? {l : Lexeme} (h : l.value?.isSome = true) : l.Plain := by
  unfold value? at h
  split at h
  · next bare hstring => exact ⟨bare, hstring⟩
  · cases h

theorem mapM_value?_isSome {literals : List Lexeme} :
    (literals.mapM Lexeme.value?).isSome = true ↔ ∀ l ∈ literals, l.value?.isSome = true := by
  induction literals with
  | nil => simp
  | cons l literals ih =>
    rw [List.mapM_cons, List.forall_mem_cons, ← ih]
    cases l.value? with
    | none => simp
    | some value => cases literals.mapM Lexeme.value? <;> simp

end SourceSurvey.Syntax
