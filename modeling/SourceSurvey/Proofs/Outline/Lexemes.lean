import SourceSurvey.Proofs.Syntax.Places
import SourceSurvey.Proofs.Syntax.Quoting

/-!
The lexemes of an outline. A line begins with the blanks before its first lexeme, so the end of the
line before it belongs to it too, and every part of an outline is followed by a line end.
-/

namespace SourceSurvey.Syntax

/-- The blanks before the first lexeme of a line that is not the first. -/
def lead (level : Nat) : List Char := '\n' :: margin level

/-- The lexemes between the parentheses of a heading, with some blanks before the first of them. -/
def parameterLexemes (gap : List Char) : List Identifier → List Lexeme
  | [] => []
  | [p] => [⟨gap, p, .word p⟩]
  | p :: q :: rest =>
    ⟨gap, p, .word p⟩ :: ⟨[], [','], .symbol .comma⟩ :: parameterLexemes [' '] (q :: rest)

/-- The word that a heading begins with. -/
def Heading.keyword : Heading → Word
  | function _ _ => Keyword.def_
  | classType _ => Keyword.class_

/-- The lexemes of a heading between its first word and its colon. -/
def Heading.tail : Heading → List Lexeme
  | function name parameters =>
    ⟨[' '], name, .word name⟩ :: ⟨[], ['('], .symbol .leftParen⟩ ::
      (parameterLexemes [] parameters ++ [⟨[], [')'], .symbol .rightParen⟩])
  | classType name => [⟨[' '], name, .word name⟩]

/-- The lexemes of a heading, up to its colon. -/
def Heading.lexemes (gap : List Char) (heading : Heading) : List Lexeme :=
  ⟨gap, heading.keyword, .word heading.keyword⟩ :: heading.tail

/-- The lexeme of a documentation, if there is one. -/
def docLexemes (level : Nat) : Option (List Char) → List Lexeme
  | none => []
  | some doc => [⟨lead level, quoteLine doc, .string true⟩]

/-- The lexemes from the colon of a definition to its final `pass`, with those of the definitions
    inside. -/
def bodyLexemes (level : Nat) (doc : Option (List Char)) (inside : List Lexeme) : List Lexeme :=
  ⟨[], [':'], .symbol .colon⟩ ::
    (docLexemes (level + 1) doc ++
      (inside ++ [⟨lead (level + 1), Keyword.pass_, .word Keyword.pass_⟩]))

/-- The lexemes of an outline, with some blanks before the first of them. -/
def Outline.lexemes (gap : List Char) (level : Nat) : Outline → List Lexeme
  | done => []
  | definition heading doc inside rest =>
    heading.lexemes gap ++ bodyLexemes level doc (inside.lexemes (lead (level + 1)) (level + 1)) ++
      rest.lexemes (lead level) level

theorem joined_parameterLexemes {gap : List Char} {parameters : List Identifier}
    (hne : parameters ≠ []) :
    Lexeme.joined (parameterLexemes gap parameters) =
      gap ++ Text.join [',', ' '] (parameters.map (·.val)) := by
  fun_induction parameterLexemes gap parameters with
  | case1 => exact absurd rfl hne
  | case2 gap p => simp [Text.join]
  | case3 gap p q rest ih =>
    rw [List.map_cons, List.map_cons, Text.join, List.intercalate_cons_cons]
    rw [List.map_cons, Text.join] at ih
    simp [ih (List.cons_ne_nil q rest)]

theorem joined_heading (heading : Heading) (gap : List Char) :
    Lexeme.joined (heading.lexemes gap) = gap ++ heading.text := by
  cases heading with
  | function name parameters =>
    cases parameters with
    | nil =>
      simp [Heading.lexemes, Heading.keyword, Heading.tail, Heading.text, parameterLexemes,
        Text.join]
    | cons p rest =>
      simp [Heading.lexemes, Heading.keyword, Heading.tail, Heading.text, Lexeme.joined_append,
        joined_parameterLexemes]
  | classType name => simp [Heading.lexemes, Heading.keyword, Heading.tail, Heading.text]

/-- A documentation stands on a line of its own. -/
theorem joined_docLexemes (level : Nat) (doc : Option (List Char)) :
    Lexeme.joined (docLexemes level doc) ++ ['\n'] = '\n' :: docLine level doc := by
  cases doc with
  | none => rfl
  | some doc => simp [docLexemes, docLine, lead]

/-- A line end that comes after a text may as well be seen before it. -/
theorem append_cons_of_append_singleton {first second : List Char}
    (h : first ++ ['\n'] = '\n' :: second) (rest : List Char) :
    first ++ '\n' :: rest = '\n' :: (second ++ rest) := by
  rw [← List.singleton_append, ← List.append_assoc, h, List.cons_append]

namespace Outline

/-- A definition is written as its heading and its body are. -/
theorem joined_definition (gap : List Char) (level : Nat) (heading : Heading)
    (doc : Option (List Char)) {inside : Outline}
    (hinside : Lexeme.joined (inside.lexemes (lead (level + 1)) (level + 1)) ++ ['\n'] =
      '\n' :: inside.text (level + 1)) :
    Lexeme.joined (heading.lexemes gap ++
        bodyLexemes level doc (inside.lexemes (lead (level + 1)) (level + 1))) =
      gap ++ snippet level heading doc (inside.text (level + 1)) := by
  have hpass := append_cons_of_append_singleton hinside (margin (level + 1) ++ Keyword.pass_)
  have hbody := append_cons_of_append_singleton (joined_docLexemes (level + 1) doc)
    (inside.text (level + 1) ++ (margin (level + 1) ++ Keyword.pass_))
  have hlead : lead (level + 1) ++ Keyword.pass_ = '\n' :: (margin (level + 1) ++ Keyword.pass_) :=
    rfl
  simp only [bodyLexemes, snippet, Lexeme.joined_append, joined_heading, joined_cons, joined_nil,
    List.append_nil, List.nil_append, List.append_assoc, List.cons_append, hlead, hpass, hbody]

/-- The lexemes of an outline are cut from its text, but for the line end behind it. -/
theorem joined_lexemes (o : Outline) (level : Nat) :
    Lexeme.joined (o.lexemes (lead level) level) ++ ['\n'] = '\n' :: o.text level := by
  induction o generalizing level with
  | done => rfl
  | definition heading doc inside rest ihinside ihrest =>
    rw [lexemes, Lexeme.joined_append, joined_definition _ _ _ _ (ihinside (level + 1)),
      List.append_assoc, ihrest, text, lead]
    simp

end Outline

theorem all_isSeparator_lead (level : Nat) : (lead level).all isSeparator = true := by
  have hmargin : (margin level).all isSeparator = true :=
    List.all_eq_true.mpr fun c hc => by rw [List.eq_of_mem_replicate hc]; rfl
  rw [lead, List.all_cons, hmargin]
  rfl

theorem cutsOff_parameterLexemes {gap : List Char} (hgap : gap.all isSeparator = true)
    (parameters : List Identifier) (rest : List Char) :
    CutsOff (parameterLexemes gap parameters ++ [⟨[], [')'], .symbol .rightParen⟩]) rest := by
  fun_induction parameterLexemes gap parameters with
  | case1 => exact cutsOff_rightParen rest
  | case2 gap p => exact .cons (cutsOff_word hgap p.property rfl) (cutsOff_rightParen rest)
  | case3 gap p q more ih =>
    exact .cons (cutsOff_word hgap p.property rfl) (.cons (cutsOff_comma _) (ih rfl))

theorem cutsOff_heading {gap : List Char} (hgap : gap.all isSeparator = true) (heading : Heading)
    (rest : List Char) : CutsOff (heading.lexemes gap) (':' :: rest) := by
  cases heading with
  | function name parameters =>
    refine .cons (cutsOff_word hgap rfl rfl) (.cons (cutsOff_word rfl name.property rfl) ?_)
    exact .cons (cutsOff_leftParen _) (cutsOff_parameterLexemes rfl parameters _)
  | classType name =>
    exact .cons (cutsOff_word hgap rfl rfl) (cutsOff_word rfl name.property rfl)

theorem cutsOff_docLexemes (level : Nat) (doc : Option (List Char)) (rest : List Char) :
    CutsOff (docLexemes level doc) ('\n' :: rest) := by
  cases doc with
  | none => exact cutsOff_nil _
  | some doc => exact cutsOff_quoteLine (all_isSeparator_lead level) doc (by simp)

/-- Each part of a body begins with a line end, which is what has to follow the part before it. -/
theorem cutsOff_bodyLexemes (level : Nat) (doc : Option (List Char)) {inside : List Lexeme}
    {text : List Char} (htext : Lexeme.joined inside ++ ['\n'] = '\n' :: text)
    (hinside : ∀ rest, CutsOff inside ('\n' :: rest)) (rest : List Char) :
    CutsOff (bodyLexemes level doc inside) ('\n' :: rest) := by
  let pass : Lexeme := ⟨lead (level + 1), Keyword.pass_, .word Keyword.pass_⟩
  have hpass : CutsOff [pass] ('\n' :: rest) :=
    cutsOff_word (all_isSeparator_lead (level + 1)) rfl rfl
  let behindPass := margin (level + 1) ++ Keyword.pass_ ++ '\n' :: rest
  have hbehindPass : Lexeme.joined [pass] ++ '\n' :: rest = '\n' :: behindPass := by
    simp [pass, behindPass, lead]
  have hbehindInside : Lexeme.joined (inside ++ [pass]) ++ '\n' :: rest =
      '\n' :: (text ++ behindPass) := by
    rw [Lexeme.joined_append, List.append_assoc, hbehindPass,
      append_cons_of_append_singleton htext]
  have hbehindDoc :
      Lexeme.joined (docLexemes (level + 1) doc ++ (inside ++ [pass])) ++ '\n' :: rest =
      '\n' :: (docLine (level + 1) doc ++ (text ++ behindPass)) := by
    rw [Lexeme.joined_append, List.append_assoc, hbehindInside,
      append_cons_of_append_singleton (joined_docLexemes (level + 1) doc)]
  refine .cons (hbehindDoc ▸ cutsOff_colon _) (.append ?_ (.append ?_ hpass))
  · exact hbehindInside ▸ cutsOff_docLexemes (level + 1) doc _
  · exact hbehindPass ▸ hinside _

/-- An outline is cut into its lexemes, whatever lines come behind it. -/
theorem Outline.cutsOff (o : Outline) {gap : List Char} (hgap : gap.all isSeparator = true)
    (level : Nat) (rest : List Char) : CutsOff (o.lexemes gap level) ('\n' :: rest) := by
  induction o generalizing gap level rest with
  | done => exact cutsOff_nil _
  | definition heading doc inside others ihinside ihothers =>
    have hbehind := append_cons_of_append_singleton (others.joined_lexemes level) rest
    refine .append ?_ (ihothers (all_isSeparator_lead level) level rest)
    rw [hbehind]
    refine .append (cutsOff_heading hgap heading _) ?_
    exact cutsOff_bodyLexemes level doc (inside.joined_lexemes (level + 1))
      (fun rest => ihinside (all_isSeparator_lead (level + 1)) (level + 1) rest) _

/-- Behind the last token there are only blanks. -/
theorem lexemesFrom_of_gapLength {gap : List Char} (hgap : gapLength gap = gap.length) :
    lexemesFrom [] gap = [⟨gap, [], .finish⟩] := by
  have hlength : gapLengthIn [] gap = gap.length := hgap
  rw [lexemesFrom]
  split
  · rfl
  · next heq =>
    rw [hlength, List.drop_length] at heq
    cases heq

/-- The lexemes of the text of an outline are its lexemes and the end of the text. -/
theorem Outline.lexemes_text (o : Outline) :
    ∃ gap, (gap = [] ∨ gap = ['\n']) ∧
      Syntax.lexemes (o.text 0) = o.lexemes [] 0 ++ [⟨gap, [], .finish⟩] := by
  cases o with
  | done => exact ⟨[], .inl rfl, lexemesFrom_of_gapLength rfl⟩
  | definition heading doc inside others =>
    have hcut : CutsOff ((definition heading doc inside others).lexemes [] 0) ['\n'] :=
      cutsOff _ rfl 0 []
    have htext : (definition heading doc inside others).text 0 =
        Lexeme.joined ((definition heading doc inside others).lexemes [] 0) ++ ['\n'] := by
      rw [lexemes, Lexeme.joined_append,
        joined_definition _ _ _ _ (inside.joined_lexemes 1), List.append_assoc,
        others.joined_lexemes, text]
      simp [margin]
    have hend : lexemesFrom [] ['\n'] = [⟨['\n'], [], .finish⟩] := lexemesFrom_of_gapLength rfl
    rw [CutsOff, ← htext, hend] at hcut
    exact ⟨['\n'], .inr rfl, hcut⟩

end SourceSurvey.Syntax
