import SourceSurvey.Proofs.Header.Search

/-!
Declarations of functions as they are written one after the other, with any blanks inside them and any
text without words between them. A search finds each of them and nothing else: its header ends at its
own closing parenthesis, so that the next one is found behind it, whatever names and parameters look
like.
-/

namespace SourceSurvey.Header

open Text

/-- A function as it is declared: by a keyword, a name and parameters. -/
structure Declaration where
  keyword : List Char
  name : List Char
  parameters : List (List Char)
  keyword_mem : keyword ∈ functionKeywords
  name_ne_nil : name ≠ []
  isWordChar_name : ∀ c ∈ name, isWordChar c = true
  parameter_ne_nil : ∀ p ∈ parameters, p ≠ []
  trim_parameter : ∀ p ∈ parameters, trim p = p
  comma_not_mem : ∀ p ∈ parameters, ',' ∉ p
  close_not_mem : ∀ p ∈ parameters, ')' ∉ p

/-- What may stand between the parentheses for some parameters: only blanks for none, and otherwise the
    parameters with a comma between each two and any blanks around each. -/
inductive WritesList : List (List Char) → List Char → Prop
  | none {blanks : List Char} (hblanks : ∀ c ∈ blanks, isBlank c = true) : WritesList [] blanks
  | last {before p after : List Char} (hbefore : ∀ c ∈ before, isBlank c = true)
    (hafter : ∀ c ∈ after, isBlank c = true) : WritesList [p] (before ++ p ++ after)
  | more {before p after q : List Char} {others : List (List Char)} {rest : List Char}
    (hbefore : ∀ c ∈ before, isBlank c = true) (hafter : ∀ c ∈ after, isBlank c = true)
    (hrest : WritesList (q :: others) rest) :
    WritesList (p :: q :: others) (before ++ p ++ after ++ ',' :: rest)

/-- How a declaration may be written: blanks behind the keyword, spaces and tabs behind the name. -/
inductive Writes (d : Declaration) : List Char → Prop
  | intro {blanks gap inside : List Char} (hsome : blanks ≠ [])
    (hblanks : ∀ c ∈ blanks, isBlank c = true) (hgap : ∀ c ∈ gap, c = ' ' ∨ c = '\t')
    (hinside : WritesList d.parameters inside) :
    Writes d (d.keyword ++ blanks ++ d.name ++ gap ++ '(' :: (inside ++ [')']))

/-- How declarations may be written one after the other, with no word before, between or behind
    them. -/
inductive WritesAll : List Declaration → List Char → Prop
  | done {between : List Char} (hbetween : ∀ c ∈ between, isWordChar c = false) :
    WritesAll [] between
  | next {between span rest : List Char} {d : Declaration} {others : List Declaration}
    (hbetween : ∀ c ∈ between, isWordChar c = false) (hspan : Writes d span)
    (hrest : WritesAll others rest) : WritesAll (d :: others) (between ++ (span ++ rest))

/-! ### Lists of parameters -/

/-- A field is trimmed to what it is without the blanks at either end. -/
theorem Trims.trim_eq {field p : List Char} (h : Trims field p) : trim field = p := by
  obtain ⟨⟨before, after, rfl, hblanks⟩, hhead, hlast⟩ := h
  obtain ⟨hbefore, hafter⟩ := List.forall_mem_append.mp hblanks
  cases hp : p with
  | nil =>
    rw [trim_eq_nil_iff, List.append_nil]
    exact hblanks
  | cons c rest =>
    have hstart : (before ++ (p ++ after)).dropWhile isBlank = p ++ after := by
      rw [List.dropWhile_append_of_pos hbefore]
      subst hp
      exact List.dropWhile_cons_of_neg (by simpa using hhead)
    have hend : (after.reverse ++ p.reverse).dropWhile isBlank = p.reverse := by
      rw [List.dropWhile_append_of_pos (by simpa using hafter)]
      rw [← List.head?_reverse] at hlast
      cases hreverse : p.reverse with
      | nil => rfl
      | cons d more =>
        rw [hreverse] at hlast
        exact List.dropWhile_cons_of_neg (by simpa using hlast)
    rw [← hp, trim, trimStart, trimEnd, List.append_assoc, hstart, List.reverse_append, hend,
      List.reverse_reverse]

section Lists

variable {p before after inside : List Char} {parameters : List (List Char)}

/-- A parameter that is trimmed already is what its field is trimmed to. -/
theorem trim_field (hp : trim p = p) (hbefore : ∀ c ∈ before, isBlank c = true)
    (hafter : ∀ c ∈ after, isBlank c = true) : trim (before ++ p ++ after) = p := by
  have hself := trims_trim p
  rw [hp] at hself
  have hfield : Trims (before ++ p ++ after) p :=
    ⟨⟨before, after, rfl, List.forall_mem_append.mpr ⟨hbefore, hafter⟩⟩, hself.head, hself.last⟩
  exact hfield.trim_eq

/-- No field has a character that neither blanks nor its parameter have. -/
theorem not_mem_field {c : Char} (hc : isBlank c = false) (hp : c ∉ p)
    (hbefore : ∀ c ∈ before, isBlank c = true) (hafter : ∀ c ∈ after, isBlank c = true) :
    c ∉ before ++ p ++ after := by
  simp only [List.mem_append, not_or]
  refine ⟨⟨fun hmem => ?_, hp⟩, fun hmem => ?_⟩
  · simp [hbefore c hmem] at hc
  · simp [hafter c hmem] at hc

theorem WritesList.close_not_mem (h : WritesList parameters inside)
    (hclose : ∀ p ∈ parameters, ')' ∉ p) : ')' ∉ inside := by
  induction h with
  | none hblanks => simpa using not_mem_field (p := []) (by decide) (by simp) hblanks hblanks
  | last hbefore hafter =>
    exact not_mem_field (by decide) (hclose _ List.mem_cons_self) hbefore hafter
  | more hbefore hafter _ ih =>
    obtain ⟨hp, hothers⟩ := List.forall_mem_cons.mp hclose
    rw [List.mem_append, List.mem_cons, not_or, not_or]
    exact ⟨not_mem_field (by decide) hp hbefore hafter, by decide, ih hothers⟩

theorem WritesList.mem_of_mem (h : WritesList parameters inside) (hp : p ∈ parameters) {c : Char}
    (hc : c ∈ p) : c ∈ inside := by
  induction h with
  | none => cases hp
  | last =>
    obtain rfl := List.mem_singleton.mp hp
    simp [hc]
  | more _ _ _ ih =>
    obtain rfl | hothers := List.mem_cons.mp hp
    · simp [hc]
    · simp [ih hothers]

/-- Cut at the commas and trimmed, the text between the parentheses gives the parameters, if there are
    some. -/
theorem WritesList.map_trim_split (h : WritesList parameters inside) (hne : parameters ≠ [])
    (htrim : ∀ p ∈ parameters, trim p = p) (hcomma : ∀ p ∈ parameters, ',' ∉ p) :
    (split ',' inside).map trim = parameters := by
  induction h with
  | none => exact absurd rfl hne
  | last hbefore hafter =>
    have hp := htrim _ List.mem_cons_self
    rw [split_of_not_mem (not_mem_field (by decide) (hcomma _ List.mem_cons_self) hbefore hafter),
      List.map_singleton, trim_field hp hbefore hafter]
  | more hbefore hafter _ ih =>
    obtain ⟨hp, hothers⟩ := List.forall_mem_cons.mp htrim
    obtain ⟨hfree, hfrees⟩ := List.forall_mem_cons.mp hcomma
    rw [split_append, split_of_not_mem (not_mem_field (by decide) hfree hbefore hafter),
      List.singleton_append, List.map_cons, trim_field hp hbefore hafter,
      ih (List.cons_ne_nil _ _) hothers hfrees]

end Lists

theorem Declaration.parameterList_eq (d : Declaration) {inside : List Char}
    (h : WritesList d.parameters inside) :
    parameterList ⟨d.name, some inside⟩ = d.parameters := by
  cases hparameters : d.parameters with
  | nil =>
    rw [hparameters] at h
    cases h with
    | none hblanks =>
      have hnil : (trim inside).isEmpty = true := List.isEmpty_iff.mpr (trim_eq_nil_iff.mpr hblanks)
      simp [parameterList, hnil]
  | cons p others =>
    have hmem : p ∈ d.parameters := by simp [hparameters]
    have hsome : (trim inside).isEmpty = false := by
      rw [Bool.eq_false_iff, ne_eq, List.isEmpty_iff, trim_eq_nil_iff]
      intro hblanks
      have hnil : trim p = [] := trim_eq_nil_iff.mpr fun c hc => hblanks c (h.mem_of_mem hmem hc)
      exact d.parameter_ne_nil p hmem ((d.trim_parameter p hmem).symm.trans hnil)
    have hfields := h.map_trim_split (by simp [hparameters]) d.trim_parameter d.comma_not_mem
    rw [← hparameters]
    simpa [parameterList, hsome] using hfields

/-! ### Declarations -/

/-- A written declaration is the span of one header, whatever comes behind it. -/
theorem Writes.functionSpan {d : Declaration} {span : List Char} (h : Writes d span) :
    ∃ inside, WritesList d.parameters inside ∧ span.getLast? = some ')' ∧
      ∀ rest, FunctionSpan span rest ⟨d.name, some inside⟩ := by
  obtain @⟨blanks, gap, inside, hsome, hblanks, hgap, hinside⟩ := h
  have hintroduces : Introduces functionKeywords d.name (d.keyword ++ blanks ++ d.name) :=
    .intro d.keyword_mem hsome hblanks d.name_ne_nil d.isWordChar_name
  have hlast : d.keyword ++ blanks ++ d.name ++ gap ++ '(' :: (inside ++ [')']) =
      (d.keyword ++ blanks ++ d.name ++ gap ++ '(' :: inside) ++ [')'] := by simp
  refine ⟨inside, hinside, List.getLast?_eq_some_iff.mpr ⟨_, hlast⟩, fun rest => ?_⟩
  apply FunctionSpan.listed hintroduces
  · intro c hc
    simpa [isGap] using hgap c hc
  · exact hinside.close_not_mem d.close_not_mem

/-- A written declaration is found, and the search goes on behind its closing parenthesis. -/
theorem Writes.all_append {d : Declaration} {span : List Char} (h : Writes d span)
    (rest : List Char) : ∃ header, header.name = d.name ∧ header.parameterList = d.parameters ∧
      all function? false (span ++ rest) = header :: all function? false rest := by
  obtain ⟨inside, hinside, hlast, hspan⟩ := h.functionSpan
  obtain ⟨c, taken, rfl⟩ := List.exists_cons_of_ne_nil (hspan rest).ne_nil
  have hheader : function? (c :: taken ++ rest) = some (⟨d.name, some inside⟩, taken.length + 1) :=
    (recognises_function? _ _ _).mpr ⟨c :: taken, rest, rfl, rfl, hspan rest⟩
  refine ⟨⟨d.name, some inside⟩, rfl, d.parameterList_eq hinside, ?_⟩
  rw [Header.all_append hheader, hlast]
  rfl

/-- The functions found in what declares functions one after the other are those, with their names and
    parameters and in their order. -/
theorem functions_of_writesAll {declarations : List Declaration} {text : List Char}
    (h : WritesAll declarations text) (file path : String) :
    (Header.record file path (String.ofList text)).functions =
      declarations.map fun d =>
        { name := String.ofList d.name, parameters := d.parameters.map String.ofList
          returns := none, docstring := none, code := none } := by
  simp only [Header.record, String.toList_ofList, functions]
  induction h with
  | done hbetween =>
    have hnone := passesOver_function?.between (by decide) hbetween []
    rw [List.append_nil, all_nil] at hnone
    rw [hnone, List.map_nil, List.map_nil]
  | next hbetween hspan _ ih =>
    obtain ⟨header, hname, hparameters, hall⟩ := hspan.all_append _
    rw [passesOver_function?.between (by decide) hbetween, hall, List.map_cons, List.map_cons, ih,
      hname, hparameters]

/-- A function that is called like a keyword, with parameters that look like the beginning of another
    declaration. -/
def keywordDeclaration : Declaration where
  keyword := ['f', 'n']
  name := ['d', 'e', 'f']
  parameters := [['f', 'n', ' ', 'g', '('], ['x']]
  keyword_mem := by decide
  name_ne_nil := by decide
  isWordChar_name := List.all_eq_true.mp rfl
  parameter_ne_nil := by decide
  trim_parameter := by decide
  comma_not_mem := by decide
  close_not_mem := by decide

/-- A function without parameters. -/
def bareDeclaration : Declaration where
  keyword := ['d', 'e', 'f']
  name := ['1']
  parameters := []
  keyword_mem := by decide
  name_ne_nil := by decide
  isWordChar_name := List.all_eq_true.mp rfl
  parameter_ne_nil := by decide
  trim_parameter := by decide
  comma_not_mem := by decide
  close_not_mem := by decide

theorem functions_of_writesAll_keyword :
    let text := "-fn\ndef\t(fn g(\n, x)def 1( )".toList
    WritesAll [keywordDeclaration, bareDeclaration] text ∧
      (Header.record "a.js" "a.js" (String.ofList text)).functions.map FunctionRecord.signature =
        [("def", ["fn g(", "x"]), ("1", [])] := by
  intro text
  have hfeed : ∀ c ∈ ['\n'], isBlank c = true := List.all_eq_true.mp rfl
  have hspace : ∀ c ∈ [' '], isBlank c = true := List.all_eq_true.mp rfl
  have hdash : ∀ c ∈ ['-'], isWordChar c = false := List.forall_mem_singleton.mpr rfl
  have hlist : WritesList keywordDeclaration.parameters "fn g(\n, x".toList :=
    @WritesList.more [] _ ['\n'] _ _ _ (by simp) hfeed (@WritesList.last [' '] _ [] hspace (by simp))
  have hkeyword : Writes keywordDeclaration "fn\ndef\t(fn g(\n, x)".toList :=
    @Writes.intro keywordDeclaration ['\n'] ['\t'] _ (by simp) hfeed (by simp) hlist
  have hbare : Writes bareDeclaration "def 1( )".toList :=
    @Writes.intro bareDeclaration [' '] [] [' '] (by simp) hspace (by simp) (.none hspace)
  have hall : WritesAll [keywordDeclaration, bareDeclaration] text :=
    @WritesAll.next ['-'] _ _ _ _ hdash hkeyword
      (@WritesAll.next [] _ _ _ _ (by simp) hbare (@WritesAll.done [] (by simp)))
  refine ⟨hall, ?_⟩
  rw [functions_of_writesAll hall]
  decide

end SourceSurvey.Header
