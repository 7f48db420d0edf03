import SourceSurvey.Proofs.Outline.Records

/-!
The headers in the text of an outline. Without documentations, looking for headers finds the
definitions of an outline just as reading it does: after any other word no blank follows, so that no
name is taken for a keyword, and each header ends where its heading does.
-/

namespace SourceSurvey

/-- What a function is called and takes. -/
def FunctionRecord.signature (f : FunctionRecord) : String × List String := (f.name, f.parameters)

/-- The signature that a header gives. -/
def Header.signature (header : Header) : String × List String :=
  (String.ofList header.name, header.parameterList.map String.ofList)

/-! ### Characters of names -/

/-- Whether a character is a basic letter, a digit or an underscore. -/
def isBasic (c : Char) : Bool := c.isAlphanum || c == '_'

theorem withinBounds_word : ∀ n < 123, (48 ≤ n ∧ n ≤ 57 ∨ 65 ≤ n ∧ n ≤ 90 ∨ 97 ≤ n) →
    Text.withinBounds Text.wordBounds n = true := by
  decide

theorem isWordChar_of_isBasic {c : Char} (hc : isBasic c = true) : Text.isWordChar c = true := by
  rw [isBasic, Bool.or_eq_true, Char.isAlphanum, Bool.or_eq_true, Syntax.isAlpha_iff,
    Syntax.isDigit_iff] at hc
  obtain hc | hc := hc
  · exact withinBounds_word c.toNat (by omega) (by omega)
  · rw [beq_iff_eq.mp hc]
    rfl

theorem withinBounds_blank : ∀ n < 123, 48 ≤ n → Text.withinBounds Text.blankBounds n = false := by
  decide

theorem isBlank_of_isBasic {c : Char} (hc : isBasic c = true) : Text.isBlank c = false := by
  rw [isBasic, Bool.or_eq_true, Char.isAlphanum, Bool.or_eq_true, Syntax.isAlpha_iff,
    Syntax.isDigit_iff] at hc
  obtain hc | hc := hc
  · exact withinBounds_blank c.toNat (by omega) (by omega)
  · rw [beq_iff_eq.mp hc]
    rfl

namespace Header

open Text

/-! ### The search -/

section Search

variable {header? : List Char → Option (Header × Nat)}

theorem all_nil (afterWord : Bool) : all header? afterWord [] = [] := by rw [all]

/-- Where no header begins, the search goes on with the next character. -/
theorem all_cons {afterWord : Bool} {c : Char} {rest : List Char}
    (h : afterWord = true ∨ header? (c :: rest) = none) :
    all header? afterWord (c :: rest) = all header? (isWordChar c) rest := by
  have hnone : (if afterWord then none else header? (c :: rest)) = none := by
    obtain rfl | hnone := h
    · rfl
    · rw [hnone, ite_self]
  rw [all, hnone]

/-- Where a header begins, the search goes on behind it. -/
theorem all_append {c : Char} {taken rest : List Char} {header : Header}
    (h : header? (c :: taken ++ rest) = some (header, taken.length + 1)) :
    all header? false (c :: taken ++ rest) =
      header :: all header? ((c :: taken).getLast?.any isWordChar) rest := by
  rw [List.cons_append] at h ⊢
  rw [all, if_neg Bool.false_ne_true, h]
  simp only [Nat.add_sub_cancel, List.take_left, List.drop_left]

/-- Within a word no header begins. -/
theorem all_true_append {w : List Char} (hw : ∀ d ∈ w, isWordChar d = true) (rest : List Char) :
    all header? true (w ++ rest) = all header? true rest := by
  induction w with
  | nil => rfl
  | cons d w ih =>
    obtain ⟨hd, hw⟩ := List.forall_mem_cons.mp hw
    rw [List.cons_append, all_cons (.inl rfl), hd, ih hw]

/-- A word at which no header begins is passed over, with what ends it. -/
theorem all_word {w : List Char} (hw : ∀ d ∈ w, isWordChar d = true) {c : Char}
    (hc : isWordChar c = false) {rest : List Char} (h : header? (w ++ c :: rest) = none) :
    all header? false (w ++ c :: rest) = all header? false rest := by
  cases w with
  | nil =>
    rw [List.nil_append] at h ⊢
    rw [all_cons (.inr h), hc]
  | cons d w =>
    obtain ⟨hd, hw⟩ := List.forall_mem_cons.mp hw
    rw [List.cons_append] at h ⊢
    rw [all_cons (.inr h), hd, all_true_append hw, all_cons (.inl rfl), hc]

end Search

/-! ### Names and keywords -/

section Names

variable {keyword name : List Char} {c : Char}

/-- A word is no keyword with a name behind it, unless it is the keyword and blanks follow. -/
theorem nameAfter?_eq_none (hkeyword : ∀ d ∈ keyword, isBasic d = true)
    (hname : ∀ d ∈ name, isBasic d = true) (hc : isWordChar c = false)
    (hne : keyword = name → isBlank c = false) (rest : List Char) :
    nameAfter? keyword (name ++ c :: rest) = none := by
  unfold nameAfter?
  split
  · next hprefix =>
    obtain ⟨behind, hbehind⟩ := List.isPrefixOf_iff_prefix.mp hprefix
    have hblanks : behind.takeWhile isBlank = [] := by
      obtain ⟨more, hmore, hrest⟩ | ⟨more, hmore, hrest⟩ := List.append_eq_append_iff.mp hbehind
      · cases more with
        | nil =>
          have hblank := hne (by rw [hmore, List.append_nil])
          rw [hrest, List.nil_append, List.takeWhile_cons_of_neg (by simp [hblank])]
        | cons d more =>
          have hblank := isBlank_of_isBasic (hname d (by simp [hmore]))
          rw [hrest, List.cons_append, List.takeWhile_cons_of_neg (by simp [hblank])]
      · cases more with
        | nil =>
          have hblank := hne (by rw [hmore, List.append_nil])
          rw [List.nil_append] at hrest
          rw [← hrest, List.takeWhile_cons_of_neg (by simp [hblank])]
        | cons d more =>
          -- The keyword would go on with a character that no word has.
          obtain ⟨rfl, -⟩ := List.cons.inj hrest
          have hword := isWordChar_of_isBasic (hkeyword c (by simp [hmore]))
          rw [hc] at hword
          cases hword
    rw [← hbehind]
    simp only [List.drop_left, hblanks]
    rfl
  · rfl

/-- A keyword, a space and a name are that name. -/
theorem nameAfter?_name (keyword : List Char) (hne : name ≠ [])
    (hname : ∀ d ∈ name, isBasic d = true) (hc : isWordChar c = false) (rest : List Char) :
    nameAfter? keyword (keyword ++ ' ' :: (name ++ c :: rest)) =
      some (name, keyword.length + 1 + name.length) := by
  have hprefix : keyword.isPrefixOf (keyword ++ ' ' :: (name ++ c :: rest)) = true :=
    List.isPrefixOf_iff_prefix.mpr (List.prefix_append _ _)
  have hblanks : (' ' :: (name ++ c :: rest)).takeWhile isBlank = [' '] := by
    obtain ⟨d, more, rfl⟩ := List.exists_cons_of_ne_nil hne
    have hblank := isBlank_of_isBasic (hname d List.mem_cons_self)
    rw [List.takeWhile_cons_of_pos rfl, List.cons_append,
      List.takeWhile_cons_of_neg (by simp [hblank])]
  have htake : (name ++ c :: rest).takeWhile isWordChar = name := by
    rw [List.takeWhile_append_of_pos fun d hd => isWordChar_of_isBasic (hname d hd),
      List.takeWhile_cons_of_neg (by simp [hc]), List.append_nil]
  rw [nameAfter?, if_pos hprefix]
  simp only [List.drop_left, hblanks, List.length_singleton, List.drop_succ_cons, List.drop_zero,
    htake]
  rw [if_neg (by simpa using hne)]

theorem named?_eq_none {keywords : List (List Char)}
    (hkeywords : keywords.all (·.all isBasic) = true)
    (hname : ∀ d ∈ name, isBasic d = true) (hc : isWordChar c = false)
    (hne : name ∈ keywords → isBlank c = false) (rest : List Char) :
    named? keywords (name ++ c :: rest) = none := by
  rw [named?, List.findSome?_eq_none_iff]
  intro keyword hmem
  have hkeyword := List.all_eq_true.mp (List.all_eq_true.mp hkeywords keyword hmem)
  exact nameAfter?_eq_none hkeyword hname hc (fun heq => hne (heq ▸ hmem)) rest

end Names

/-- A search passes over every word that is no keyword or has no blank behind it, with what ends the
    word. -/
def PassesOver (keywords : List (List Char)) (header? : List Char → Option (Header × Nat)) : Prop :=
  ∀ {w : List Char} {c : Char}, (∀ d ∈ w, isBasic d = true) → isWordChar c = false →
    (w ∈ keywords → isBlank c = false) → ∀ rest : List Char,
      all header? false (w ++ c :: rest) = all header? false rest

theorem passesOver_function? : PassesOver functionKeywords function? := by
  intro w c hw hc hne rest
  have hkeywords : functionKeywords.all (·.all isBasic) = true := rfl
  refine all_word (fun d hd => isWordChar_of_isBasic (hw d hd)) hc ?_
  rw [function?, named?_eq_none hkeywords hw hc hne, Option.map_none]

theorem passesOver_class? : PassesOver classKeywords class? := by
  intro w c hw hc hne rest
  have hkeywords : classKeywords.all (·.all isBasic) = true := rfl
  refine all_word (fun d hd => isWordChar_of_isBasic (hw d hd)) hc ?_
  rw [class?, named?_eq_none hkeywords hw hc hne, Option.map_none]

section Passing

variable {keywords : List (List Char)} {header? : List Char → Option (Header × Nat)}
  (h : PassesOver keywords header?)
include h

/-- A search passes over a character between words. -/
theorem PassesOver.single {c : Char} (hc : isWordChar c = false) (hne : [] ∉ keywords)
    (afterWord : Bool) (rest : List Char) :
    all header? afterWord (c :: rest) = all header? false rest := by
  cases afterWord with
  | true => rw [all_cons (.inl rfl), hc]
  | false => exact h (List.forall_mem_nil _) hc (fun hmem => absurd hmem hne) rest

/-- A search passes over what has no words in it. -/
theorem PassesOver.between (hne : [] ∉ keywords) {between : List Char}
    (hbetween : ∀ c ∈ between, isWordChar c = false) (rest : List Char) :
    all header? false (between ++ rest) = all header? false rest := by
  induction between with
  | nil => rfl
  | cons c between ih =>
    obtain ⟨hc, hbetween⟩ := List.forall_mem_cons.mp hbetween
    rw [List.cons_append, h.single hc hne, ih hbetween]

theorem PassesOver.margin (hne : [] ∉ keywords) (level : Nat) (rest : List Char) :
    all header? false (Syntax.margin level ++ rest) = all header? false rest := by
  refine h.between hne (fun c hc => ?_) rest
  rw [List.eq_of_mem_replicate hc]
  rfl

end Passing

/-! ### Lists of parameters -/

theorem trim_of_basic {w : List Char} (hw : ∀ d ∈ w, isBasic d = true) : trim w = w := by
  have hstart (v : List Char) (hv : ∀ d ∈ v, isBasic d = true) : v.dropWhile isBlank = v := by
    cases v with
    | nil => rfl
    | cons d v =>
      exact List.dropWhile_cons_of_neg (by simp [isBlank_of_isBasic (hv d List.mem_cons_self)])
  rw [trim, trimStart, hstart w hw, trimEnd,
    hstart w.reverse fun d hd => hw d (List.mem_reverse.mp hd), List.reverse_reverse]

/-- A space behind a comma is trimmed. -/
theorem map_trim_split_space (text : List Char) :
    (split ',' (' ' :: text)).map trim = (split ',' text).map trim := by
  obtain ⟨first, fields, hsplit⟩ := List.exists_cons_of_ne_nil (split_ne_nil ',' text)
  rw [split, if_neg (by decide), hsplit]
  rfl

theorem not_mem_of_basic {c : Char} (hc : isBasic c = false) {w : List Char}
    (hw : ∀ d ∈ w, isBasic d = true) : c ∉ w := fun hmem => by
  rw [hw c hmem] at hc
  cases hc

end Header

namespace Syntax

open Header

theorem Identifier.basic (name : Identifier) : ∀ d ∈ name.val, isBasic d = true :=
  basic_of_isIdentifier name.property

theorem Identifier.ne_nil (name : Identifier) : name.val ≠ [] := by
  obtain ⟨w, hw⟩ := name
  rintro rfl
  cases hw

/-- The parameters of a heading, as they are written between its parentheses. -/
def listed (parameters : List Identifier) : List Char :=
  Text.join [',', ' '] (parameters.map (·.val))

@[simp] theorem listed_singleton (p : Identifier) : listed [p] = p.val := by
  simp [listed, Text.join]

@[simp] theorem listed_cons_cons (p q : Identifier) (rest : List Identifier) :
    listed (p :: q :: rest) = p.val ++ ',' :: ' ' :: listed (q :: rest) := by
  simp [listed, Text.join, List.intercalate_cons_cons]

theorem not_mem_listed (parameters : List Identifier) : ')' ∉ listed parameters := by
  induction parameters with
  | nil => exact List.not_mem_nil
  | cons p rest ih =>
    have hp : ')' ∉ p.val := not_mem_of_basic rfl p.basic
    cases rest with
    | nil => rwa [listed_singleton]
    | cons q rest => simp [hp, ih]

theorem map_trim_split_listed (p : Identifier) (rest : List Identifier) :
    (Text.split ',' (listed (p :: rest))).map Text.trim = (p :: rest).map (·.val) := by
  induction rest generalizing p with
  | nil =>
    rw [listed_singleton, Text.split_of_not_mem (not_mem_of_basic rfl p.basic), List.map_singleton,
      trim_of_basic p.basic]
    rfl
  | cons q rest ih =>
    rw [listed_cons_cons, Text.split_append, Text.split_of_not_mem (not_mem_of_basic rfl p.basic),
      List.singleton_append, List.map_cons, map_trim_split_space, ih, trim_of_basic p.basic]
    rfl

theorem trim_listed_ne_nil (p : Identifier) (rest : List Identifier) :
    Text.trim (listed (p :: rest)) ≠ [] := by
  obtain ⟨c, w, hw⟩ := List.exists_cons_of_ne_nil p.ne_nil
  have hblank : Text.isBlank c = false := isBlank_of_isBasic (p.basic c (by simp [hw]))
  obtain ⟨more, hmore⟩ : ∃ more, listed (p :: rest) = c :: more := by
    cases rest with
    | nil => exact ⟨w, by rw [listed_singleton, hw]⟩
    | cons q rest => exact ⟨_, by rw [listed_cons_cons, hw, List.cons_append]⟩
  rw [hmore, Text.trim, Text.trimStart, List.dropWhile_cons_of_neg (by simp [hblank]), Text.trimEnd]
  intro hnil
  rw [List.reverse_eq_nil_iff, List.dropWhile_eq_nil_iff] at hnil
  have hc := hnil c (by simp)
  rw [hblank] at hc
  cases hc

/-- The header that a heading should be found as. -/
def Heading.header : Heading → Header
  | function name parameters => ⟨name, some (listed parameters)⟩
  | classType name => ⟨name, none⟩

/-- The parameters in the header of a function are those of its heading. -/
theorem parameterList_header (name : Identifier) (parameters : List Identifier) :
    (Heading.function name parameters).header.parameterList = parameters.map (·.val) := by
  cases parameters with
  | nil => rfl
  | cons p rest =>
    have hempty : (Text.trim (listed (p :: rest))).isEmpty = false := by
      simpa using trim_listed_ne_nil p rest
    have hlist : (Heading.function name (p :: rest)).header.parameterList =
        if (Text.trim (listed (p :: rest))).isEmpty then []
        else (Text.split ',' (listed (p :: rest))).map Text.trim := rfl
    rw [hlist, hempty, if_neg Bool.false_ne_true, map_trim_split_listed]

/-! ### Headings -/

theorem parenthesised?_listed (parameters : List Identifier) (rest : List Char) :
    parenthesised? ('(' :: (listed parameters ++ ')' :: rest)) =
      some (listed parameters, (listed parameters).length + 2) := by
  have htake : (listed parameters ++ ')' :: rest).takeWhile (· != ')') = listed parameters := by
    rw [List.takeWhile_append_of_pos, List.takeWhile_cons_of_neg (by simp), List.append_nil]
    intro d hd
    exact bne_iff_ne.mpr fun heq => not_mem_listed parameters (heq ▸ hd)
  rw [parenthesised?, htake]
  simp

/-- The text of a function's heading is one header. -/
theorem function?_heading (name : Identifier) (parameters : List Identifier) (rest : List Char) :
    function? ((Heading.function name parameters).text ++ rest) =
      some ((Heading.function name parameters).header,
        (Heading.function name parameters).text.length) := by
  let behind := '(' :: (listed parameters ++ ')' :: rest)
  have htext : (Heading.function name parameters).text ++ rest =
      Keyword.def_ ++ ' ' :: (name.val ++ behind) := by
    simp [Heading.text, listed, behind]
  have hlength : (Heading.function name parameters).text.length =
      Keyword.def_.length + 1 + name.val.length + ((listed parameters).length + 2) := by
    simp [Heading.text, listed]
    omega
  -- No keyword but `def` begins the text, though others have the same first letters as names.
  have hother : nameAfter? ['f', 'u', 'n', 'c', 't', 'i', 'o', 'n']
      (Keyword.def_ ++ ' ' :: (name.val ++ behind)) = none :=
    nameAfter?_eq_none (List.all_eq_true.mp rfl) (List.all_eq_true.mp rfl) rfl (by decide) _
  have hname : nameAfter? Keyword.def_ (Keyword.def_ ++ ' ' :: (name.val ++ behind)) =
      some (name.val, Keyword.def_.length + 1 + name.val.length) :=
    nameAfter?_name Keyword.def_ name.ne_nil name.basic rfl _
  have hnamed : named? functionKeywords (Keyword.def_ ++ ' ' :: (name.val ++ behind)) =
      some (name.val, Keyword.def_.length + 1 + name.val.length) := by
    rw [named?, functionKeywords, List.findSome?_cons_of_isNone (by rw [hother]; rfl),
      List.findSome?_cons_of_isSome (by rw [← Keyword.def_, hname]; rfl)]
    exact hname
  have hdrop : (Keyword.def_ ++ ' ' :: (name.val ++ behind)).drop
      (Keyword.def_.length + 1 + name.val.length) = behind := by
    have hsplit : Keyword.def_ ++ ' ' :: (name.val ++ behind) =
        (Keyword.def_ ++ ' ' :: name.val) ++ behind := by simp
    rw [hsplit]
    refine List.drop_left' ?_
    simp
    omega
  have hgap : behind.takeWhile (fun c => c == ' ' || c == '\t') = [] :=
    List.takeWhile_cons_of_neg (by decide)
  rw [htext, hlength, function?, hnamed, Option.map_some]
  simp only [hdrop, hgap, List.length_nil, List.drop_zero, behind, parenthesised?_listed,
    Nat.add_zero]
  rfl

/-- The text of a class's heading is one header. -/
theorem class?_heading (name : Identifier) (rest : List Char) :
    class? ((Heading.classType name).text ++ ':' :: rest) =
      some ((Heading.classType name).header, (Heading.classType name).text.length) := by
  have htext : (Heading.classType name).text ++ ':' :: rest =
      Keyword.class_ ++ ' ' :: (name.val ++ ':' :: rest) := by
    simp [Heading.text]
  have hlength : (Heading.classType name).text.length =
      Keyword.class_.length + 1 + name.val.length := by
    simp [Heading.text]
    omega
  have hname := nameAfter?_name Keyword.class_ name.ne_nil name.basic (c := ':') rfl rest
  have hnamed : named? classKeywords (Keyword.class_ ++ ' ' :: (name.val ++ ':' :: rest)) =
      some (name.val, Keyword.class_.length + 1 + name.val.length) := by
    rw [named?, classKeywords, List.findSome?_singleton]
    exact hname
  rw [htext, hlength, class?, hnamed]
  rfl

/-- The headers of functions in a heading. -/
def Heading.functionHeaders : Heading → List Header
  | function name parameters => [(function name parameters).header]
  | classType _ => []

/-- The headers of classes in a heading. -/
def Heading.classHeaders : Heading → List Header
  | function _ _ => []
  | classType name => [(classType name).header]

theorem all_function?_heading (heading : Heading) (rest : List Char) :
    all function? false (heading.text ++ ':' :: rest) =
      heading.functionHeaders ++ all function? false rest := by
  cases heading with
  | function name parameters =>
    obtain ⟨c, taken, htext⟩ : ∃ c taken, (Heading.function name parameters).text = c :: taken :=
      ⟨_, _, rfl⟩
    have hheader := function?_heading name parameters (':' :: rest)
    rw [htext] at hheader ⊢
    rw [all_append hheader, passesOver_function?.single rfl (by decide)]
    rfl
  | classType name =>
    have htext : (Heading.classType name).text ++ ':' :: rest =
        Keyword.class_ ++ ' ' :: (name.val ++ ':' :: rest) := by
      simp [Heading.text]
    rw [htext, passesOver_function? (List.all_eq_true.mp rfl) rfl (by decide),
      passesOver_function? name.basic rfl (fun _ => rfl)]
    rfl

/-- The search for classes passes over the parameters of a function. -/
theorem all_class?_listed (parameters : List Identifier) (rest : List Char) :
    all class? false (listed parameters ++ ')' :: rest) = all class? false rest := by
  induction parameters with
  | nil => exact passesOver_class?.single rfl (by decide) false rest
  | cons p others ih =>
    cases others with
    | nil =>
      rw [listed_singleton, passesOver_class? p.basic rfl (fun _ => rfl)]
    | cons q others =>
      rw [listed_cons_cons, List.append_assoc, List.cons_append, List.cons_append,
        passesOver_class? p.basic rfl (fun _ => rfl), passesOver_class?.single rfl (by decide), ih]

theorem all_class?_heading (heading : Heading) (rest : List Char) :
    all class? false (heading.text ++ ':' :: rest) =
      heading.classHeaders ++ all class? false rest := by
  cases heading with
  | function name parameters =>
    have htext : (Heading.function name parameters).text ++ ':' :: rest =
        Keyword.def_ ++ ' ' :: (name.val ++ '(' :: (listed parameters ++ ')' :: ':' :: rest)) := by
      simp [Heading.text, listed]
    rw [htext, passesOver_class? (List.all_eq_true.mp rfl) rfl (by decide),
      passesOver_class? name.basic rfl (fun _ => rfl), all_class?_listed,
      passesOver_class?.single rfl (by decide)]
    rfl
  | classType name =>
    obtain ⟨c, taken, htext⟩ : ∃ c taken, (Heading.classType name).text = c :: taken :=
      ⟨_, _, rfl⟩
    have hheader := class?_heading name rest
    rw [htext] at hheader ⊢
    rw [all_append hheader, passesOver_class?.single rfl (by decide)]
    rfl

/-! ### Outlines -/

namespace Outline

/-- An outline without documentations. -/
def Undocumented : Outline → Prop
  | done => True
  | definition _ doc inside rest => doc = none ∧ inside.Undocumented ∧ rest.Undocumented

/-- The headers in an outline, outer ones before inner ones, given those in a heading. -/
def headers (found : Heading → List Header) : Outline → List Header
  | done => []
  | definition heading _ inside rest =>
    found heading ++ (inside.headers found ++ rest.headers found)

/-- A search that finds some headers in headings finds those in the text of an outline. -/
theorem all_text {keywords : List (List Char)} {header? : List Char → Option (Header × Nat)}
    (hpasses : PassesOver keywords header?) (hne : [] ∉ keywords) (hpass : Keyword.pass_ ∉ keywords)
    {found : Heading → List Header}
    (hheading : ∀ (heading : Heading) (rest : List Char),
      all header? false (heading.text ++ ':' :: rest) = found heading ++ all header? false rest)
    {o : Outline} (ho : o.Undocumented) (level : Nat) (after : List Char) :
    all header? false (o.text level ++ after) = o.headers found ++ all header? false after := by
  induction o generalizing level after with
  | done => rfl
  | definition heading doc inside rest ihinside ihrest =>
    obtain ⟨rfl, hinside, hrest⟩ := ho
    have htext : (definition heading none inside rest).text level ++ after =
        margin level ++ (heading.text ++ ':' :: ('\n' :: (inside.text (level + 1) ++
          (margin (level + 1) ++ (Keyword.pass_ ++ '\n' :: (rest.text level ++ after)))))) := by
      simp [text, snippet, docLine]
    rw [htext, hpasses.margin hne, hheading, hpasses.single rfl hne, ihinside hinside,
      hpasses.margin hne, hpasses (List.all_eq_true.mp rfl) rfl (fun hmem => absurd hmem hpass),
      ihrest hrest, headers, List.append_assoc, List.append_assoc]

/-- The headers of an outline have the names and parameters of its functions. -/
theorem map_signature_headers (o : Outline) (level : Nat) :
    (o.headers Heading.functionHeaders).map Header.signature =
      (o.functions level).map FunctionRecord.signature := by
  induction o generalizing level with
  | done => rfl
  | definition heading doc inside rest ihinside ihrest =>
    rw [headers, List.map_append, List.map_append, ihinside (level + 1), ihrest level]
    cases heading with
    | function name parameters =>
      rw [functions, List.map_cons, List.map_append, Heading.functionHeaders, List.map_singleton,
        Header.signature, parameterList_header, List.map_map]
      rfl
    | classType name =>
      rw [functions, List.map_append]
      rfl

theorem map_name_headers (o : Outline) (level : Nat) :
    (o.headers Heading.classHeaders).map (fun header => String.ofList header.name) =
      (o.classes level).map (·.name) := by
  induction o generalizing level with
  | done => rfl
  | definition heading doc inside rest ihinside ihrest =>
    rw [headers, List.map_append, List.map_append, ihinside (level + 1), ihrest level]
    cases heading with
    | function name parameters =>
      rw [classes, List.map_append]
      rfl
    | classType name =>
      rw [classes, List.map_cons, List.map_append]
      rfl

theorem functions_text {o : Outline} (ho : o.Undocumented) (level : Nat) :
    (Header.functions (o.text level)).map FunctionRecord.signature =
      (o.functions level).map FunctionRecord.signature := by
  have hall := all_text passesOver_function? (by decide) (by decide) all_function?_heading ho level
    []
  rw [List.append_nil, all_nil, List.append_nil] at hall
  rw [Header.functions, hall, List.map_map, ← o.map_signature_headers level]
  rfl

theorem classes_text {o : Outline} (ho : o.Undocumented) (level : Nat) :
    (Header.classes (o.text level)).map (·.name) = (o.classes level).map (·.name) := by
  have hall := all_text passesOver_class? (by decide) (by decide) all_class?_heading ho level []
  rw [List.append_nil, all_nil, List.append_nil] at hall
  rw [Header.classes, hall, List.map_map, ← o.map_name_headers level]
  rfl

end Outline
end Syntax

namespace Source

open Syntax

/-- Looking for headers in the text of an outline without documentations finds what reading it
    finds, and reading it finds no error: the same functions with the same parameters and the same
    classes, in the same order. -/
theorem signatures_outline {o : Outline} (ho : o.Undocumented) (file path : String) :
    let read := Syntax.record file path (String.ofList (o.text 0))
    let skimmed := Header.record file path (String.ofList (o.text 0))
    read.error = none ∧ skimmed.error = none ∧
      skimmed.functions.map FunctionRecord.signature =
        read.functions.map FunctionRecord.signature ∧
      skimmed.classes.map (·.name) = read.classes.map (·.name) := by
  simp only [Syntax.record, Header.record, String.toList_ofList, o.definitions_text]
  exact ⟨rfl, rfl, Outline.functions_text ho 0, Outline.classes_text ho 0⟩

/-- A class and a function in it, both with names that begin headers in other languages. -/
def keywordOutline : Outline :=
  .definition (.classType ⟨['f', 'n'], rfl⟩) none
    (.definition
      (.function ⟨['f', 'u', 'n', 'c'], rfl⟩
        [⟨['f', 'u', 'n', 'c', 't', 'i', 'o', 'n'], rfl⟩, ⟨['f', 'n'], rfl⟩])
      none .done .done)
    .done

theorem signatures_keywordOutline :
    keywordOutline.Undocumented ∧
      (Header.record "a.py" "a.py" (String.ofList (keywordOutline.text 0))).functions.map
          FunctionRecord.signature = [("func", ["function", "fn"])] ∧
      (Syntax.record "a.py" "a.py" (String.ofList (keywordOutline.text 0))).functions.map
          FunctionRecord.signature = [("func", ["function", "fn"])] := by
  have hundocumented : keywordOutline.Undocumented := ⟨rfl, ⟨rfl, trivial, trivial⟩, trivial⟩
  obtain ⟨-, -, hfunctions, -⟩ := signatures_outline hundocumented "a.py" "a.py"
  have hskimmed := Outline.functions_text hundocumented 0
  have hlist : (keywordOutline.functions 0).map FunctionRecord.signature =
      [("func", ["function", "fn"])] := rfl
  rw [hlist] at hskimmed
  refine ⟨hundocumented, ?_, hfunctions.symm.trans ?_⟩
  · simpa [Header.record] using hskimmed
  · simpa [Header.record] using hskimmed

end Source
end SourceSurvey
