import Mathlib.Data.Bool.AllAny
import Mathlib.Data.List.Forall2
import Mathlib.Data.Nat.Digits.Defs
import SourceSurvey.Proofs.Syntax.Quoting

/-!
The escapes that a literal can be written with, told apart from the reader that takes them one
after the other. Each of them takes its part of a text whatever stands behind it, so that a text is
cut into escapes in one way only.
-/

namespace SourceSurvey.Syntax

/-- A digit of a base, in either case. -/
def IsDigit (base : Nat) (c : Char) (value : Nat) : Prop :=
  value < base ∧ (c = Nat.digitChar value ∨ c = (Nat.digitChar value).toUpper)

/-- A number as it is written in the digits of a base. -/
def Numeral (base : Nat) (digits : List Char) (number : Nat) : Prop :=
  ∃ values, List.Forall₂ (IsDigit base) digits values ∧ Nat.ofDigits base values.reverse = number

theorem IsDigit.mono {base base' value : Nat} {c : Char} (hdigit : IsDigit base c value)
    (hle : base ≤ base') : IsDigit base' c value :=
  ⟨Nat.lt_of_lt_of_le hdigit.1 hle, hdigit.2⟩

theorem isHexDigit_digitChar : ∀ value < 16, ∀ c ∈ [Nat.digitChar value,
    (Nat.digitChar value).toUpper], isHexDigit c = true ∧ hexValue c = value := by
  intro value hvalue
  refine List.all_iff_forall_prop.mp ?_
  revert value
  decide

theorem isOctalDigit_digitChar : ∀ value < 8, ∀ c ∈ [Nat.digitChar value,
    (Nat.digitChar value).toUpper],
      c ≠ '\n' ∧ simpleEscape? c = none ∧ isOctalDigit c = true := by
  intro value hvalue
  refine List.all_iff_forall_prop.mp ?_
  revert value
  decide

theorem IsDigit.isHexDigit {c : Char} {value : Nat} (hdigit : IsDigit 16 c value) :
    isHexDigit c = true :=
  (isHexDigit_digitChar value hdigit.1 c (by simpa using hdigit.2)).1

theorem IsDigit.hexValue {c : Char} {value : Nat} (hdigit : IsDigit 16 c value) :
    hexValue c = value :=
  (isHexDigit_digitChar value hdigit.1 c (by simpa using hdigit.2)).2

theorem IsDigit.isOctalDigit {c : Char} {value : Nat} (hdigit : IsDigit 8 c value) :
    c ≠ '\n' ∧ simpleEscape? c = none ∧ isOctalDigit c = true :=
  isOctalDigit_digitChar value hdigit.1 c (by simpa using hdigit.2)

theorem toNat_lt_of_isHexDigit {c : Char} (hc : isHexDigit c = true) : c.toNat < 128 := by
  have hle : c ≤ '9' ∨ c ≤ 'f' ∨ c ≤ 'F' := by
    simp only [isHexDigit, Char.isDigit, Bool.or_eq_true, Bool.and_eq_true,
      decide_eq_true_eq] at hc
    obtain (⟨-, hc⟩ | ⟨-, hc⟩) | ⟨-, hc⟩ := hc
    · exact .inl hc
    · exact .inr (.inl hc)
    · exact .inr (.inr hc)
  obtain hle | hle | hle := hle
  all_goals exact Nat.lt_of_le_of_lt (Char.le_def.mp hle) (by decide)

theorem isDigit_ofNat : ∀ n < 128, isHexDigit (Char.ofNat n) = true →
    hexValue (Char.ofNat n) < 16 ∧
      (Char.ofNat n = Nat.digitChar (hexValue (Char.ofNat n)) ∨
        Char.ofNat n = (Nat.digitChar (hexValue (Char.ofNat n))).toUpper) := by
  decide +kernel

theorem isDigit_of_isHexDigit {c : Char} (hc : isHexDigit c = true) :
    IsDigit 16 c (hexValue c) := by
  have hdigit := isDigit_ofNat c.toNat (toNat_lt_of_isHexDigit hc)
  rw [Char.ofNat_toNat] at hdigit
  exact hdigit hc

theorem isDigit_of_isOctalDigit {c : Char} (hc : isOctalDigit c = true) :
    IsDigit 8 c (hexValue c) := by
  rw [isOctalDigit, Bool.and_eq_true, decide_eq_true_eq, decide_eq_true_eq] at hc
  have hlow : 48 ≤ c.toNat := Char.le_def.mp hc.1
  have hhigh : c.toNat ≤ 55 := Char.le_def.mp hc.2
  have hdecimal : c.isDigit = true := Char.isDigit_iff_toNat.mpr ⟨hlow, by
    have : '9'.toNat = 57 := rfl
    omega⟩
  have hhex : isHexDigit c = true := by
    rw [isHexDigit, hdecimal]
    rfl
  have hvalue : hexValue c = c.toNat - 48 := by
    rw [hexValue, if_pos hdecimal]
    rfl
  exact ⟨by omega, (isDigit_of_isHexDigit hhex).2⟩

theorem isHexDigit_iff {c : Char} : isHexDigit c = true ↔ ∃ value, IsDigit 16 c value :=
  ⟨fun hc => ⟨_, isDigit_of_isHexDigit hc⟩, fun ⟨_, hdigit⟩ => hdigit.isHexDigit⟩

theorem isOctalDigit_iff {c : Char} : isOctalDigit c = true ↔ ∃ value, IsDigit 8 c value :=
  ⟨fun hc => ⟨_, isDigit_of_isOctalDigit hc⟩, fun ⟨_, hdigit⟩ => hdigit.isOctalDigit.2.2⟩

theorem digitsValue_eq_ofDigits (base : Nat) (digits : List Char) :
    digitsValue base digits = Nat.ofDigits base (digits.map hexValue).reverse := by
  rw [Nat.ofDigits_eq_foldr, List.foldr_reverse, List.foldl_map, digitsValue]
  congr 1
  funext n c
  rw [Nat.add_comm, Nat.mul_comm]
  rfl

/-- The reader's account of digits is the numeral that they are. -/
theorem numeral_iff {base number : Nat} {digits : List Char} (hbase : base ≤ 16) :
    Numeral base digits number ↔
      (∀ c ∈ digits, ∃ value, IsDigit base c value) ∧ digitsValue base digits = number := by
  have hvalues : ∀ values, List.Forall₂ (IsDigit base) digits values →
      values = digits.map hexValue := by
    intro values hdigits
    induction hdigits with
    | nil => rfl
    | cons hdigit _ ih => rw [List.map_cons, (hdigit.mono hbase).hexValue, ← ih]
  rw [digitsValue_eq_ofDigits]
  constructor
  · rintro ⟨values, hdigits, rfl⟩
    obtain rfl := hvalues values hdigits
    refine ⟨fun c hc => ⟨hexValue c, ?_⟩, rfl⟩
    rw [List.forall₂_map_right_iff, List.forall₂_same] at hdigits
    exact hdigits c hc
  · rintro ⟨hdigits, hnumber⟩
    refine ⟨digits.map hexValue, ?_, hnumber⟩
    rw [List.forall₂_map_right_iff, List.forall₂_same]
    intro c hc
    obtain ⟨value, hdigit⟩ := hdigits c hc
    rwa [(hdigit.mono hbase).hexValue]

/-- The letters behind a backslash that stand for a control character, with that character. -/
def controlEscapes : List (Char × Char) :=
  [('a', '\x07'), ('b', '\x08'), ('f', '\x0c'), ('n', '\n'), ('r', '\r'), ('t', '\t'),
    ('v', '\x0b')]

/-- The letters behind a backslash that ask for hexadecimal digits, with how many of them. -/
def numberEscapes : List (Char × Nat) := [('x', 2), ('u', 4), ('U', 8)]

/-- The characters that mean something behind a backslash. -/
def escapeStarts : List Char := "\n\\'\"abfnrtv01234567xuU".toList

/-- A first part of an escaped text, what it stands for, and the text behind it. -/
inductive Escape : List Char → List Char → List Char → Prop
  | plain {c : Char} {rest : List Char} (hc : c ≠ '\\') : Escape [c] [c] rest
  | joined {rest : List Char} : Escape ['\\', '\n'] [] rest
  | mark {c : Char} {rest : List Char} (hc : c ∈ ['\\', '\'', '"']) : Escape ['\\', c] [c] rest
  | control {letter c : Char} {rest : List Char} (hletter : (letter, c) ∈ controlEscapes) :
    Escape ['\\', letter] [c] rest
  | octal {digits rest : List Char} {c : Char} (hfirst : digits ≠ []) (hlength : digits.length ≤ 3)
    (hcode : Numeral 8 digits c.toNat)
    (hend : digits.length = 3 ∨ ∀ d ∈ rest.head?, ¬∃ value, IsDigit 8 d value) :
    Escape ('\\' :: digits) [c] rest
  | number {letter : Char} {width : Nat} {digits rest : List Char} {c : Char}
    (hletter : (letter, width) ∈ numberEscapes) (hlength : digits.length = width)
    (hcode : Numeral 16 digits c.toNat) : Escape ('\\' :: letter :: digits) [c] rest
  | noCharacter {letter : Char} {width code : Nat} {digits rest : List Char}
    (hletter : (letter, width) ∈ numberEscapes) (hlength : digits.length = width)
    (hcode : Numeral 16 digits code) (hnone : ¬code.isValidChar) :
    Escape ('\\' :: letter :: digits) ('\\' :: letter :: digits) rest
  | truncated {letter : Char} {width : Nat} {digits rest : List Char}
    (hletter : (letter, width) ∈ numberEscapes) (hlength : digits.length < width)
    (hdigits : ∀ d ∈ digits, ∃ value, IsDigit 16 d value)
    (hend : ∀ d ∈ rest.head?, ¬∃ value, IsDigit 16 d value) :
    Escape ('\\' :: letter :: digits) ('\\' :: letter :: digits) rest
  | other {c : Char} {rest : List Char} (hc : c ∉ escapeStarts) :
    Escape ['\\', c] ['\\', c] rest
  | last : Escape ['\\'] ['\\'] []

/-- A text that is written as one escape after another, and what they stand for together. -/
inductive Escaped : List Char → List Char → Prop
  | nil : Escaped [] []
  | cons {spelling value rest values : List Char} (hescape : Escape spelling value rest)
    (hrest : Escaped rest values) : Escaped (spelling ++ rest) (value ++ values)

/-- The ways to write one character that need not look at what is behind it. -/
inductive Spells (c : Char) : List Char → Prop
  | plain (hc : c ≠ '\\') : Spells c [c]
  | mark (hc : c ∈ ['\\', '\'', '"']) : Spells c ['\\', c]
  | control {letter : Char} (hletter : (letter, c) ∈ controlEscapes) : Spells c ['\\', letter]
  | octal {digits : List Char} (hlength : digits.length = 3) (hcode : Numeral 8 digits c.toNat) :
    Spells c ('\\' :: digits)
  | number {letter : Char} {width : Nat} {digits : List Char}
    (hletter : (letter, width) ∈ numberEscapes) (hlength : digits.length = width)
    (hcode : Numeral 16 digits c.toNat) : Spells c ('\\' :: letter :: digits)

theorem Spells.escape {c : Char} {spelling : List Char} (hspells : Spells c spelling)
    (rest : List Char) : Escape spelling [c] rest := by
  cases hspells with
  | plain hc => exact .plain hc
  | mark hc => exact .mark hc
  | control hletter => exact .control hletter
  | octal hlength hcode =>
    exact .octal (List.ne_nil_of_length_eq_add_one hlength) hlength.le hcode (.inl hlength)
  | number hletter hlength hcode => exact .number hletter hlength hcode

/-- The characters that are read up to a number of them and up to the first that is not wanted. -/
theorem takeWhile_take_append {p : Char → Bool} {taken rest : List Char} {n : Nat}
    (htaken : ∀ c ∈ taken, p c = true) (hlength : taken.length ≤ n)
    (hend : taken.length = n ∨ ∀ c ∈ rest.head?, ¬p c = true) :
    ((taken ++ rest).take n).takeWhile p = taken := by
  rw [List.take_append, List.take_of_length_le hlength, List.takeWhile_append_of_pos htaken]
  have hstop : (rest.take (n - taken.length)).takeWhile p = [] := by
    obtain hfull | hhead := hend
    · rw [hfull, Nat.sub_self]
      rfl
    · cases rest with
      | nil => rw [List.take_nil, List.takeWhile_nil]
      | cons d rest =>
        cases n - taken.length with
        | zero => rfl
        | succ m => rw [List.take_succ_cons, List.takeWhile_cons_of_neg (hhead d rfl)]
  rw [hstop, List.append_nil]

/-- A text is cut in one place where so many wanted characters are read from it. -/
theorem exists_append_takeWhile_take (p : Char → Bool) (n : Nat) (text : List Char) :
    ∃ taken rest, text = taken ++ rest ∧ (∀ c ∈ taken, p c = true) ∧ taken.length ≤ n ∧
      (taken.length = n ∨ ∀ c ∈ rest.head?, ¬p c = true) := by
  induction text generalizing n with
  | nil => exact ⟨[], [], rfl, by simp, Nat.zero_le n, .inr (by simp)⟩
  | cons c text ih =>
    cases n with
    | zero => exact ⟨[], c :: text, rfl, by simp, Nat.le_refl 0, .inl rfl⟩
    | succ n =>
      by_cases hc : p c = true
      · obtain ⟨taken, rest, rfl, htaken, hlength, hend⟩ := ih n
        refine ⟨c :: taken, rest, rfl, ?_, Nat.succ_le_succ hlength, ?_⟩
        · exact List.forall_mem_cons.mpr ⟨hc, htaken⟩
        · exact hend.imp (congrArg Nat.succ) id
      · refine ⟨[], c :: text, rfl, by simp, Nat.zero_le _, .inr ?_⟩
        rintro d hd
        cases hd
        exact hc

theorem simpleEscape?_mark : ∀ c ∈ ['\\', '\'', '"'],
    c ≠ '\n' ∧ simpleEscape? c = some c :=
  List.all_iff_forall_prop.mp (by decide)

theorem simpleEscape?_control : ∀ entry ∈ controlEscapes,
    entry.1 ≠ '\n' ∧ simpleEscape? entry.1 = some entry.2 :=
  List.all_iff_forall_prop.mp (by decide)

theorem hexWidth?_number : ∀ entry ∈ numberEscapes, entry.1 ≠ '\n' ∧
    simpleEscape? entry.1 = none ∧ isOctalDigit entry.1 = false ∧
      hexWidth? entry.1 = some entry.2 :=
  List.all_iff_forall_prop.mp (by decide)

/-- A letter or mark that stands for a character by itself is in the list of those that do. -/
theorem mem_of_simpleEscape? {c value : Char} (hc : simpleEscape? c = some value) :
    c ∈ ['\\', '\'', '"'] ∧ value = c ∨ (c, value) ∈ controlEscapes := by
  unfold simpleEscape? at hc
  split at hc
  · next hmark =>
    cases hc
    refine .inl ⟨?_, rfl⟩
    simpa [or_assoc] using hmark
  · refine .inr ?_
    repeat' split at hc
    all_goals cases hc
    all_goals simp_all [controlEscapes]

theorem mem_of_hexWidth? {c : Char} {width : Nat} (hc : hexWidth? c = some width) :
    (c, width) ∈ numberEscapes := by
  unfold hexWidth? at hc
  repeat' split at hc
  all_goals simp_all [numberEscapes]

/-- The characters that mean something behind a backslash are those that the reader asks for. -/
theorem not_mem_escapeStarts_iff {c : Char} : c ∉ escapeStarts ↔
    c ≠ '\n' ∧ simpleEscape? c = none ∧ isOctalDigit c = false ∧ hexWidth? c = none := by
  constructor
  · intro hc
    refine ⟨?_, ?_, ?_, ?_⟩
    · rintro rfl
      exact hc (by decide)
    · refine Option.eq_none_iff_forall_ne_some.mpr fun value hvalue => ?_
      obtain ⟨hmark, -⟩ | hcontrol := mem_of_simpleEscape? hvalue
      · have hmarks : ∀ d ∈ ['\\', '\'', '"'], d ∈ escapeStarts :=
          List.all_iff_forall_prop.mp (by decide)
        exact hc (hmarks c hmark)
      · have hcontrols : ∀ entry ∈ controlEscapes, entry.1 ∈ escapeStarts :=
          List.all_iff_forall_prop.mp (by decide)
        exact hc (hcontrols _ hcontrol)
    · refine Bool.eq_false_iff.mpr fun hoctal => ?_
      obtain ⟨value, hlt, hdigit⟩ := isOctalDigit_iff.mp hoctal
      have hdigits : ∀ n < 8, ∀ d ∈ [Nat.digitChar n, (Nat.digitChar n).toUpper],
          d ∈ escapeStarts := by
        intro n hn
        refine List.all_iff_forall_prop.mp ?_
        revert n
        decide
      exact hc (hdigits value hlt c (by simpa using hdigit))
    · refine Option.eq_none_iff_forall_ne_some.mpr fun width hwidth => ?_
      have hnumbers : ∀ entry ∈ numberEscapes, entry.1 ∈ escapeStarts :=
        List.all_iff_forall_prop.mp (by decide)
      exact hc (hnumbers _ (mem_of_hexWidth? hwidth))
  · rintro ⟨hline, hsimple, hoctal, hwidth⟩ hmem
    have hstarts : ∀ d ∈ escapeStarts, d = '\n' ∨ (simpleEscape? d).isSome = true ∨
        isOctalDigit d = true ∨ (hexWidth? d).isSome = true :=
      List.all_iff_forall_prop.mp (by decide)
    simpa [hline, hsimple, hoctal, hwidth] using hstarts c hmem

theorem scalar?_eq_none_iff {code : Nat} : scalar? code = none ↔ ¬code.isValidChar := by
  unfold scalar? Nat.isValidChar
  split
  · next h => simp_all
  · next h => simp_all

theorem escapeValue_octal {digits rest : List Char} {c : Char} (hfirst : digits ≠ [])
    (hlength : digits.length ≤ 3) (hcode : Numeral 8 digits c.toNat)
    (hend : digits.length = 3 ∨ ∀ d ∈ rest.head?, ¬∃ value, IsDigit 8 d value) :
    escapeValue (digits ++ rest) = ([c], digits.length) := by
  obtain ⟨hdigits, hnumber⟩ := (numeral_iff (by decide)).mp hcode
  obtain ⟨first, more, rfl⟩ := List.exists_cons_of_ne_nil hfirst
  obtain ⟨⟨value, hfirst⟩, hmore⟩ := List.forall_mem_cons.mp hdigits
  obtain ⟨hline, hsimple, hoctal⟩ := hfirst.isOctalDigit
  have hmunch : ((more ++ rest).take 2).takeWhile isOctalDigit = more := by
    refine takeWhile_take_append (fun d hd => isOctalDigit_iff.mpr (hmore d hd))
      (Nat.le_of_succ_le_succ hlength) (hend.imp Nat.succ.inj fun hhead d hd hdigit => ?_)
    exact hhead d hd (isOctalDigit_iff.mp hdigit)
  rw [List.cons_append, escapeValue]
  simp only [hsimple, hoctal, hmunch, hnumber, scalar?_toNat, beq_iff_eq, hline, if_false, if_true]

/-- The digits that a letter asks for are read as far as they are there. -/
theorem escapeValue_hex {letter : Char} {width : Nat} {digits rest : List Char}
    (hletter : (letter, width) ∈ numberEscapes)
    (hdigits : ∀ d ∈ digits, ∃ value, IsDigit 16 d value) (hlength : digits.length ≤ width)
    (hend : digits.length = width ∨ ∀ d ∈ rest.head?, ¬∃ value, IsDigit 16 d value) :
    escapeValue (letter :: (digits ++ rest)) =
      match if digits.length = width then scalar? (digitsValue 16 digits) else none with
      | some c => ([c], digits.length + 1)
      | none => ('\\' :: letter :: digits, digits.length + 1) := by
  obtain ⟨hline, hsimple, hoctal, hwidth⟩ := hexWidth?_number _ hletter
  have hmunch : ((digits ++ rest).take width).takeWhile isHexDigit = digits := by
    refine takeWhile_take_append (fun d hd => isHexDigit_iff.mpr (hdigits d hd)) hlength
      (hend.imp id fun hhead d hd hdigit => ?_)
    exact hhead d hd (isHexDigit_iff.mp hdigit)
  rw [escapeValue]
  cases hfound : if digits.length = width then scalar? (digitsValue 16 digits) else none <;>
    simp only [hsimple, hoctal, hwidth, hmunch, beq_iff_eq, hline, if_false, Bool.false_eq_true,
      hfound]

/-- Each escape takes its part of the text whatever stands behind it, and is read as what it
    stands for. -/
theorem Escape.reads {spelling value rest : List Char} (hescape : Escape spelling value rest) :
    (∃ c ≠ '\\', spelling = [c] ∧ value = [c]) ∨
      ∃ tail, spelling = '\\' :: tail ∧ escapeValue (tail ++ rest) = (value, tail.length) := by
  cases hescape with
  | plain hc => exact .inl ⟨_, hc, rfl, rfl⟩
  | joined => exact .inr ⟨_, rfl, rfl⟩
  | @mark c _ hc =>
    obtain ⟨hline, hsimple⟩ := simpleEscape?_mark c hc
    refine .inr ⟨_, rfl, ?_⟩
    rw [List.singleton_append, escapeValue]
    simp only [hsimple, beq_iff_eq, hline, if_false, List.length_singleton]
  | control hletter =>
    obtain ⟨hline, hsimple⟩ := simpleEscape?_control _ hletter
    refine .inr ⟨_, rfl, ?_⟩
    rw [List.singleton_append, escapeValue]
    simp only [hsimple, beq_iff_eq, hline, if_false, List.length_singleton]
  | octal hfirst hlength hcode hend =>
    exact .inr ⟨_, rfl, escapeValue_octal hfirst hlength hcode hend⟩
  | number hletter hlength hcode =>
    obtain ⟨hdigits, hnumber⟩ := (numeral_iff (by decide)).mp hcode
    refine .inr ⟨_, rfl, ?_⟩
    rw [List.cons_append, escapeValue_hex hletter hdigits hlength.le (.inl hlength),
      if_pos hlength, hnumber, scalar?_toNat]
    rfl
  | noCharacter hletter hlength hcode hnone =>
    obtain ⟨hdigits, hnumber⟩ := (numeral_iff (by decide)).mp hcode
    refine .inr ⟨_, rfl, ?_⟩
    rw [List.cons_append, escapeValue_hex hletter hdigits hlength.le (.inl hlength),
      if_pos hlength, hnumber, scalar?_eq_none_iff.mpr hnone]
    rfl
  | truncated hletter hlength hdigits hend =>
    refine .inr ⟨_, rfl, ?_⟩
    rw [List.cons_append, escapeValue_hex hletter hdigits hlength.le (.inr hend),
      if_neg hlength.ne]
    rfl
  | other hc =>
    obtain ⟨hline, hsimple, hoctal, hwidth⟩ := not_mem_escapeStarts_iff.mp hc
    refine .inr ⟨_, rfl, ?_⟩
    rw [List.singleton_append, escapeValue]
    simp only [hsimple, hoctal, hwidth, beq_iff_eq, hline, if_false, Bool.false_eq_true,
      List.length_singleton]
  | last => exact .inr ⟨_, rfl, rfl⟩

theorem Escape.unescape_append {spelling value rest : List Char}
    (hescape : Escape spelling value rest) :
    unescape (spelling ++ rest) = value ++ unescape rest := by
  obtain ⟨c, hc, rfl, rfl⟩ | ⟨tail, rfl, hvalue⟩ := hescape.reads
  · rw [List.singleton_append, unescape, if_neg (by simpa using hc), List.singleton_append]
  · rw [List.cons_append, unescape, if_pos (by rfl), hvalue]
    exact congrArg (fun text => value ++ unescape text) List.drop_left

/-- A text begins with one escape only. -/
theorem Escape.eq_of_append_eq {spelling value rest spelling' value' rest' : List Char}
    (hescape : Escape spelling value rest) (hescape' : Escape spelling' value' rest')
    (htext : spelling ++ rest = spelling' ++ rest') :
    spelling = spelling' ∧ value = value' ∧ rest = rest' := by
  obtain ⟨c, hc, rfl, rfl⟩ | ⟨tail, rfl, hvalue⟩ := hescape.reads <;>
    obtain ⟨c', hc', rfl, rfl⟩ | ⟨tail', rfl, hvalue'⟩ := hescape'.reads
  · obtain ⟨rfl, rfl⟩ := List.cons.inj htext
    exact ⟨rfl, rfl, rfl⟩
  · exact absurd (List.cons.inj htext).1 hc
  · exact absurd (List.cons.inj htext).1.symm hc'
  · have htail : tail ++ rest = tail' ++ rest' := (List.cons.inj htext).2
    rw [htail, hvalue'] at hvalue
    obtain ⟨rfl, hlength⟩ := Prod.mk.inj hvalue
    obtain ⟨rfl, rfl⟩ := List.append_inj htail hlength.symm
    exact ⟨rfl, rfl, rfl⟩

theorem lt_of_mem_values {base : Nat} {digits : List Char} {values : List Nat}
    (hvalues : List.Forall₂ (IsDigit base) digits values) {value : Nat} (hmem : value ∈ values) :
    value < base := by
  induction hvalues with
  | nil => cases hmem
  | cons hdigit _ ih =>
    obtain rfl | hmem := List.mem_cons.mp hmem
    · exact hdigit.1
    · exact ih hmem

/-- As few octal digits as an escape takes name a character. -/
theorem exists_numeral_octal {digits : List Char}
    (hdigits : ∀ d ∈ digits, ∃ value, IsDigit 8 d value) (hlength : digits.length ≤ 3) :
    ∃ c : Char, Numeral 8 digits c.toNat := by
  have hnumeral : Numeral 8 digits (digitsValue 8 digits) :=
    (numeral_iff (by decide)).mpr ⟨hdigits, rfl⟩
  obtain ⟨values, hvalues, hnumber⟩ := hnumeral
  have hbound : Nat.ofDigits 8 values.reverse < 8 ^ values.reverse.length := by
    refine Nat.ofDigits_lt_base_pow_length (by decide) fun value hvalue => ?_
    exact lt_of_mem_values hvalues (List.mem_reverse.mp hvalue)
  have hpow : 8 ^ values.reverse.length ≤ 8 ^ 3 := by
    refine Nat.pow_le_pow_right (by decide) ?_
    rw [List.length_reverse, ← hvalues.length_eq]
    exact hlength
  have hvalid : (Nat.ofDigits 8 values.reverse).isValidChar := .inl (by omega)
  exact ⟨Char.ofNatAux _ hvalid, values, hvalues, rfl⟩

/-- A text that is not empty begins with an escape. -/
theorem exists_escape {text : List Char} (htext : text ≠ []) :
    ∃ spelling value rest, Escape spelling value rest ∧ spelling ≠ [] ∧
      spelling ++ rest = text := by
  obtain ⟨c, rest, rfl⟩ := List.exists_cons_of_ne_nil htext
  by_cases hplain : c = '\\'
  swap
  · exact ⟨_, _, _, .plain hplain, List.cons_ne_nil _ _, rfl⟩
  subst hplain
  cases rest with
  | nil => exact ⟨_, _, _, .last, List.cons_ne_nil _ _, rfl⟩
  | cons c rest =>
    by_cases hline : c = '\n'
    · subst hline
      exact ⟨_, _, _, .joined, List.cons_ne_nil _ _, rfl⟩
    cases hsimple : simpleEscape? c with
    | some value =>
      obtain ⟨hmark, -⟩ | hcontrol := mem_of_simpleEscape? hsimple
      · exact ⟨_, _, _, .mark hmark, List.cons_ne_nil _ _, rfl⟩
      · exact ⟨_, _, _, .control hcontrol, List.cons_ne_nil _ _, rfl⟩
    | none =>
      by_cases hoctal : isOctalDigit c = true
      · obtain ⟨digits, rest, rfl, hdigits, hlength, hend⟩ :=
          exists_append_takeWhile_take isOctalDigit 2 rest
        have hall : ∀ d ∈ c :: digits, ∃ value, IsDigit 8 d value :=
          List.forall_mem_cons.mpr
            ⟨isOctalDigit_iff.mp hoctal, fun d hd => isOctalDigit_iff.mp (hdigits d hd)⟩
        obtain ⟨value, hcode⟩ := exists_numeral_octal hall (Nat.succ_le_succ hlength)
        refine ⟨_, _, rest, .octal (List.cons_ne_nil c digits) (Nat.succ_le_succ hlength) hcode
          (hend.imp (congrArg Nat.succ) fun hhead d hd hdigit => ?_), List.cons_ne_nil _ _, rfl⟩
        exact hhead d hd (isOctalDigit_iff.mpr hdigit)
      cases hwidth : hexWidth? c with
      | none =>
        exact ⟨_, _, _, .other (not_mem_escapeStarts_iff.mpr
          ⟨hline, hsimple, Bool.eq_false_iff.mpr hoctal, hwidth⟩), List.cons_ne_nil _ _, rfl⟩
      | some width =>
        have hletter := mem_of_hexWidth? hwidth
        obtain ⟨digits, rest, rfl, hdigits, hlength, hend⟩ :=
          exists_append_takeWhile_take isHexDigit width rest
        have hall : ∀ d ∈ digits, ∃ value, IsDigit 16 d value :=
          fun d hd => isHexDigit_iff.mp (hdigits d hd)
        have hcode : Numeral 16 digits (digitsValue 16 digits) :=
          (numeral_iff (by decide)).mpr ⟨hall, rfl⟩
        by_cases hfull : digits.length = width
        · by_cases hvalid : (digitsValue 16 digits).isValidChar
          · exact ⟨_, _, rest, .number (c := Char.ofNatAux _ hvalid) hletter hfull hcode,
              List.cons_ne_nil _ _, rfl⟩
          · exact ⟨_, _, rest, .noCharacter hletter hfull hcode hvalid, List.cons_ne_nil _ _, rfl⟩
        · refine ⟨_, _, rest, .truncated hletter (Nat.lt_of_le_of_ne hlength hfull) hall
            fun d hd hdigit => ?_, List.cons_ne_nil _ _, rfl⟩
          exact (hend.resolve_left hfull) d hd (isHexDigit_iff.mpr hdigit)

/-- A text stands for what its escapes stand for, one after the other. -/
theorem escaped_unescape (text : List Char) : Escaped text (unescape text) := by
  induction hlength : text.length using Nat.strongRecOn generalizing text with
  | ind n ih =>
    by_cases htext : text = []
    · subst htext
      rw [unescape]
      exact .nil
    · obtain ⟨spelling, value, rest, hescape, hspelling, rfl⟩ := exists_escape htext
      have hshorter : rest.length < n := by
        rw [← hlength, List.length_append]
        exact Nat.lt_add_of_pos_left (List.length_pos_iff.mpr hspelling)
      rw [hescape.unescape_append]
      exact .cons hescape (ih rest.length hshorter rest rfl)

theorem Escaped.unescape_eq {text value : List Char} (hescaped : Escaped text value) :
    unescape text = value := by
  induction hescaped with
  | nil => rw [unescape]
  | cons hescape _ ih => rw [hescape.unescape_append, ih]

theorem unescape_flatten {text : List Char} {spellings : List (List Char)}
    (hspells : List.Forall₂ Spells text spellings) : unescape spellings.flatten = text := by
  induction hspells with
  | nil => rw [List.flatten_nil, unescape]
  | cons hfirst _ ih => rw [List.flatten_cons, (hfirst.escape _).unescape_append, ih]; rfl

/-- An escaped text is cut into escapes in one way, and its value is what they stand for one after
    the other. A text whose characters are written with escapes of full width comes back, and
    octal digits always name a character. -/
theorem unescape_eq_iff_escaped :
    (∀ text value, unescape text = value ↔ Escaped text value) ∧
    (∀ text, text ≠ [] → ∃! escape : List Char × List Char × List Char,
      Escape escape.1 escape.2.1 escape.2.2 ∧ escape.1 ++ escape.2.2 = text) ∧
    (∀ text spellings, List.Forall₂ Spells text spellings →
      unescape spellings.flatten = text) ∧
    ∀ (first : Char) (rest : List Char), isOctalDigit first = true → ∃ c : Char,
      scalar? (digitsValue 8 (first :: (rest.take 2).takeWhile isOctalDigit)) = some c := by
  refine ⟨fun text value => ⟨?_, Escaped.unescape_eq⟩, ?_, fun _ _ => unescape_flatten, ?_⟩
  · rintro rfl
    exact escaped_unescape text
  · intro text htext
    obtain ⟨spelling, value, rest, hescape, -, happend⟩ := exists_escape htext
    refine ⟨(spelling, value, rest), ⟨hescape, happend⟩, ?_⟩
    rintro ⟨spelling', value', rest'⟩ ⟨hescape', happend'⟩
    obtain ⟨rfl, rfl, rfl⟩ := hescape.eq_of_append_eq hescape' (happend.trans happend'.symm)
    rfl
  · intro first rest hfirst
    have hdigits : ∀ d ∈ first :: (rest.take 2).takeWhile isOctalDigit, ∃ value,
        IsDigit 8 d value := by
      refine List.forall_mem_cons.mpr ⟨isOctalDigit_iff.mp hfirst, fun d hd => ?_⟩
      exact isOctalDigit_iff.mp (List.mem_takeWhile_imp hd)
    have hlength : (first :: (rest.take 2).takeWhile isOctalDigit).length ≤ 3 := by
      have hwhile := (List.takeWhile_sublist isOctalDigit (l := rest.take 2)).length_le
      have htake := List.length_take_le 2 rest
      rw [List.length_cons]
      omega
    obtain ⟨c, hcode⟩ := exists_numeral_octal hdigits hlength
    refine ⟨c, ?_⟩
    rw [((numeral_iff (by decide)).mp hcode).2, scalar?_toNat]

/-- Three spellings of one letter and one of a line feed, and the escapes and the octal digits that
    a text begins with. -/
theorem unescape_letter_and_line :
    unescape "\\x4a\\112\\U0000004A\\n".toList = "JJJ\n".toList ∧
      (∃! escape : List Char × List Char × List Char,
        Escape escape.1 escape.2.1 escape.2.2 ∧ escape.1 ++ escape.2.2 = "\\x4".toList) ∧
      ∃ c : Char, scalar? (digitsValue 8 ('7' :: ("789".toList.take 2).takeWhile isOctalDigit)) =
        some c := by
  have hspells : List.Forall₂ Spells "JJJ\n".toList
      ["\\x4a".toList, "\\112".toList, "\\U0000004A".toList, "\\n".toList] := by
    have hletter : ('x', 2) ∈ numberEscapes := by decide
    have hletter' : ('U', 8) ∈ numberEscapes := by decide
    refine .cons (.number hletter rfl ?_) (.cons (.octal (by decide) ?_)
      (.cons (.number hletter' rfl ?_) (.cons (.control (by decide)) .nil)))
    · exact ⟨[4, 10], .cons ⟨by decide, .inl rfl⟩ (.cons ⟨by decide, .inl rfl⟩ .nil), rfl⟩
    · have hoctal : ∀ c ∈ ['1', '1', '2'], isOctalDigit c = true :=
        List.all_iff_forall_prop.mp (by decide)
      exact (numeral_iff (by decide)).mpr ⟨fun c hc => isOctalDigit_iff.mp (hoctal c hc), rfl⟩
    · have hhex : ∀ c ∈ "0000004A".toList, isHexDigit c = true :=
        List.all_iff_forall_prop.mp (by decide)
      exact (numeral_iff (by decide)).mpr ⟨fun c hc => isHexDigit_iff.mp (hhex c hc), rfl⟩
  exact ⟨unescape_eq_iff_escaped.2.2.1 _ _ hspells,
    unescape_eq_iff_escaped.2.1 _ (by decide),
    unescape_eq_iff_escaped.2.2.2 _ _ (by decide)⟩

end SourceSurvey.Syntax
