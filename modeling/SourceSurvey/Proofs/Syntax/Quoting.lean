import Mathlib.Data.List.TakeWhile
import SourceSurvey.Proofs.Syntax.Lexing
import SourceSurvey.Syntax.Literal

/-!
A text that is written as a literal on one line is one token, and its value is the text.
-/

namespace SourceSurvey.Syntax

theorem isHexDigit_hexDigit : ∀ n < 16, isHexDigit (hexDigit n) = true := by decide

theorem hexValue_hexDigit : ∀ n < 16, hexValue (hexDigit n) = n := by decide

theorem length_hexDigits (width n : Nat) : (hexDigits width n).length = width := by
  induction width generalizing n with
  | zero => rfl
  | succ width ih => rw [hexDigits, List.length_append, ih, List.length_singleton]

theorem all_isHexDigit_hexDigits (width n : Nat) : (hexDigits width n).all isHexDigit = true := by
  induction width generalizing n with
  | zero => rfl
  | succ width ih =>
    have hlast := isHexDigit_hexDigit (n % 16) (Nat.mod_lt n (by decide))
    rw [hexDigits, List.all_append, ih, List.all_cons, hlast]
    rfl

/-- As many digits as a number has stand for the number. -/
theorem digitsValue_hexDigits (width n : Nat) (hn : n < Nat.pow 16 width) :
    digitsValue 16 (hexDigits width n) = n := by
  induction width generalizing n with
  | zero =>
    have hn : n < 1 := hn
    rw [hexDigits, digitsValue, List.foldl_nil]
    omega
  | succ width ih =>
    have hlast := hexValue_hexDigit (n % 16) (Nat.mod_lt n (by decide))
    have hpow : n < Nat.pow 16 width * 16 := hn
    have hrest := ih (n / 16) (by omega)
    rw [digitsValue] at hrest
    rw [hexDigits, digitsValue, List.foldl_append, hrest, List.foldl_cons, List.foldl_nil, hlast]
    omega

/-- How a character is written inside quotation marks. -/
inductive Quoted (c : Char) : List Char → Prop
  | mark (hc : c = '\\' ∨ c = '"') : Quoted c ['\\', c]
  | plain (hbackslash : c ≠ '\\') (hquote : c ≠ '"') (hlow : 0x20 ≤ c.toNat) : Quoted c [c]
  | number : Quoted c ('\\' :: 'U' :: hexDigits 8 c.toNat)

theorem quoted_quoteChar (c : Char) : Quoted c (quoteChar c) := by
  unfold quoteChar
  split
  · next hc => exact .mark hc
  split
  · next hc hplain => exact .plain (fun h => hc (.inl h)) (fun h => hc (.inr h)) hplain.1
  · exact .number

/-- The quotation of a literal on one line. -/
def lineQuotation : Quotation where
  mark := '"'
  isMark := rfl
  triple := false
  raw := false
  bytes := false
  format := false

theorem escapeLength_number (n : Nat) (rest : List Char) :
    escapeLength ('U' :: (hexDigits 8 n ++ rest)) = 9 := by
  have htake : (hexDigits 8 n ++ rest).take 8 = hexDigits 8 n :=
    List.take_left' (length_hexDigits 8 n)
  simp [escapeLength, digitsLength, htake, length_hexDigits, all_isHexDigit_hexDigits]

/-- A quoted character does not end a literal. -/
theorem exists_stretch_quoted {c : Char} {quoted : List Char} (hquoted : Quoted c quoted)
    (begun : Bool) (rest : List Char) :
    ∃ begun', lineQuotation.stretch begun (quoted ++ rest) =
      (lineQuotation.stretch begun' rest).map fun (s, n) => (s, n + quoted.length) := by
  cases hquoted with
  | mark hc =>
    have hescape : escapeLength (c :: rest) = 1 := by
      obtain rfl | rfl := hc <;> rfl
    refine ⟨false, ?_⟩
    rw [List.cons_append, List.cons_append, List.nil_append, Quotation.stretch]
    simp [Quotation.move, lineQuotation, hescape]
  | plain hbackslash hquote hlow =>
    have hzero : c ≠ '\x00' := by
      rintro rfl
      exact absurd hlow (by decide)
    have hline : c ≠ '\n' := by
      rintro rfl
      exact absurd hlow (by decide)
    refine ⟨true, ?_⟩
    rw [List.cons_append, List.nil_append, Quotation.stretch]
    simp [Quotation.move, lineQuotation, hzero, hline, hbackslash, hquote]
  | number =>
    refine ⟨false, ?_⟩
    rw [List.cons_append, List.cons_append, Quotation.stretch]
    simp [Quotation.move, lineQuotation, escapeLength_number, length_hexDigits]

/-- A literal reaches up to the quotation mark behind its text. -/
theorem stretch_quoted (text rest : List Char) (begun : Bool) :
    lineQuotation.stretch begun (text.flatMap quoteChar ++ '"' :: rest) =
      some (.closed, (text.flatMap quoteChar).length + 1) := by
  induction text generalizing begun with
  | nil =>
    rw [List.flatMap_nil, List.nil_append, Quotation.stretch]
    simp [Quotation.move, lineQuotation]
  | cons c text ih =>
    obtain ⟨begun', hstep⟩ := exists_stretch_quoted (quoted_quoteChar c) begun
      (text.flatMap quoteChar ++ '"' :: rest)
    rw [List.flatMap_cons, List.append_assoc, hstep, ih, Option.map_some, List.length_append]
    exact congrArg (fun n => some (Stretch.closed, n)) (by omega)

/-- No written text begins with a quotation mark, so none is taken for a tripled one. -/
theorem ofText?_quoteLine (text : List Char) {rest : List Char} (hrest : rest.head? ≠ some '"') :
    Quotation.ofText? (quoteLine text ++ rest) = some (lineQuotation, 1) := by
  have htriple : ['"', '"'].isPrefixOf (text.flatMap quoteChar ++ '"' :: rest) = false := by
    cases text with
    | nil =>
      cases rest with
      | nil => rfl
      | cons d rest =>
        have hd : ('"' == d) = false := beq_eq_false_iff_ne.mpr fun h => hrest (by rw [h]; rfl)
        simp [List.isPrefixOf, hd]
    | cons c text =>
      have hfirst : ∀ quoted, Quoted c quoted → ∃ d more, quoted = d :: more ∧ d ≠ '"' := by
        intro quoted hquoted
        cases hquoted with
        | mark _ => exact ⟨_, _, rfl, by decide⟩
        | plain _ hquote _ => exact ⟨_, _, rfl, hquote⟩
        | number => exact ⟨_, _, rfl, by decide⟩
      obtain ⟨d, more, hquoted, hd⟩ := hfirst _ (quoted_quoteChar c)
      rw [List.flatMap_cons, hquoted]
      have hne : ('"' == d) = false := beq_eq_false_iff_ne.mpr (Ne.symm hd)
      simp [List.isPrefixOf, hne]
  have hassoc : quoteLine text ++ rest = '"' :: (text.flatMap quoteChar ++ '"' :: rest) := by
    simp [quoteLine]
  rw [hassoc, Quotation.ofText?]
  simp [isLiteralLetter, isQuotationMark, Quotation.opened, Quotation.width, htriple, lineQuotation]

/-- A literal on one line is cut off as a whole. -/
theorem cutsOff_quoteLine {gap : List Char} (hgap : gap.all isSeparator = true) (text : List Char)
    {rest : List Char} (hrest : rest.head? ≠ some '"') :
    CutsOff [⟨gap, quoteLine text, .string true⟩] rest := by
  have hofText := ofText?_quoteLine text hrest
  have hassoc : text.flatMap quoteChar ++ ['"'] ++ rest =
      text.flatMap quoteChar ++ '"' :: rest := by simp
  refine cutsOff_singleton hgap (by decide) (by decide) ?_
  rw [quoteLine, List.cons_append, List.cons_append, hassoc] at hofText
  rw [List.append_eq, hassoc, recogniseCode, hofText]
  have hstretch : lineQuotation.stretch false
      (('"' :: (text.flatMap quoteChar ++ '"' :: rest)).drop 1) =
        some (.closed, (text.flatMap quoteChar).length + 1) := stretch_quoted text rest false
  have hplain : lineQuotation.format = false := rfl
  simp only [hplain, Bool.false_eq_true, if_false, hstretch]
  simp [isQuotationMark]

/-- Line feeds alone are left as they are. -/
theorem unixLineEnds_eq_self {text : List Char} (htext : '\r' ∉ text) :
    Text.unixLineEnds text = text := by
  fun_induction Text.unixLineEnds text with
  | case1 => rfl
  | case2 rest ih => exact absurd List.mem_cons_self htext
  | case3 rest _ ih => exact absurd List.mem_cons_self htext
  | case4 c rest _ _ ih => rw [ih fun h => htext (List.mem_cons_of_mem c h)]

theorem Quoted.noReturn {c : Char} {quoted : List Char} (hquoted : Quoted c quoted) :
    '\r' ∉ quoted := by
  cases hquoted with
  | mark hc => obtain rfl | rfl := hc <;> decide
  | plain _ _ hlow =>
    rw [List.mem_singleton]
    rintro rfl
    exact absurd hlow (by decide)
  | number =>
    intro hmem
    have hdigits : '\r' ∈ hexDigits 8 c.toNat := by simpa using hmem
    have hhex := List.all_eq_true.mp (all_isHexDigit_hexDigits 8 c.toNat) _ hdigits
    exact absurd hhex (by decide)

theorem scalar?_toNat (c : Char) : scalar? c.toNat = some c := by
  have hvalid : c.toNat < 0xD800 ∨ 0xDFFF < c.toNat ∧ c.toNat < 0x110000 := c.valid
  unfold scalar?
  rw [if_pos (by simpa using hvalid), Char.ofNat_toNat]

theorem escapeValue_number (c : Char) (rest : List Char) :
    escapeValue ('U' :: (hexDigits 8 c.toNat ++ rest)) = ([c], 9) := by
  have htake : (hexDigits 8 c.toNat ++ rest).take 8 = hexDigits 8 c.toNat :=
    List.take_left' (length_hexDigits 8 c.toNat)
  have hwhile : (hexDigits 8 c.toNat).takeWhile isHexDigit = hexDigits 8 c.toNat :=
    List.takeWhile_eq_self_iff.mpr
      (List.all_eq_true.mp (all_isHexDigit_hexDigits 8 c.toNat))
  have hvalue : digitsValue 16 (hexDigits 8 c.toNat) = c.toNat := by
    have hvalid : c.toNat < 0xD800 ∨ 0xDFFF < c.toNat ∧ c.toNat < 0x110000 := c.valid
    have hfits : c.toNat < 0x100000000 := by omega
    exact digitsValue_hexDigits 8 c.toNat hfits
  simp [escapeValue, simpleEscape?, isOctalDigit, hexWidth?, htake, hwhile, length_hexDigits, hvalue,
    scalar?_toNat]

/-- A quoted character stands for itself. -/
theorem Quoted.unescape_append {c : Char} {quoted : List Char} (hquoted : Quoted c quoted)
    (rest : List Char) : unescape (quoted ++ rest) = c :: unescape rest := by
  cases hquoted with
  | mark hc =>
    obtain rfl | rfl := hc <;>
      simp [unescape, escapeValue, simpleEscape?]
  | plain hbackslash _ _ =>
    rw [List.cons_append, List.nil_append, unescape]
    simp [hbackslash]
  | number =>
    rw [List.cons_append, List.cons_append, unescape]
    simp [escapeValue_number, length_hexDigits]

theorem unescape_quoted (text : List Char) : unescape (text.flatMap quoteChar) = text := by
  induction text with
  | nil => rw [List.flatMap_nil, unescape]
  | cons c text ih => rw [List.flatMap_cons, (quoted_quoteChar c).unescape_append, ih]

/-- The value of a literal on one line is the text that it was written for. -/
theorem literalValue?_quoteLine (text : List Char) : literalValue? (quoteLine text) = some text := by
  have hofText : Quotation.ofText? (quoteLine text ++ []) = some (lineQuotation, 1) :=
    ofText?_quoteLine text (by simp)
  rw [List.append_nil] at hofText
  have hinside : ((quoteLine text).drop 1).take ((quoteLine text).length - 1 - 1) =
      text.flatMap quoteChar := by
    have hlength : (quoteLine text).length - 1 - 1 = (text.flatMap quoteChar).length := by
      rw [quoteLine, List.length_append, List.length_cons, List.length_singleton]
      omega
    rw [hlength]
    exact List.take_left
  have hreturn : '\r' ∉ text.flatMap quoteChar := by
    intro hmem
    obtain ⟨c, -, hc⟩ := List.mem_flatMap.mp hmem
    exact (quoted_quoteChar c).noReturn hc
  have hunix := unixLineEnds_eq_self hreturn
  have hwidth : lineQuotation.width = 1 := rfl
  rw [literalValue?, hofText, Option.bind_eq_bind, Option.bind_some]
  simp only [hwidth, hinside, hunix, unescape_quoted]
  rfl

end SourceSurvey.Syntax
