import SourceSurvey.Json.Value
import SourceSurvey.Proofs.Json.Failing

/-!
The spellings of a string. A character may stand for itself or be escaped in several ways; a string
is read as the same characters in each of its spellings. Surrogates that are no pairs spell nothing,
but can be passed over.
-/

namespace SourceSurvey.Json

/-- A part of a string as it is written: a character that stands for itself, a short escape, or an
    escape with four digits. -/
inductive Glyph
  | plain (c : Char) (h : isPlain c = true)
  | short (letter c : Char) (h : shortEscape? letter = some c)
  | number (digits : List Char) (value : Nat) (hlength : digits.length = 4)
      (hvalue : hexValue? digits = some value)

namespace Glyph

/-- The text of a part. -/
def text : Glyph → List Char
  | plain c _ => [c]
  | short letter _ _ => ['\\', letter]
  | number digits _ _ _ => '\\' :: 'u' :: digits

/-- The text of a string made of some parts. -/
def quoted (glyphs : List Glyph) : List Char := '"' :: (glyphs.flatMap text ++ ['"'])

/-- What some parts spell, where every surrogate belongs to a pair. -/
def decode? : List Glyph → Option (List Char)
  | [] => some []
  | plain c _ :: rest => (decode? rest).map (c :: ·)
  | short _ c _ :: rest => (decode? rest).map (c :: ·)
  | number _ lead _ _ :: rest =>
    if 0xDC00 ≤ lead ∧ lead ≤ 0xDFFF then none
    else if lead < 0xD800 ∨ 0xDBFF < lead then (decode? rest).map (Char.ofNat lead :: ·)
    else
      match rest with
      | number _ trail _ _ :: rest =>
        if trail < 0xDC00 ∨ 0xDFFF < trail then none
        else (decode? rest).map (Char.ofNat (pairValue lead trail) :: ·)
      | _ => none

end Glyph

/-- A text is a string. -/
def IsString (text : List Char) : Prop := ∃ glyphs, text = Glyph.quoted glyphs

/-- A text is a string that spells some text. -/
def Spells (s : String) (text : List Char) : Prop :=
  ∃ glyphs, text = Glyph.quoted glyphs ∧ Glyph.decode? glyphs = some s.toList

/-- The digits of a control character are read as its number. -/
theorem hexValue?_control : ∀ n < 32,
    hexValue? ['0', '0', Nat.digitChar (n / 16), Nat.digitChar (n % 16)] = some n := by
  decide

/-- What a character is written as is a part that spells it. -/
theorem Glyph.exists_text_eq_escapeChar (c : Char) : ∃ glyph : Glyph, glyph.text = escapeChar c ∧
    ∀ rest, decode? (glyph :: rest) = (decode? rest).map (c :: ·) := by
  unfold escapeChar
  split
  case h_8 hquote hslash _ _ _ _ _ =>
    by_cases hlow : c.toNat < 0x20
    · refine ⟨.number _ c.toNat rfl (hexValue?_control c.toNat hlow), by rw [if_pos hlow]; rfl,
        fun rest => ?_⟩
      refine (decode?.eq_def _).trans ?_
      simp only
      rw [if_neg (by omega), if_pos (by omega), Char.ofNat_toNat]
    · have hplain : isPlain c = true := by
        simp only [isPlain, Bool.and_eq_true, bne_iff_ne, decide_eq_true_eq]
        exact ⟨⟨hquote, hslash⟩, by omega⟩
      exact ⟨.plain c hplain, by rw [if_neg hlow]; rfl, fun _ => rfl⟩
  all_goals exact ⟨.short _ _ rfl, rfl, fun _ => rfl⟩

/-- A written string spells its text. -/
theorem spells_stringText (s : String) : Spells s (stringText s.toList) := by
  have hglyphs (text : List Char) : ∃ glyphs : List Glyph,
      glyphs.flatMap Glyph.text = text.flatMap escapeChar ∧ Glyph.decode? glyphs = some text := by
    induction text with
    | nil => exact ⟨[], rfl, rfl⟩
    | cons c text ih =>
      obtain ⟨glyphs, htext, hdecode⟩ := ih
      obtain ⟨glyph, hglyph, hcons⟩ := Glyph.exists_text_eq_escapeChar c
      exact ⟨glyph :: glyphs, by rw [List.flatMap_cons, List.flatMap_cons, hglyph, htext],
        by rw [hcons, hdecode]; rfl⟩
  obtain ⟨glyphs, htext, hdecode⟩ := hglyphs s.toList
  exact ⟨glyphs, by rw [Glyph.quoted, htext]; rfl, hdecode⟩

theorem Spells.isString {s : String} {text : List Char} (h : Spells s text) : IsString text :=
  let ⟨glyphs, htext, _⟩ := h
  ⟨glyphs, htext⟩

namespace Reader

/-! ### Escapes -/

section Escapes

variable {digits digits' : List Char} {lead trail : Nat}

theorem takes_hexEscape (hlength : digits.length = 4) (hvalue : hexValue? digits = some lead)
    (rest : List Char) : Takes hexEscape digits rest lead := by
  intro place
  rw [hexEscape, on_bind_of_ok (on_get _)]
  simp only [List.take_append_of_le_length (Nat.le_of_eq hlength.symm), hlength, beq_self_eq_true,
    List.take_of_length_le (Nat.le_of_eq hlength), hvalue]
  rw [on_bind_of_ok (on_set ..), on_pure]
  simp [← hlength, Place.over]

theorem takes_shortEscape {letter c : Char} (hletter : letter ≠ 'u')
    (hc : shortEscape? letter = some c) (rest : List Char) : Takes escape [letter] rest c := by
  refine (takes_peek ([letter] ++ rest)).bind_of_nil ?_
  simp only [List.cons_append, List.head?_cons, hc]
  exact takes_advance_bind (takes_pure c rest) letter

theorem takes_escapePart (part : Char) (rest : List Char) :
    Takes (escapePart part) [part] rest () := by
  refine (takes_peek _).bind_of_nil ?_
  simp only [List.cons_append, List.head?_cons, ↓reduceIte]
  exact takes_advance part rest

theorem fails_escapePart {part : Char} {text : List Char} (h : text.head? ≠ some part) :
    Fails (escapePart part) text := by
  refine (takes_peek text).bind_fails_of_nil ?_
  cases hhead : text.head? with
  | none => exact fails_failHere _ _
  | some c =>
    simp only
    rw [if_neg fun hc : c = part => h (hc ▸ hhead)]
    exact fails_failNext _ _

/-- An escape with digits is read by the reader of numbers. -/
theorem takes_escape_number {text rest : List Char} {c : Char} (h : Takes numberEscape text rest c) :
    Takes escape ('u' :: text) rest c :=
  (takes_peek _).bind_of_nil (takes_advance_bind h 'u')

theorem fails_escape_number {text : List Char} (h : Fails numberEscape text) :
    Fails escape ('u' :: text) :=
  (takes_peek _).bind_fails_of_nil ((takes_advance 'u' text).bind_fails h)

theorem takes_numberEscape_single (hlength : digits.length = 4)
    (hvalue : hexValue? digits = some lead) (htrail : ¬ (0xDC00 ≤ lead ∧ lead ≤ 0xDFFF))
    (hlead : lead < 0xD800 ∨ 0xDBFF < lead) (rest : List Char) :
    Takes numberEscape digits rest (Char.ofNat lead) := by
  refine (takes_hexEscape hlength hvalue rest).bind_nil ?_
  rw [if_neg htrail, if_pos hlead]
  exact takes_pure _ rest

theorem fails_numberEscape_trail (hlength : digits.length = 4)
    (hvalue : hexValue? digits = some lead) (htrail : 0xDC00 ≤ lead ∧ lead ≤ 0xDFFF)
    (rest : List Char) : Fails numberEscape (digits ++ rest) := by
  refine (takes_hexEscape hlength hvalue rest).bind_fails ?_
  rw [if_pos htrail]
  exact fails_failHere _ _

/-- Behind the first number of a pair the second one is read. -/
theorem takes_numberEscape_pair (hlength : digits.length = 4)
    (hvalue : hexValue? digits = some lead) (htrail : ¬ (0xDC00 ≤ lead ∧ lead ≤ 0xDFFF))
    (hlead : ¬ (lead < 0xD800 ∨ 0xDBFF < lead)) (hlength' : digits'.length = 4)
    (hvalue' : hexValue? digits' = some trail) (hpair : ¬ (trail < 0xDC00 ∨ 0xDFFF < trail))
    (rest : List Char) :
    Takes numberEscape (digits ++ '\\' :: 'u' :: digits') rest
      (Char.ofNat (pairValue lead trail)) := by
  refine (takes_hexEscape hlength hvalue _).bind ?_
  rw [if_neg htrail, if_neg hlead]
  refine (takes_escapePart '\\' _).bind ((takes_escapePart 'u' _).bind ?_)
  refine (takes_hexEscape hlength' hvalue' rest).bind_nil ?_
  rw [if_neg hpair]
  exact takes_pure _ rest

/-- Behind the first number of a pair there has to be a second one. -/
theorem fails_numberEscape_lead (hlength : digits.length = 4)
    (hvalue : hexValue? digits = some lead) (htrail : ¬ (0xDC00 ≤ lead ∧ lead ≤ 0xDFFF))
    (hlead : ¬ (lead < 0xD800 ∨ 0xDBFF < lead)) {rest : List Char}
    (hrest : rest.head? = some '\\' → rest.tail.head? ≠ some 'u') :
    Fails numberEscape (digits ++ rest) := by
  refine (takes_hexEscape hlength hvalue rest).bind_fails ?_
  rw [if_neg htrail, if_neg hlead]
  by_cases hslash : rest.head? = some '\\'
  · obtain ⟨tail, rfl⟩ := List.head?_eq_some_iff.mp hslash
    exact (takes_escapePart '\\' tail).bind_fails ((fails_escapePart (hrest rfl)).bind _)
  · exact (fails_escapePart hslash).bind _

/-- The second number of a pair has to be one. -/
theorem fails_numberEscape_pair (hlength : digits.length = 4)
    (hvalue : hexValue? digits = some lead) (htrail : ¬ (0xDC00 ≤ lead ∧ lead ≤ 0xDFFF))
    (hlead : ¬ (lead < 0xD800 ∨ 0xDBFF < lead)) (hlength' : digits'.length = 4)
    (hvalue' : hexValue? digits' = some trail) (hpair : trail < 0xDC00 ∨ 0xDFFF < trail)
    (rest : List Char) : Fails numberEscape (digits ++ '\\' :: 'u' :: (digits' ++ rest)) := by
  refine (takes_hexEscape hlength hvalue _).bind_fails ?_
  rw [if_neg htrail, if_neg hlead]
  refine (takes_escapePart '\\' _).bind_fails ((takes_escapePart 'u' _).bind_fails ?_)
  refine (takes_hexEscape hlength' hvalue' rest).bind_fails ?_
  rw [if_pos hpair]
  exact fails_failHere _ _

end Escapes

/-! ### Strings -/

/-- Behind a plain character the reading of a string goes on as if it had begun there. -/
theorem on_stringEnd_of_isPlain {c : Char} (hc : isPlain c = true) (n : Nat)
    (reversed rest : List Char) (place : Place) :
    (stringEnd (n + 1) reversed).on ⟨c :: rest, place⟩ =
      (stringEnd (n + 1) (c :: reversed)).on ⟨rest, place.after c⟩ := by
  simp only [stringEnd, run, bind_assoc, pure_bind]
  rw [on_bind_of_ok (on_get _), on_bind_of_ok (on_set ..), on_bind_of_ok (on_get _),
    on_bind_of_ok (on_set ..)]
  simp [Input.skipWhile, hc]

/-- An escape takes a round of the reading of a string. -/
theorem takes_stringEnd_escape {escaped text rest read : List Char} {c : Char} {n : Nat}
    {reversed : List Char} (hescape : Takes escape escaped (text ++ rest) c)
    (h : Takes (stringEnd n (c :: reversed)) text rest read) :
    Takes (stringEnd (n + 1) reversed) ('\\' :: (escaped ++ text)) rest read := by
  refine (takes_run_nil (by simp [isPlain])).bind_of_nil ?_
  exact (takes_peek _).bind_of_nil (takes_advance_bind (hescape.bind h) '\\')

theorem fails_stringEnd_escape {escaped text : List Char} {c : Char} {n : Nat}
    {reversed : List Char} (hescape : Takes escape escaped text c)
    (h : Fails (stringEnd n (c :: reversed)) text) :
    Fails (stringEnd (n + 1) reversed) ('\\' :: (escaped ++ text)) := by
  refine (takes_run_nil (by simp [isPlain])).bind_fails_of_nil ?_
  exact (takes_peek _).bind_fails_of_nil
    ((takes_advance '\\' _).bind_fails (hescape.bind_fails h))

theorem fails_stringEnd_of_escape {text : List Char} (hescape : Fails escape text) (n : Nat)
    (reversed : List Char) : Fails (stringEnd (n + 1) reversed) ('\\' :: text) := by
  refine (takes_run_nil (by simp [isPlain])).bind_fails_of_nil ?_
  exact (takes_peek _).bind_fails_of_nil ((takes_advance '\\' _).bind_fails (hescape.bind _))

/-- What comes of the parts of a string: the text that they spell is read, or the reading fails. -/
def StringOutcome (n : Nat) (reversed : List Char) (glyphs : List Glyph) : Option (List Char) → Prop
  | some s => ∀ rest, Takes (stringEnd n reversed) (glyphs.flatMap Glyph.text ++ ['"']) rest
      (reversed.reverse ++ s)
  | none => ∀ rest, Fails (stringEnd n reversed) (glyphs.flatMap Glyph.text ++ '"' :: rest)

/-- A part that is read as a character leaves the outcome to the parts behind it. -/
theorem StringOutcome.cons (first : List Glyph) {n : Nat} {reversed escaped : List Char} {c : Char}
    {glyphs : List Glyph} {read : Option (List Char)}
    (htext : first.flatMap Glyph.text = '\\' :: escaped)
    (hescape : ∀ rest, Takes escape escaped rest c)
    (h : StringOutcome n (c :: reversed) glyphs read) :
    StringOutcome (n + 1) reversed (first ++ glyphs) (read.map (c :: ·)) := by
  cases read with
  | none =>
    intro rest
    rw [List.flatMap_append, htext, List.append_assoc]
    exact fails_stringEnd_escape (hescape _) (h rest)
  | some s =>
    intro rest
    have htail := h rest
    rw [List.reverse_cons, List.append_assoc] at htail
    rw [List.flatMap_append, htext, List.append_assoc]
    exact takes_stringEnd_escape (hescape _) htail

/-- A character that stands for itself leaves the outcome to the parts behind it. -/
theorem StringOutcome.plain {n : Nat} {reversed : List Char} {c : Char} (hc : isPlain c = true)
    {glyphs : List Glyph} {read : Option (List Char)}
    (h : StringOutcome (n + 1) (c :: reversed) glyphs read) :
    StringOutcome (n + 1) reversed (.plain c hc :: glyphs) (read.map (c :: ·)) := by
  cases read with
  | none =>
    intro rest place
    rw [List.flatMap_cons, Glyph.text]
    simp only [List.cons_append, List.nil_append]
    rw [on_stringEnd_of_isPlain hc]
    exact h rest (place.after c)
  | some s =>
    intro rest place
    rw [List.flatMap_cons, Glyph.text]
    simp only [List.cons_append, List.nil_append]
    rw [on_stringEnd_of_isPlain hc, h rest (place.after c)]
    simp

theorem ne_u_of_shortEscape? {letter c : Char} (h : shortEscape? letter = some c) :
    letter ≠ 'u' := by
  rintro rfl
  cases h

/-- A string is read as what its parts spell, if they spell anything. Each part but a plain one takes
    a round. -/
theorem stringOutcome (glyphs : List Glyph) (n : Nat) (hn : glyphs.length < n)
    (reversed : List Char) : StringOutcome n reversed glyphs (Glyph.decode? glyphs) := by
  obtain ⟨n, rfl⟩ : ∃ m, n = m + 1 := ⟨n - 1, by omega⟩
  fun_induction Glyph.decode? glyphs generalizing n reversed with
  | case1 =>
    intro rest
    refine (takes_run_nil (by simp [isPlain])).bind_of_nil ?_
    refine (takes_peek _).bind_of_nil (takes_advance_bind ?_ '"')
    simpa using takes_pure reversed.reverse rest
  | case2 c hc rest ih => exact .plain hc (ih _ n (by simp at hn; omega))
  | case3 letter c hc rest ih =>
    obtain ⟨n, rfl⟩ : ∃ m, n = m + 1 := ⟨n - 1, by simp at hn; omega⟩
    exact .cons [.short letter c hc] rfl (takes_shortEscape (ne_u_of_shortEscape? hc) hc)
      (ih _ n (by simp at hn; omega))
  | case4 digits lead hlength hvalue rest htrail =>
    intro more
    rw [List.flatMap_cons, Glyph.text, List.append_assoc]
    exact fails_stringEnd_of_escape
      (fails_escape_number (fails_numberEscape_trail hlength hvalue htrail _)) n reversed
  | case5 digits lead hlength hvalue rest htrail hlead ih =>
    obtain ⟨n, rfl⟩ : ∃ m, n = m + 1 := ⟨n - 1, by simp at hn; omega⟩
    have hescape (rest : List Char) :=
      takes_escape_number (takes_numberEscape_single hlength hvalue htrail hlead rest)
    exact .cons [.number digits lead hlength hvalue] (List.append_nil _) hescape
      (ih _ n (by simp at hn; omega))
  | case6 digits lead hlength hvalue htrail hlead digits' trail hlength' hvalue' rest hpair =>
    intro more
    rw [List.flatMap_cons, List.flatMap_cons, Glyph.text, Glyph.text, List.append_assoc,
      List.append_assoc]
    exact fails_stringEnd_of_escape (fails_escape_number
      (fails_numberEscape_pair hlength hvalue htrail hlead hlength' hvalue' hpair _)) n reversed
  | case7 digits lead hlength hvalue htrail hlead digits' trail hlength' hvalue' rest hpair ih =>
    obtain ⟨n, rfl⟩ : ∃ m, n = m + 1 := ⟨n - 1, by simp at hn; omega⟩
    have hescape (rest : List Char) := takes_escape_number
      (takes_numberEscape_pair hlength hvalue htrail hlead hlength' hvalue' hpair rest)
    refine .cons [.number digits lead hlength hvalue, .number digits' trail hlength' hvalue'] ?_
      hescape (ih _ n (by simp at hn; omega))
    simp [Glyph.text]
  | case8 digits lead hlength hvalue rest htrail hlead hother =>
    intro more
    rw [List.flatMap_cons, Glyph.text, List.append_assoc]
    refine fails_stringEnd_of_escape (fails_escape_number
      (fails_numberEscape_lead hlength hvalue htrail hlead ?_)) n reversed
    cases rest with
    | nil => simp
    | cons next rest =>
      cases next with
      | plain c hc =>
        have hslash : c ≠ '\\' := by
          rintro rfl
          cases hc
        simp [Glyph.text, hslash]
      | short letter c hc => simp [Glyph.text, ne_u_of_shortEscape? hc]
      | number digits' trail hlength' hvalue' =>
        exact absurd rfl (hother digits' trail hlength' hvalue' rest)

theorem length_le_flatMap_text (glyphs : List Glyph) :
    glyphs.length ≤ (glyphs.flatMap Glyph.text).length := by
  induction glyphs with
  | nil => exact Nat.le_refl _
  | cons first rest ih =>
    have hfirst : 1 ≤ first.text.length := by cases first <;> simp [Glyph.text]
    rw [List.flatMap_cons, List.length_append, List.length_cons]
    omega

/-- A string is read as the text that it spells. -/
theorem takes_stringBody_of_spells {s : String} {text : List Char} (h : Spells s text)
    (rest : List Char) : Takes stringBody text rest s.toList := by
  obtain ⟨glyphs, rfl, hdecode⟩ := h
  have hlength := length_le_flatMap_text glyphs
  refine takes_advance_bind (takes_get (f := fun left => stringEnd (left.length + 1) []) ?_) '"'
  have houtcome := stringOutcome glyphs
    ((glyphs.flatMap Glyph.text ++ ['"'] ++ rest).length + 1)
    (by simp only [List.length_append]; omega) []
  rw [hdecode] at houtcome
  exact houtcome rest

/-- A string that spells nothing is not read. -/
theorem fails_stringBody {text : List Char} (h : IsString text) (hnot : ∀ s, ¬ Spells s text)
    (rest : List Char) : Fails stringBody (text ++ rest) := by
  obtain ⟨glyphs, rfl⟩ := h
  have hlength := length_le_flatMap_text glyphs
  have hdecode : Glyph.decode? glyphs = none := by
    cases hdecode : Glyph.decode? glyphs with
    | none => rfl
    | some read =>
      exact absurd ⟨glyphs, rfl, by rw [hdecode, String.toList_ofList]⟩ (hnot (String.ofList read))
  have houtcome := stringOutcome glyphs
    ((glyphs.flatMap Glyph.text ++ '"' :: rest).length + 1)
    (by simp only [List.length_append]; omega) []
  rw [hdecode] at houtcome
  rw [Glyph.quoted, List.cons_append, List.append_assoc]
  exact (takes_advance '"' _).bind_fails
    (fails_get (f := fun left => stringEnd (left.length + 1) []) (houtcome rest))

theorem begins_of_isString {text : List Char} (h : IsString text) : Begins text := by
  obtain ⟨glyphs, rfl⟩ := h
  exact ⟨'"', _, rfl, by decide, by decide⟩

/-- A string is read as what it spells, whatever it is said to be. -/
theorem reads_textAs_of_spells {s : String} {text : List Char} (h : Spells s text)
    (expected : String) : Reads (textAs expected) text s := by
  refine ⟨begins_of_isString h.isString, fun gap rest hgap _ => ?_⟩
  have hread := (takes_stringBody_of_spells h rest).map String.ofList
  rw [String.ofList_toList] at hread
  obtain ⟨glyphs, rfl, -⟩ := h
  exact takes_expecting hgap (by decide) rfl hread

/-- A string is read as what it spells where a text is wanted. -/
theorem reads_text_of_spells {s : String} {text : List Char} (h : Spells s text) :
    Reads Reader.text text s := reads_textAs_of_spells h "a string"

/-- A written string is read as its text. -/
theorem reads_text (s : String) : Reads Reader.text (stringText s.toList) s :=
  reads_text_of_spells (spells_stringText s)

/-- A string that spells nothing is refused. -/
theorem refuses_textAs_of_not_spells {text : List Char} (h : IsString text)
    (hnot : ∀ s, ¬ Spells s text) (expected : String) : Refuses (textAs expected) text := by
  intro gap rest hgap
  have hfails := fails_stringBody h hnot rest
  obtain ⟨glyphs, rfl⟩ := h
  exact fails_expecting hgap (by decide) fun reader hreader =>
    Option.some.inj hreader ▸ hfails.map String.ofList

/-- Where a text is wanted a string is read or refused. -/
theorem decides_text_of_isString {text : List Char} (h : IsString text) :
    Decides Reader.text text := by
  by_cases hspells : ∃ s, Spells s text
  · obtain ⟨s, hs⟩ := hspells
    exact .inl ⟨s, reads_text_of_spells hs⟩
  · exact .inr (refuses_textAs_of_not_spells h (not_exists.mp hspells) "a string")

/-! ### Strings that are passed over -/

theorem takes_skipEscape_short {letter c : Char} (h : shortEscape? letter = some c)
    (rest : List Char) : Takes skipEscape [letter] rest () := by
  have hne := ne_u_of_shortEscape? h
  refine (takes_peek _).bind_of_nil ?_
  simp only [List.cons_append, List.head?_cons, h, Option.isSome_some, if_true]
  exact takes_advance letter rest

theorem takes_skipEscape_number {digits : List Char} {value : Nat} (hlength : digits.length = 4)
    (hvalue : hexValue? digits = some value) (rest : List Char) :
    Takes skipEscape ('u' :: digits) rest () := by
  refine (takes_peek _).bind_of_nil (takes_advance_bind ?_ 'u')
  exact (takes_hexEscape hlength hvalue rest).bind_nil (takes_pure () rest)

theorem on_skipStringEnd_of_isPlain {c : Char} (hc : isPlain c = true) (n : Nat) (rest : List Char)
    (place : Place) : (skipStringEnd (n + 1)).on ⟨c :: rest, place⟩ =
      (skipStringEnd (n + 1)).on ⟨rest, place.after c⟩ := by
  simp only [skipStringEnd, run, bind_assoc, pure_bind]
  rw [on_bind_of_ok (on_get _), on_bind_of_ok (on_set ..), on_bind_of_ok (on_get _),
    on_bind_of_ok (on_set ..)]
  simp [Input.skipWhile, hc]

theorem takes_skipStringEnd_escape {escaped text rest : List Char} {n : Nat}
    (hescape : Takes skipEscape escaped (text ++ rest) ())
    (h : Takes (skipStringEnd n) text rest ()) :
    Takes (skipStringEnd (n + 1)) ('\\' :: (escaped ++ text)) rest () := by
  refine (takes_run_nil (by simp [isPlain])).bind_of_nil ?_
  exact (takes_peek _).bind_of_nil (takes_advance_bind (hescape.bind h) '\\')

/-- The parts of a string are passed over up to its closing quotation mark, whatever they spell. -/
theorem takes_skipStringEnd (glyphs : List Glyph) (rest : List Char) (n : Nat)
    (hn : glyphs.length < n) :
    Takes (skipStringEnd n) (glyphs.flatMap Glyph.text ++ ['"']) rest () := by
  obtain ⟨n, rfl⟩ : ∃ m, n = m + 1 := ⟨n - 1, by omega⟩
  induction glyphs generalizing n with
  | nil =>
    refine (takes_run_nil (by simp [isPlain])).bind_of_nil ?_
    exact (takes_peek _).bind_of_nil (takes_advance '"' rest)
  | cons first glyphs ih =>
    cases first with
    | plain c hc =>
      intro place
      rw [List.flatMap_cons, Glyph.text]
      simp only [List.cons_append, List.nil_append]
      rw [on_skipStringEnd_of_isPlain hc, ih n (by simp at hn; omega) (place.after c)]
      simp
    | short letter c hc =>
      obtain ⟨n, rfl⟩ : ∃ m, n = m + 1 := ⟨n - 1, by simp at hn; omega⟩
      rw [List.flatMap_cons, Glyph.text, List.append_assoc]
      exact takes_skipStringEnd_escape (takes_skipEscape_short hc _) (ih n (by simp at hn; omega))
    | number digits value hlength hvalue =>
      obtain ⟨n, rfl⟩ : ∃ m, n = m + 1 := ⟨n - 1, by simp at hn; omega⟩
      rw [List.flatMap_cons, Glyph.text, List.append_assoc]
      exact takes_skipStringEnd_escape (takes_skipEscape_number hlength hvalue _)
        (ih n (by simp at hn; omega))

theorem takes_skipString {text : List Char} (h : IsString text) (rest : List Char) :
    Takes skipString text rest () := by
  obtain ⟨glyphs, rfl⟩ := h
  have hlength := length_le_flatMap_text glyphs
  refine takes_advance_bind (takes_get (f := fun left => skipStringEnd (left.length + 1)) ?_) '"'
  exact takes_skipStringEnd glyphs rest _ (by simp only [List.length_append]; omega)

end Reader

/-- A string spells one text only. -/
theorem Spells.unique {s t : String} {text : List Char} (hs : Spells s text) (ht : Spells t text) :
    s = t := by
  have hread := Reader.takes_stringBody_of_spells hs [] ⟨1, 0⟩
  rw [Reader.takes_stringBody_of_spells ht [] ⟨1, 0⟩] at hread
  simp only [Prod.mk.injEq, Except.ok.injEq, and_true] at hread
  exact (String.toList_injective hread).symm

end SourceSurvey.Json
