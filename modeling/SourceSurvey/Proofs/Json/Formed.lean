import SourceSurvey.Proofs.Json.Enumeration
import SourceSurvey.Proofs.Json.Spelling

/-!
Well-formed texts: values of any kind, in any layout and nested to any depth. Each of them is passed
over as a whole where nobody asks for it.
-/

namespace SourceSurvey.Json

/-! ### Numbers -/

/-- A text of digits, of which there is at least one. -/
structure IsDigits (text : List Char) : Prop where
  ne_nil : text ≠ []
  all : text.all Char.isDigit = true

/-- A number without sign, point and exponent: zero, or digits that do not begin with one. -/
inductive IsWhole : List Char → Prop
  | zero : IsWhole ['0']
  | digits {text : List Char} (h : IsDigits text) (hzero : text.head? ≠ some '0') : IsWhole text

theorem IsWhole.exists_cons {text : List Char} (h : IsWhole text) :
    ∃ c rest, text = c :: rest ∧ c.isDigit = true := by
  cases h with
  | zero => exact ⟨'0', [], rfl, rfl⟩
  | digits h _ =>
    obtain ⟨c, rest, rfl⟩ := List.exists_cons_of_ne_nil h.ne_nil
    exact ⟨c, rest, rfl, (Bool.and_eq_true_iff.mp h.all).1⟩

/-- The part of a number behind its point. -/
inductive IsFraction : List Char → Prop
  | none : IsFraction []
  | digits {text : List Char} (h : IsDigits text) : IsFraction ('.' :: text)

/-- The exponent of a number. -/
inductive IsExponent : List Char → Prop
  | none : IsExponent []
  | digits {text : List Char} (mark : Char) (hmark : mark = 'e' ∨ mark = 'E') (sign : List Char)
      (hsign : sign = [] ∨ sign = ['+'] ∨ sign = ['-']) (h : IsDigits text) :
      IsExponent (mark :: (sign ++ text))

/-- A number. -/
inductive IsNumber : List Char → Prop
  | parts {sign whole fraction exponent : List Char} (hsign : sign = [] ∨ sign = ['-'])
      (hwhole : IsWhole whole) (hfraction : IsFraction fraction) (hexponent : IsExponent exponent) :
      IsNumber (sign ++ (whole ++ (fraction ++ exponent)))

/-- Nothing that goes on with a number follows a value. -/
theorem Ends.not_any {rest : List Char} (h : Ends rest) {class? : Char → Bool}
    (hspace : ∀ c, class? c = true → isSpace c = false) (hcomma : class? ',' = false)
    (hbracket : class? ']' = false) (hbrace : class? '\x7d' = false) : ¬ rest.head?.any class? := by
  cases rest with
  | nil => simp
  | cons c rest =>
    intro hany
    have hc : class? c = true := hany
    obtain h | rfl | rfl | rfl := h c rfl
    · rw [hspace c hc] at h
      cases h
    · cases hcomma.symm.trans hc
    · cases hbracket.symm.trans hc
    · cases hbrace.symm.trans hc

namespace Reader

theorem isSpace_of_isDigit (c : Char) (h : c.isDigit = true) : isSpace c = false := by
  by_contra hspace
  simp only [isSpace, Bool.not_eq_false, Bool.or_eq_true, beq_iff_eq] at hspace
  obtain ((rfl | rfl) | rfl) | rfl := hspace <;> cases h

theorem not_sign_of_isDigit {c : Char} (h : c.isDigit = true) : c ≠ '+' ∧ c ≠ '-' := by
  constructor
  all_goals
    rintro rfl
    cases h

theorem not_isDigit_of_ends {rest : List Char} (h : Ends rest) : ¬ rest.head?.any Char.isDigit :=
  h.not_any isSpace_of_isDigit rfl rfl rfl

theorem takes_someDigits {digits rest : List Char} (h : IsDigits digits)
    (hrest : ¬ rest.head?.any Char.isDigit) (ended : Problem) :
    Takes (someDigits ended) digits rest digits := by
  refine (takes_run h.all hrest).bind_nil ?_
  rw [if_neg (by simpa using h.ne_nil)]
  exact takes_pure digits rest

theorem takes_wholeDigits {whole rest : List Char} (h : IsWhole whole)
    (hrest : ¬ rest.head?.any Char.isDigit) (ended : Problem) :
    Takes (wholeDigits ended) whole rest whole := by
  cases h with
  | zero =>
    refine (takes_peek _).bind_of_nil (takes_advance_bind ?_ '0')
    refine (takes_peek rest).bind_of_nil ?_
    rw [if_neg hrest]
    exact takes_pure ['0'] rest
  | digits h hzero =>
    obtain ⟨c, text, rfl⟩ := List.exists_cons_of_ne_nil h.ne_nil
    refine (takes_peek _).bind_of_nil ?_
    have hc : c ≠ '0' := fun heq => hzero (congrArg some heq)
    simp only [List.cons_append, List.head?_cons]
    split
    · next heq => exact absurd (Option.some.inj heq) hc
    · exact takes_someDigits h hrest ended

theorem takes_fractionDigits_none {rest : List Char} (hpoint : rest.head? ≠ some '.')
    (ended : Problem) : Takes (fractionDigits ended) [] rest none := by
  refine (takes_peek rest).bind_of_nil ?_
  split
  · next heq => exact absurd heq hpoint
  · exact takes_pure none rest

theorem takes_fractionDigits {fraction rest : List Char} (h : IsFraction fraction)
    (hdigit : ¬ rest.head?.any Char.isDigit) (hpoint : rest.head? ≠ some '.') (ended : Problem) :
    ∃ digits, Takes (fractionDigits ended) fraction rest digits := by
  cases h with
  | none => exact ⟨none, takes_fractionDigits_none hpoint ended⟩
  | @digits text h =>
    refine ⟨some text, (takes_peek _).bind_of_nil (takes_advance_bind ?_ '.')⟩
    exact (takes_someDigits h hdigit ended).bind_nil (takes_pure (some text) rest)

theorem takes_exponentDigits_none {rest : List Char} (hrest : Ends rest) (ended : Problem) :
    Takes (exponentDigits ended) [] rest none := by
  refine (takes_peek rest).bind_of_nil ?_
  have hmark : ¬ rest.head?.any fun c => c == 'e' || c == 'E' := by
    refine hrest.not_any (fun c hc => ?_) rfl rfl rfl
    simp only [Bool.or_eq_true, beq_iff_eq] at hc
    obtain rfl | rfl := hc <;> rfl
  rw [if_neg hmark]
  exact takes_pure none rest

theorem takes_exponentDigits {exponent rest : List Char} (h : IsExponent exponent)
    (hrest : Ends rest) (ended : Problem) :
    ∃ digits, Takes (exponentDigits ended) exponent rest digits := by
  cases h with
  | none => exact ⟨none, takes_exponentDigits_none hrest ended⟩
  | @digits text mark hmark sign hsign h =>
    have hmark : (some mark).any (fun c => c == 'e' || c == 'E') = true := by
      obtain rfl | rfl := hmark <;> rfl
    have hdigits := takes_someDigits h (not_isDigit_of_ends hrest) ended
    obtain ⟨c, tail, rfl⟩ := List.exists_cons_of_ne_nil h.ne_nil
    obtain ⟨hplus, hminus⟩ := not_sign_of_isDigit (Bool.and_eq_true_iff.mp h.all).1
    have hbehind (negative : Bool) : Takes (do return some (negative, ← someDigits ended)) (c :: tail)
        rest (some (negative, c :: tail)) := hdigits.bind_nil (takes_pure _ rest)
    have hpast : ∃ found, Takes (do
        let sign ← peek
        if sign.any fun c => c == '+' || c == '-' then advance
        return some (sign == some '-', ← someDigits ended)) (sign ++ c :: tail) rest found := by
      obtain rfl | rfl | rfl := hsign
      · refine ⟨some (false, c :: tail), (takes_peek _).bind_of_nil ?_⟩
        simpa [beq_eq_false_iff_ne.mpr hplus, beq_eq_false_iff_ne.mpr hminus] using hbehind false
      · exact ⟨_, (takes_peek _).bind_of_nil (takes_advance_bind (hbehind _) '+')⟩
      · exact ⟨_, (takes_peek _).bind_of_nil (takes_advance_bind (hbehind _) '-')⟩
    obtain ⟨found, hfound⟩ := hpast
    refine ⟨found, (takes_peek _).bind_of_nil ?_⟩
    simp only [List.cons_append, List.head?_cons, hmark, if_true]
    exact takes_advance_bind hfound mark

theorem not_isDigit_of_parts {fraction exponent rest : List Char} (hfraction : IsFraction fraction)
    (hexponent : IsExponent exponent) (hrest : Ends rest) :
    ¬ (fraction ++ (exponent ++ rest)).head?.any Char.isDigit ∧
      ¬ (exponent ++ rest).head?.any Char.isDigit ∧ (exponent ++ rest).head? ≠ some '.' := by
  have hexponent : ¬ (exponent ++ rest).head?.any Char.isDigit ∧
      (exponent ++ rest).head? ≠ some '.' := by
    cases hexponent with
    | none =>
      refine ⟨not_isDigit_of_ends hrest, fun hpoint => ?_⟩
      obtain h | h | h | h := hrest '.' hpoint <;> cases h
    | digits mark hmark sign hsign h => obtain rfl | rfl := hmark <;> simp
  refine ⟨?_, hexponent⟩
  cases hfraction with
  | none => exact hexponent.1
  | digits h => simp

/-- A number is taken with its parts. -/
theorem takes_numeral {sign whole fraction exponent rest : List Char}
    {digits : Option (List Char)} {power : Option (Bool × List Char)} {ended : Problem}
    (hsign : sign = [] ∨ sign = ['-']) (hwhole : IsWhole whole)
    (hnext : ¬ (fraction ++ (exponent ++ rest)).head?.any Char.isDigit)
    (hdigits : Takes (fractionDigits ended) fraction (exponent ++ rest) digits)
    (hpower : Takes (exponentDigits ended) exponent rest power) :
    Takes (Reader.numeral ended) (sign ++ (whole ++ (fraction ++ exponent))) rest
      ⟨!sign.isEmpty, whole, digits, power⟩ := by
  have hparts (negative : Bool) : Takes (do
      let whole ← wholeDigits ended
      let fraction ← fractionDigits ended
      return Numeral.mk negative whole fraction (← exponentDigits ended))
      (whole ++ (fraction ++ exponent)) rest ⟨negative, whole, digits, power⟩ := by
    refine (takes_wholeDigits hwhole ?_ ended).bind
      (hdigits.bind (hpower.bind_nil (takes_pure _ rest)))
    rw [List.append_assoc]
    exact hnext
  obtain rfl | rfl := hsign
  · obtain ⟨c, tail, rfl, hc⟩ := hwhole.exists_cons
    refine (takes_peek _).bind_of_nil ?_
    simpa [beq_eq_false_iff_ne.mpr (not_sign_of_isDigit hc).2] using hparts false
  · exact (takes_peek _).bind_of_nil (takes_advance_bind (hparts _) '-')

/-- A number is taken as a whole. -/
theorem exists_takes_numeral {text rest : List Char} (h : IsNumber text) (hrest : Ends rest)
    (ended : Problem) : ∃ numeral, Takes (Reader.numeral ended) text rest numeral := by
  cases h with
  | @parts sign whole fraction exponent hsign hwhole hfraction hexponent =>
    obtain ⟨hbehindWhole, hbehind, hpoint⟩ := not_isDigit_of_parts hfraction hexponent hrest
    obtain ⟨digits, hdigits⟩ := takes_fractionDigits hfraction hbehind hpoint ended
    obtain ⟨power, hpower⟩ := takes_exponentDigits hexponent hrest ended
    exact ⟨_, takes_numeral hsign hwhole hbehindWhole hdigits hpower⟩

end Reader

/-! ### Values of any kind -/

/-- A member of an object as it is written: its name, the separators beside its colon, and its
    value. -/
structure Pair where
  name : List Char
  before : List Char
  after : List Char
  value : List Char

namespace Pair

/-- The text of a member. -/
def text (p : Pair) : List Char := p.name ++ (p.before ++ ':' :: (p.after ++ p.value))

/-- The name is a string, and nothing but separators stands beside the colon. -/
structure Sound (p : Pair) : Prop where
  isString : IsString p.name
  before : Reader.Blank p.before
  after : Reader.Blank p.after

theorem Sound.exists_cons {p : Pair} (h : p.Sound) : ∃ tail, p.name = '"' :: tail :=
  let ⟨_, hname⟩ := h.isString
  ⟨_, hname⟩

/-- A member begins with the quotation mark of its name. -/
theorem Sound.exists_text_append_eq {p : Pair} (h : p.Sound) (rest : List Char) :
    ∃ more, p.text ++ rest = '"' :: more := by
  obtain ⟨tail, hname⟩ := h.exists_cons
  exact ⟨_, by rw [text, hname]; rfl⟩

end Pair

/-- A text is a value of some kind. -/
inductive Formed : List Char → Prop
  | null : Formed ['n', 'u', 'l', 'l']
  | yes : Formed ['t', 'r', 'u', 'e']
  | no : Formed ['f', 'a', 'l', 's', 'e']
  | string {text : List Char} (h : IsString text) : Formed text
  | number {text : List Char} (h : IsNumber text) : Formed text
  | array {items : List (List Char)} {inside : List Char} (hitems : ∀ item ∈ items, Formed item)
      (hinside : Enumerated items inside) : Formed ('[' :: (inside ++ [']']))
  | object {pairs : List Pair} {inside : List Char} (hpairs : ∀ p ∈ pairs, p.Sound)
      (hvalues : ∀ p ∈ pairs, Formed p.value) (hinside : Enumerated (pairs.map Pair.text) inside) :
      Formed ('\x7b' :: (inside ++ ['\x7d']))

theorem IsNumber.exists_cons {text : List Char} (h : IsNumber text) :
    ∃ c rest, text = c :: rest ∧ (c = '-' ∨ c.isDigit = true) := by
  cases h with
  | parts hsign hwhole _ _ =>
    obtain ⟨c, rest, rfl, hc⟩ := hwhole.exists_cons
    obtain rfl | rfl := hsign
    · exact ⟨c, _, rfl, .inr hc⟩
    · exact ⟨'-', _, rfl, .inl rfl⟩

/-- No character begins two kinds of values. -/
theorem not_bracket_of_number {c : Char} (h : c = '-' ∨ c.isDigit = true) :
    isSpace c = false ∧ c ∉ ['n', 't', 'f', '"', '[', '\x7b', ']', '\x7d'] := by
  obtain rfl | hdigit := h
  · decide
  · refine ⟨Reader.isSpace_of_isDigit c hdigit, fun hc => ?_⟩
    simp only [List.mem_cons, List.not_mem_nil, or_false] at hc
    obtain rfl | rfl | rfl | rfl | rfl | rfl | rfl | rfl := hc <;> cases hdigit

theorem Formed.begins {text : List Char} (h : Formed text) : Reader.Begins text := by
  cases h with
  | string h => exact Reader.begins_of_isString h
  | number h =>
    obtain ⟨c, rest, rfl, hc⟩ := h.exists_cons
    obtain ⟨hspace, hbracket⟩ := not_bracket_of_number hc
    exact ⟨c, rest, rfl, hspace, fun heq => hbracket (by simp [heq])⟩
  | _ => exact ⟨_, _, rfl, by decide, by decide⟩

namespace Reader

/-- The text is passed over as a value, given enough steps. -/
def Skipped (text : List Char) : Prop :=
  ∀ n gap rest, 2 * text.length ≤ n → Blank gap → Ends rest → Takes (skip n) (gap ++ text) rest ()

/-- What leads to an element is passed over, up to separators that the element itself begins with. -/
theorem exists_goes_skipElements {behind : Bool} {gap : List Char} (hgap : Leads behind gap)
    (n : Nat) : ∃ first after, gap = first ++ after ∧ Blank after ∧ ∀ text, Begins text →
      Goes (skipElements (n + 1) behind) (do skip n; skipElements n true) first (after ++ text) := by
  cases behind with
  | false =>
    refine ⟨gap, [], by simp, blank_nil, fun text htext place => ?_⟩
    rw [skipElements, List.nil_append,
      on_bind_of_ok (takes_settle hgap htext.head_not_space place)]
    obtain ⟨c, tail, rfl, -, hclose⟩ := htext
    simp
  | true =>
    obtain ⟨before, after, hbefore, hafter, rfl⟩ := hgap
    refine ⟨before ++ [','], after, by simp, hafter, fun text _ place => ?_⟩
    have hsettle : Takes settle before (',' :: (after ++ text)) (some ',') :=
      takes_settle hbefore (by simp; decide)
    have hadvance := takes_advance ',' (after ++ text) (place.over before)
    rw [skipElements, List.append_assoc, List.singleton_append, on_bind_of_ok (hsettle place)]
    simpa [Place.over_append] using on_bind_of_ok hadvance _

/-- The elements of a list are passed over together with the closing bracket. -/
theorem takes_skipElements {behind : Bool} {items : List (List Char)} {inside : List Char}
    (hinside : Listed behind items inside) (hbegins : ∀ item ∈ items, Begins item)
    (hitems : ∀ item ∈ items, Skipped item) (n : Nat) (hn : 2 * inside.length < n)
    (rest : List Char) : Takes (skipElements n behind) (inside ++ [']']) rest () := by
  obtain ⟨n, rfl⟩ : ∃ m, n = m + 1 := ⟨n - 1, by omega⟩
  induction items generalizing behind n inside with
  | nil =>
    rw [skipElements]
    exact (takes_settle hinside.blank (by simp; decide)).bind (takes_advance ']' rest)
  | cons item items ih =>
    obtain ⟨gap, tail, rfl, hgap, htail⟩ := hinside.exists_next
    obtain ⟨first, after, rfl, hafter, hgoes⟩ := exists_goes_skipElements hgap n
    rw [List.forall_mem_cons] at hbegins hitems
    obtain ⟨c, more, hmore, -⟩ := hbegins.1
    simp only [List.length_append, hmore, List.length_cons] at hn
    obtain ⟨n, rfl⟩ : ∃ m, n = m + 1 := ⟨n - 1, by omega⟩
    have hitem := hitems.1 (n + 1) after (tail ++ [']'] ++ rest)
      (by rw [hmore, List.length_cons]; omega) hafter (htail.ends_append (.inl rfl) rest)
    have hboth := hitem.bind (f := fun _ => skipElements (n + 1) true)
      (ih htail hbegins.2 hitems.2 n (by omega))
    have hlead : Goes (skipElements (n + 1 + 1) behind) (do skip (n + 1); skipElements (n + 1) true)
        first (after ++ item ++ (tail ++ [']']) ++ rest) := by
      simpa using hgoes (item ++ (tail ++ ']' :: rest)) (hbegins.1.append _)
    simpa using hlead.takes hboth

/-- Passes over a member, and then over those behind it. -/
def skipPair (n : Nat) : Reader Unit := do
  match ← settle with
  | none => failNext .endInObject
  | some '"' => skipString
  | some _ => failNext .keyNotString
  match ← settle with
  | none => failNext .endInObject
  | some ':' => advance
  | some _ => failNext .expectedColon
  skip n
  skipMembers n true

theorem skipMembers_succ (n : Nat) (behind : Bool) : skipMembers (n + 1) behind = (do
    match ← settle with
    | none => failNext .endInObject
    | some '\x7d' => advance
    | some c =>
      if behind then
        if c = ',' then advance else failNext .expectedObjectCommaOrEnd
      skipPair n) := by
  rw [skipMembers]
  rfl

/-- What leads to a member is passed over, up to separators that the member itself begins with. -/
theorem exists_goes_skipMembers {behind : Bool} {gap : List Char} (hgap : Leads behind gap)
    (n : Nat) : ∃ first after, gap = first ++ after ∧ Blank after ∧ ∀ text,
      Goes (skipMembers (n + 1) behind) (skipPair n) first (after ++ '"' :: text) := by
  cases behind with
  | false =>
    refine ⟨gap, [], by simp, blank_nil, fun text place => ?_⟩
    have hsettle : Takes settle gap ('"' :: text) (some '"') := takes_settle hgap (by simp; decide)
    rw [skipMembers_succ, List.nil_append, on_bind_of_ok (hsettle place)]
    simp
  | true =>
    obtain ⟨before, after, hbefore, hafter, rfl⟩ := hgap
    refine ⟨before ++ [','], after, by simp, hafter, fun text place => ?_⟩
    have hsettle : Takes settle before (',' :: (after ++ '"' :: text)) (some ',') :=
      takes_settle hbefore (by simp; decide)
    have hadvance := takes_advance ',' (after ++ '"' :: text) (place.over before)
    rw [skipMembers_succ, List.append_assoc, List.singleton_append, on_bind_of_ok (hsettle place)]
    simpa [Place.over_append] using on_bind_of_ok hadvance _

theorem takes_skipPair {p : Pair} (hp : p.Sound) (hvalue : Skipped p.value) {n : Nat}
    (hn : 2 * p.value.length ≤ n) {gap text rest : List Char} (hgap : Blank gap)
    (hends : Ends (text ++ rest)) (htail : Takes (skipMembers n true) text rest ()) :
    Takes (skipPair n) (gap ++ (p.text ++ text)) rest () := by
  have hskip := (hvalue n p.after (text ++ rest) hn hp.after hends).bind
    (f := fun _ => skipMembers n true) htail
  have hcolon : Takes (do
      match ← settle with
      | none => failNext .endInObject
      | some ':' => advance
      | some _ => failNext .expectedColon
      skip n
      skipMembers n true) (p.before ++ ':' :: (p.after ++ p.value ++ text)) rest () :=
    (takes_settle hp.before (by simp; decide)).bind (takes_advance_bind hskip ':')
  have htext : p.text ++ text = p.name ++ (p.before ++ ':' :: (p.after ++ p.value ++ text)) := by
    simp [Pair.text]
  obtain ⟨tail, htail⟩ := hp.exists_cons
  have hquote : (p.name ++ (p.before ++ ':' :: (p.after ++ p.value ++ text)) ++ rest).head? =
      some '"' := by simp [htail]
  rw [htext]
  refine (takes_settle hgap (by rw [hquote]; decide)).bind ?_
  rw [hquote]
  exact (takes_skipString hp.isString _).bind hcolon

/-- The members of an object are passed over together with the closing brace. -/
theorem takes_skipMembers {behind : Bool} {pairs : List Pair} {inside : List Char}
    (hinside : Listed behind (pairs.map Pair.text) inside) (hpairs : ∀ p ∈ pairs, p.Sound)
    (hvalues : ∀ p ∈ pairs, Skipped p.value) (n : Nat) (hn : 2 * inside.length < n)
    (rest : List Char) : Takes (skipMembers n behind) (inside ++ ['\x7d']) rest () := by
  obtain ⟨n, rfl⟩ : ∃ m, n = m + 1 := ⟨n - 1, by omega⟩
  induction pairs generalizing behind n inside with
  | nil =>
    rw [skipMembers_succ]
    exact (takes_settle hinside.blank (by simp; decide)).bind (takes_advance '\x7d' rest)
  | cons p pairs ih =>
    obtain ⟨gap, tail, rfl, hgap, htail⟩ := hinside.exists_next
    obtain ⟨first, after, rfl, hafter, hgoes⟩ := exists_goes_skipMembers hgap n
    simp only [List.length_append, Pair.text, List.length_cons] at hn
    obtain ⟨n, rfl⟩ : ∃ m, n = m + 1 := ⟨n - 1, by omega⟩
    rw [List.forall_mem_cons] at hpairs hvalues
    have hpair := takes_skipPair hpairs.1 hvalues.1 (by omega) hafter
      (htail.ends_append (.inr rfl) rest) (ih htail hpairs.2 hvalues.2 n (by omega))
    obtain ⟨more, hmore⟩ := hpairs.1.exists_text_append_eq (tail ++ ['\x7d'] ++ rest)
    have hlead : Goes (skipMembers (n + 1 + 1) behind) (skipPair (n + 1)) first
        (after ++ (p.text ++ (tail ++ ['\x7d'])) ++ rest) := by
      simpa [← hmore] using hgoes more
    simpa using hlead.takes hpair

/-- A value of any kind is passed over. -/
theorem skipped_of_formed {text : List Char} (h : Formed text) : Skipped text := by
  induction h with
  | null =>
    intro n gap rest hn hgap _
    obtain ⟨n, rfl⟩ : ∃ m, n = m + 1 := ⟨n - 1, by simp at hn; omega⟩
    rw [skip]
    refine (takes_settle hgap (by simp; decide)).bind (takes_advance_bind ?_ 'n')
    exact fun _ => rfl
  | yes =>
    intro n gap rest hn hgap _
    obtain ⟨n, rfl⟩ : ∃ m, n = m + 1 := ⟨n - 1, by simp at hn; omega⟩
    rw [skip]
    refine (takes_settle hgap (by simp; decide)).bind (takes_advance_bind ?_ 't')
    exact fun _ => rfl
  | no =>
    intro n gap rest hn hgap _
    obtain ⟨n, rfl⟩ : ∃ m, n = m + 1 := ⟨n - 1, by simp at hn; omega⟩
    rw [skip]
    refine (takes_settle hgap (by simp; decide)).bind (takes_advance_bind ?_ 'f')
    exact fun _ => rfl
  | string h =>
    intro n gap rest hn hgap _
    have hstring := takes_skipString h rest
    obtain ⟨glyphs, rfl⟩ := h
    obtain ⟨n, rfl⟩ : ∃ m, n = m + 1 := ⟨n - 1, by simp [Glyph.quoted] at hn; omega⟩
    rw [skip]
    exact (takes_settle hgap (by simp [Glyph.quoted]; decide)).bind hstring
  | number h =>
    intro n gap rest hn hgap hends
    obtain ⟨numeral, hnumeral⟩ := exists_takes_numeral h hends .invalidNumber
    obtain ⟨c, tail, rfl, hc⟩ := h.exists_cons
    obtain ⟨hspace, hbracket⟩ := not_bracket_of_number hc
    obtain ⟨n, rfl⟩ : ∃ m, n = m + 1 := ⟨n - 1, by simp at hn; omega⟩
    rw [skip]
    refine (takes_settle hgap (by simp [hspace])).bind ?_
    simp only [List.cons_append, List.head?_cons]
    split
    · next heq => cases heq
    -- the characters that begin something else
    iterate 6
      · next heq => exact absurd (by simp [Option.some.inj heq]) hbracket
    · next heq =>
      cases Option.some.inj heq
      rw [if_pos (by simpa using hc)]
      exact hnumeral.bind_nil (takes_pure () rest)
  | array hitems hinside ih =>
    intro n gap rest hn hgap hends
    obtain ⟨n, rfl⟩ : ∃ m, n = m + 1 := ⟨n - 1, by simp at hn; omega⟩
    simp only [List.length_cons, List.length_append, List.length_nil] at hn
    rw [skip]
    refine (takes_settle hgap (by simp; decide)).bind (takes_advance_bind ?_ '[')
    have hbegins : ∀ item ∈ _, Begins item := fun item hitem => (hitems item hitem).begins
    exact takes_skipElements hinside.listed hbegins ih n (by omega) rest
  | object hpairs _ hinside ih =>
    intro n gap rest hn hgap hends
    obtain ⟨n, rfl⟩ : ∃ m, n = m + 1 := ⟨n - 1, by simp at hn; omega⟩
    simp only [List.length_cons, List.length_append, List.length_nil] at hn
    rw [skip]
    refine (takes_settle hgap (by simp; decide)).bind (takes_advance_bind ?_ '\x7b')
    exact takes_skipMembers hinside.listed hpairs ih n (by omega) rest

theorem takes_skipValue {text gap rest : List Char} (h : Formed text) (hgap : Blank gap)
    (hends : Ends rest) : Takes skipValue (gap ++ text) rest () := by
  refine takes_get (f := fun left => skip (2 * left.length + 2)) ?_
  exact skipped_of_formed h _ gap rest (by simp only [List.length_append]; omega) hgap hends

end Reader

end SourceSurvey.Json
