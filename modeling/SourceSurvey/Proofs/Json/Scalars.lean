import Mathlib.Data.Nat.Digits.Defs
import SourceSurvey.Proofs.Json.Layouts

/-!
Truth values, natural numbers, strings and lists of them, each with the texts that write it. Their
readers read these texts and refuse every other value: one of another type, a number with a sign, a
point or an exponent, and one that no word holds.
-/

namespace SourceSurvey.Json

open Numeral Reader

variable {α β : Type}

/-- The reader reads what writes a value as this value, and refuses every other text that is a
    value of some kind. -/
structure ReadsExactly (reader : Reader α) (writes : α → List Char → Prop) : Prop where
  reads : ∀ a text, writes a text → Reads reader text a
  refuses : ∀ text, Formed text → (∀ a, ¬ writes a text) → Refuses reader text

theorem ReadsExactly.decides {reader : Reader α} {writes : α → List Char → Prop}
    (h : ReadsExactly reader writes) {text : List Char} (htext : Formed text) :
    Decides reader text := by
  by_cases hwrites : ∃ a, writes a text
  · obtain ⟨a, ha⟩ := hwrites
    exact .inl ⟨a, h.reads a text ha⟩
  · exact .inr (h.refuses text htext (not_exists.mp hwrites))

/-! ### Truth values -/

/-- A text that writes a truth value. -/
inductive WritesBoolean : Bool → List Char → Prop
  | yes : WritesBoolean true ['t', 'r', 'u', 'e']
  | no : WritesBoolean false ['f', 'a', 'l', 's', 'e']

theorem reads_boolean {b : Bool} {text : List Char} (h : WritesBoolean b text) :
    Reads boolean text b := by
  cases h with
  | yes =>
    refine ⟨⟨'t', _, rfl, by decide, by decide⟩, fun gap rest hgap _ => ?_⟩
    have hletters : Takes (letters ['r', 'u', 'e']) ['r', 'u', 'e'] rest () := fun _ => rfl
    exact takes_expecting hgap (by decide) rfl
      (takes_advance_bind (hletters.bind_nil (takes_pure true rest)) 't')
  | no =>
    refine ⟨⟨'f', _, rfl, by decide, by decide⟩, fun gap rest hgap _ => ?_⟩
    have hletters : Takes (letters ['a', 'l', 's', 'e']) ['a', 'l', 's', 'e'] rest () := fun _ => rfl
    exact takes_expecting hgap (by decide) rfl
      (takes_advance_bind (hletters.bind_nil (takes_pure false rest)) 'f')

theorem readsExactly_boolean : ReadsExactly boolean WritesBoolean where
  reads _ _ := reads_boolean
  refuses text htext hnot := by
    cases htext with
    | yes => exact absurd .yes (hnot true)
    | no => exact absurd .no (hnot false)
    | string h => exact refuses_of_isString h rfl
    | number h =>
      refine refuses_of_isNumber h fun c hc => ?_
      split
      · exact absurd (by decide) hc
      · exact absurd (by decide) hc
      · rfl
    | _ => exact refuses_expecting (by decide) rfl

/-! ### Strings and lists -/

/-- Whatever a string is said to be, it is read as what it spells. -/
theorem readsExactly_textAs (expected : String) : ReadsExactly (textAs expected) Spells where
  reads _ _ h := reads_textAs_of_spells h expected
  refuses text htext hnot := by
    cases htext with
    | string h => exact refuses_textAs_of_not_spells h hnot expected
    | number h =>
      exact refuses_of_isNumber h fun c hc => if_neg fun heq : c = '"' => hc (by simp [heq])
    | _ => exact refuses_expecting (by decide) rfl

/-- A list is refused for any element that writes nothing of what is wanted. -/
theorem readsExactly_list {element : Reader α} {writes : α → List Char → Prop}
    (h : ReadsExactly element writes) : ReadsExactly (list element) (WritesList writes) where
  reads values text hwrites := reads_list_of_writes hwrites h.reads
  refuses text htext hnot := by
    cases htext with
    | @array items inside hitems hinside =>
      by_cases hall : ∀ item ∈ items, ∃ a, writes a item
      · obtain ⟨values, hvalues⟩ := exists_forall₂_of_forall_mem hall
        exact absurd (.items hvalues hinside) (hnot values)
      · simp only [not_forall, not_exists] at hall
        obtain ⟨item, hitem, hnone⟩ := hall
        exact refuses_of_faultyList (fun _ => h.decides) (fun _ => id)
          ⟨items, ⟨hitems, inside, hinside, rfl⟩, item, hitem,
            h.refuses item (hitems item hitem) hnone⟩
    | string h => exact refuses_of_isString h rfl
    | number h =>
      exact refuses_of_isNumber h fun c hc => if_neg fun heq : c = '[' => hc (by simp [heq])
    | _ => exact refuses_expecting (by decide) rfl

/-! ### Natural numbers -/

namespace Numeral

/-- The value of some digits behind others of a known value. -/
def digitsValueFrom (value : Nat) (digits : List Char) : Nat :=
  digits.foldl (fun n c => n * 10 + (c.toNat - '0'.toNat)) value

theorem le_digitsValueFrom (value : Nat) (digits : List Char) :
    value ≤ digitsValueFrom value digits := by
  induction digits generalizing value with
  | nil => exact Nat.le_refl value
  | cons c rest ih =>
    have hstep : value ≤ value * 10 + (c.toNat - '0'.toNat) := by omega
    exact hstep.trans (ih _)

theorem digitsValue_le_append (digits more : List Char) :
    digitsValue digits ≤ digitsValue (digits ++ more) := by
  rw [digitsValue, digitsValue, List.foldl_append]
  exact le_digitsValueFrom _ more

theorem full_foldl_wholeDigit {reading : Reading} (h : reading.full = true) (digits : List Char) :
    (digits.foldl Reading.wholeDigit reading).full = true := by
  induction digits generalizing reading with
  | nil => exact h
  | cons c rest ih => exact ih (by simp [Reading.wholeDigit, h])

/-- Digits are read for their value as long as a word holds it, and fill the word otherwise. -/
theorem foldl_wholeDigit {value : Nat} (hvalue : value ≤ wordLimit) (digits : List Char) :
    (digitsValueFrom value digits ≤ wordLimit →
      digits.foldl Reading.wholeDigit ⟨value, 0, false⟩ = ⟨digitsValueFrom value digits, 0, false⟩) ∧
    (wordLimit < digitsValueFrom value digits →
      (digits.foldl Reading.wholeDigit ⟨value, 0, false⟩).full = true) := by
  induction digits generalizing value with
  | nil => exact ⟨fun _ => rfl, fun hlt => absurd hvalue (Nat.not_le.mpr hlt)⟩
  | cons c rest ih =>
    rw [List.foldl_cons, digitsValueFrom, List.foldl_cons, ← digitsValueFrom]
    by_cases hnext : value * 10 + (c.toNat - '0'.toNat) ≤ wordLimit
    · have hstep : Reading.wholeDigit ⟨value, 0, false⟩ c =
          ⟨value * 10 + (c.toNat - '0'.toNat), 0, false⟩ := if_neg (by simpa using hnext)
      rw [hstep]
      exact ih hnext
    · have hstep : Reading.wholeDigit ⟨value, 0, false⟩ c = ⟨value, 0 + 1, true⟩ :=
        if_pos (by simpa using hnext)
      have hle := le_digitsValueFrom (value * 10 + (c.toNat - '0'.toNat)) rest
      rw [hstep]
      exact ⟨fun hfits => absurd (hle.trans hfits) hnext, fun _ => full_foldl_wholeDigit rfl rest⟩

/-- A number amounts to a natural number if it has no sign, point or exponent and a word holds it. -/
theorem amount?_eq_unsigned_iff {numeral : Numeral} {n : Nat} :
    numeral.amount? = some (.unsigned n) ↔ numeral.negative = false ∧ numeral.fraction = none ∧
      numeral.exponent = none ∧ digitsValue numeral.whole = n ∧ n ≤ wordLimit := by
  obtain ⟨negative, whole, fraction, exponent⟩ := numeral
  obtain ⟨hfits, hfull⟩ := foldl_wholeDigit (Nat.zero_le wordLimit) whole
  rw [amount?]
  constructor
  · intro hamount
    simp only at hamount
    split at hamount
    · next hroom =>
      have hle : digitsValueFrom 0 whole ≤ wordLimit := by
        by_contra hlt
        exact Bool.false_ne_true (hroom.symm.trans (hfull (Nat.not_le.mp hlt)))
      rw [hfits hle] at hamount
      cases negative with
      | true =>
        simp only [if_true] at hamount
        split at hamount <;> cases hamount
      | false =>
        cases hamount
        exact ⟨rfl, rfl, rfl, rfl, hle⟩
    · -- Every other number is a floating point number.
      obtain ⟨size, -, hsize⟩ := Option.map_eq_some_iff.mp hamount
      cases hsize
  · rintro ⟨rfl, rfl, rfl, rfl, hle⟩
    simp [hfits hle]
    rfl

end Numeral

/-- A text that writes a natural number, if a word holds it. -/
structure WritesNatural (n : Nat) (text : List Char) : Prop where
  whole : IsWhole text
  value : digitsValue text = n
  fits : n ≤ wordLimit

theorem digitsValueFrom_eq_ofDigitChars (value : Nat) (digits : List Char) :
    digitsValueFrom value digits = Nat.ofDigitChars 10 digits value := by
  simp only [digitsValueFrom, Nat.ofDigitChars, Nat.mul_comm]

/-- No number but zero is written with a leading zero. -/
theorem head?_toDigits {n : Nat} (hn : n ≠ 0) : (Nat.toDigits 10 n).head? ≠ some '0' := by
  induction n using Nat.strong_induction_on with
  | _ n ih =>
    by_cases hlt : n < 10
    · rw [Nat.toDigits_of_lt_base hlt, List.head?_cons, ne_eq, Option.some.injEq,
        Nat.digitChar_eq_zero]
      exact hn
    · have hten := Nat.not_lt.mp hlt
      rw [Nat.toDigits_of_base_le (by decide) hten,
        List.head?_append_of_ne_nil _ Nat.toDigits_ne_nil]
      exact ih (n / 10) (by omega) (by omega)

/-- Every number that a word holds has a text that writes it. -/
theorem writesNatural_toDigits {n : Nat} (hfits : n ≤ wordLimit) :
    WritesNatural n (Nat.toDigits 10 n) where
  whole := by
    by_cases hn : n = 0
    · rw [hn, Nat.toDigits_zero]
      exact .zero
    · refine .digits ⟨Nat.toDigits_ne_nil, List.all_eq_true.mpr fun c hc => ?_⟩ (head?_toDigits hn)
      exact Nat.isDigit_of_mem_toDigits (by decide) (by decide) hc
  value := (digitsValueFrom_eq_ofDigitChars 0 _).trans Nat.ofDigitChars_ten_toDigits
  fits := hfits

namespace Reader

/-- What `natural` does with a number. -/
def wordOf : Amount → Reader Nat
  | .unsigned n => return n
  | .negative n => failLater (.wrongValue (.integer (-(n : Int))) "u64")
  | .floating x => failLater (.wrongType (.floating x) "u64")

theorem natural_eq : natural =
    expecting "u64" fun c => if c == '-' || c.isDigit then some (amount >>= wordOf) else none := rfl

theorem reads_natural {n : Nat} {text : List Char} (h : WritesNatural n text) :
    Reads natural text n := by
  obtain ⟨c, tail, rfl, hc⟩ := h.whole.exists_cons
  obtain ⟨hspace, hbracket⟩ := not_bracket_of_number (.inr hc)
  refine ⟨⟨c, tail, rfl, hspace, fun heq => hbracket (by simp [heq])⟩, fun gap rest hgap hends => ?_⟩
  obtain ⟨hdigit, -, hpoint⟩ := not_isDigit_of_parts .none .none hends
  have hnumeral : Takes (Reader.numeral .endInValue) (c :: tail) rest
      ⟨false, c :: tail, none, none⟩ := by
    have hparts := takes_numeral (.inl rfl) h.whole hdigit
      (takes_fractionDigits_none hpoint .endInValue) (takes_exponentDigits_none hends .endInValue)
    simpa using hparts
  have hamount : Takes amount (c :: tail) rest (.unsigned n) := by
    refine hnumeral.bind_nil ?_
    rw [amount?_eq_unsigned_iff.mpr ⟨rfl, rfl, rfl, h.value, h.fits⟩]
    exact takes_pure _ rest
  rw [natural_eq]
  exact takes_expecting hgap hspace (if_pos (by simp [hc])) (hamount.bind_nil (takes_pure n rest))

/-- A number fails as a natural one if it does not amount to one, whatever follows it. -/
theorem fails_wordOf {text : List Char}
    (h : Gives (Reader.numeral .endInValue) text fun numeral =>
      ∀ n, numeral.amount? ≠ some (.unsigned n)) : Fails (amount >>= wordOf) text := by
  have hamount : Gives amount text fun found => ∀ n, found ≠ .unsigned n := by
    refine h.bind fun numeral hnumeral rest => ?_
    cases hfound : numeral.amount? with
    | none => exact (fails_failHere _ rest).gives _
    | some found => exact gives_pure (fun n heq => hnumeral n (by rw [hfound, heq])) rest
  refine hamount.bind_fails fun found hfound rest => ?_
  cases found with
  | unsigned n => exact absurd rfl (hfound n)
  | negative n => exact fails_failLater _ rest
  | floating x => exact fails_failLater _ rest

section Numerals

variable {ended : Problem} {text : List Char}

theorem gives_numeral_negative :
    Gives (Reader.numeral ended) ('-' :: text) fun numeral => numeral.negative = true := by
  refine (takes_peek _).bind_gives_of_nil ((takes_advance '-' text).bind_gives ?_)
  refine gives_bind (fun whole _ => gives_bind (fun fraction _ => gives_bind (fun power rest => ?_)
    _ _) _ _) _ _
  exact gives_pure (P := fun numeral : Numeral => numeral.negative = true) rfl rest

/-- A number without a sign begins with its digits. -/
theorem gives_numeral_unsigned {c : Char} (hc : c.isDigit = true) {P : Numeral → Prop}
    (h : Gives (do
      let whole ← wholeDigits ended
      let fraction ← fractionDigits ended
      return Numeral.mk false whole fraction (← exponentDigits ended)) (c :: text) P) :
    Gives (Reader.numeral ended) (c :: text) P := by
  refine (takes_peek _).bind_gives_of_nil ?_
  simpa [beq_eq_false_iff_ne.mpr (not_sign_of_isDigit hc).2] using h

theorem gives_numeral_point {whole : List Char} (hwhole : IsWhole whole) :
    Gives (Reader.numeral ended) (whole ++ '.' :: text) fun numeral =>
      numeral.fraction ≠ none := by
  have hpoint : ¬ ('.' :: text).head?.any Char.isDigit := by simp
  have htaken := takes_wholeDigits hwhole hpoint ended
  have hfraction : Gives (fractionDigits ended) ('.' :: text) fun digits => digits ≠ none := by
    refine (takes_peek _).bind_gives_of_nil ((takes_advance '.' text).bind_gives ?_)
    exact gives_bind (fun digits rest => gives_pure nofun rest) _ _
  obtain ⟨c, tail, rfl, hc⟩ := hwhole.exists_cons
  refine gives_numeral_unsigned hc (htaken.bind_gives (hfraction.bind fun digits hdigits _ => ?_))
  refine gives_bind (fun power rest => ?_) _ _
  exact gives_pure (P := fun numeral : Numeral => numeral.fraction ≠ none) hdigits rest

theorem gives_numeral_exponent {whole : List Char} (hwhole : IsWhole whole) {mark : Char}
    (hmark : mark = 'e' ∨ mark = 'E') :
    Gives (Reader.numeral ended) (whole ++ mark :: text) fun numeral =>
      numeral.exponent ≠ none := by
  have hmarks : (some mark).any (fun c => c == 'e' || c == 'E') = true := by
    obtain rfl | rfl := hmark <;> rfl
  have hdigit : ¬ (mark :: text).head?.any Char.isDigit := by obtain rfl | rfl := hmark <;> simp
  have hpoint : (mark :: text).head? ≠ some '.' := by obtain rfl | rfl := hmark <;> simp
  have htaken := takes_wholeDigits hwhole hdigit ended
  have hfraction := takes_fractionDigits_none hpoint ended
  have hexponent : Gives (exponentDigits ended) (mark :: text) fun power => power ≠ none := by
    refine (takes_peek _).bind_gives_of_nil ?_
    simp only [List.head?_cons, hmarks, if_true]
    refine (takes_advance mark text).bind_gives (gives_bind (fun sign rest => ?_) _ _)
    have hbehind (text : List Char) : Gives (do return some (sign == some '-', ← someDigits ended))
        text fun power => power ≠ none := gives_bind (fun digits rest => gives_pure nofun rest) _ _
    split
    · exact gives_bind (fun _ => hbehind) _ _
    · exact hbehind rest
  obtain ⟨c, tail, rfl, hc⟩ := hwhole.exists_cons
  refine gives_numeral_unsigned hc (htaken.bind_gives (hfraction.bind_gives_of_nil ?_))
  refine hexponent.bind fun power hpower rest => ?_
  exact gives_pure (P := fun numeral : Numeral => numeral.exponent ≠ none) hpower rest

theorem gives_run (class? : Char → Bool) (text : List Char) :
    Gives (run class?) text fun found => found = text.takeWhile class? := by
  intro place found next hread
  rw [run, on_bind_of_ok (on_get _), on_bind_of_ok (on_set ..), on_pure] at hread
  cases hread
  rfl

/-- Digits go on as long as there are any. -/
theorem gives_numeral_digits {digits : List Char} (hdigits : IsDigits digits)
    (hzero : digits.head? ≠ some '0') :
    Gives (Reader.numeral ended) (digits ++ text) fun numeral => digits <+: numeral.whole := by
  have hsome : Gives (someDigits ended) (digits ++ text) fun whole => digits <+: whole := by
    refine (gives_run Char.isDigit _).bind fun found hfound rest => ?_
    rw [List.takeWhile_append_of_pos (List.all_eq_true.mp hdigits.all)] at hfound
    split
    · next hempty =>
      rw [hfound, List.isEmpty_iff, List.append_eq_nil_iff] at hempty
      exact absurd hempty.1 hdigits.ne_nil
    · exact gives_pure ⟨_, hfound.symm⟩ rest
  obtain ⟨c, tail, rfl⟩ := List.exists_cons_of_ne_nil hdigits.ne_nil
  have hwhole : Gives (wholeDigits ended) (c :: tail ++ text) fun whole => c :: tail <+: whole := by
    have hc : c ≠ '0' := fun heq => hzero (congrArg some heq)
    refine (takes_peek _).bind_gives_of_nil ?_
    simp only [List.cons_append, List.head?_cons]
    split
    · next heq => exact absurd (Option.some.inj heq) hc
    · exact hsome
  refine gives_numeral_unsigned (Bool.and_eq_true_iff.mp hdigits.all).1
    (hwhole.bind fun whole hprefix _ => gives_bind (fun fraction _ => gives_bind (fun power rest => ?_)
      _ _) _ _)
  exact gives_pure (P := fun numeral : Numeral => c :: tail <+: numeral.whole) hprefix rest

/-- Digits that no word holds only grow. -/
theorem gives_numeral_whole {whole : List Char} (hwhole : IsWhole whole)
    (hlarge : ¬ digitsValue whole ≤ wordLimit) :
    Gives (Reader.numeral ended) (whole ++ text) fun numeral =>
      ¬ digitsValue numeral.whole ≤ wordLimit := by
  cases hwhole with
  | zero => exact absurd (Nat.zero_le _) hlarge
  | digits hdigits hzero =>
    refine (gives_numeral_digits hdigits hzero).imp fun numeral ⟨more, hmore⟩ hfits => hlarge ?_
    rw [← hmore] at hfits
    exact (digitsValue_le_append whole more).trans hfits

end Numerals

/-- Behind any separators a number is refused as a natural one if whatever it can go on as amounts to
    none. -/
theorem refuses_natural {text : List Char} (h : IsNumber text)
    (hgives : ∀ rest, Gives (Reader.numeral .endInValue) (text ++ rest) fun numeral =>
      ∀ n, numeral.amount? ≠ some (.unsigned n)) : Refuses natural text := by
  intro gap rest hgap
  have hfails := fails_wordOf (hgives rest)
  obtain ⟨c, tail, rfl, hc⟩ := h.exists_cons
  obtain ⟨hspace, -⟩ := not_bracket_of_number hc
  rw [natural_eq]
  refine fails_expecting hgap hspace fun reader hreader => ?_
  rw [if_pos (by simpa using hc)] at hreader
  exact Option.some.inj hreader ▸ hfails

theorem readsExactly_natural : ReadsExactly natural WritesNatural where
  reads _ _ := reads_natural
  refuses text htext hnot := by
    cases htext with
    | @number text h =>
      refine refuses_natural h fun rest => ?_
      -- A sign, a point, an exponent or too many digits stay what they are, whatever follows.
      cases h with
      | @parts sign whole fraction exponent hsign hwhole hfraction hexponent =>
        obtain rfl | rfl := hsign
        · cases hfraction with
          | digits hdigits =>
            rw [List.nil_append, List.append_assoc, List.cons_append, List.cons_append]
            exact (gives_numeral_point hwhole).imp fun numeral hpoint n hn =>
              hpoint (amount?_eq_unsigned_iff.mp hn).2.1
          | none =>
            rw [List.nil_append, List.nil_append] at hnot ⊢
            cases hexponent with
            | digits mark hmark sign hsign hdigits =>
              rw [List.append_assoc, List.cons_append]
              exact (gives_numeral_exponent hwhole hmark).imp fun numeral hexponent n hn =>
                hexponent (amount?_eq_unsigned_iff.mp hn).2.2.1
            | none =>
              rw [List.append_nil] at hnot ⊢
              exact (gives_numeral_whole hwhole fun hfits => hnot _ ⟨hwhole, rfl, hfits⟩).imp
                fun numeral hlarge n hn => hlarge ((amount?_eq_unsigned_iff.mp hn).2.2.2.1 ▸
                  (amount?_eq_unsigned_iff.mp hn).2.2.2.2)
        · exact gives_numeral_negative.imp fun numeral hnegative n hn =>
            Bool.false_ne_true ((amount?_eq_unsigned_iff.mp hn).1.symm.trans hnegative)
    | string h => exact refuses_of_isString h rfl
    | _ => exact refuses_expecting (by decide) rfl

end Reader
end SourceSurvey.Json
