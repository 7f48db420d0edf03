import Mathlib.Data.List.TakeWhile
import SourceSurvey.Text.Split

/-!
A text with its line ends written in the other way, and what the two texts have in common: whatever
is found in one by looking for characters that end no line is found in the other.
-/

namespace SourceSurvey.Text

/-- A text with every line feed written as a carriage return and a line feed. -/
def crlf : List Char → List Char
  | [] => []
  | c :: rest => if c = '\n' then '\r' :: '\n' :: crlf rest else c :: crlf rest

@[simp] theorem crlf_nil : crlf [] = [] := rfl

@[simp] theorem crlf_lineFeed (rest : List Char) :
    crlf ('\n' :: rest) = '\r' :: '\n' :: crlf rest := rfl

theorem crlf_cons {c : Char} (hc : c ≠ '\n') (rest : List Char) :
    crlf (c :: rest) = c :: crlf rest := if_neg hc

theorem crlf_append (first second : List Char) :
    crlf (first ++ second) = crlf first ++ crlf second := by
  induction first with
  | nil => rfl
  | cons c first ih =>
    by_cases hc : c = '\n'
    · subst hc
      simp only [List.cons_append, crlf_lineFeed, ih]
    · simp only [List.cons_append, crlf_cons hc, ih]

/-- A text within one line is written in one way only. -/
theorem crlf_eq_self {text : List Char} (hline : '\n' ∉ text) : crlf text = text := by
  induction text with
  | nil => rfl
  | cons c text ih =>
    obtain ⟨hc, htext⟩ := List.ne_and_not_mem_of_not_mem_cons hline
    rw [crlf_cons (Ne.symm hc), ih htext]

theorem crlf_eq_nil {text : List Char} : crlf text = [] ↔ text = [] := by
  cases text with
  | nil => exact Iff.rfl
  | cons c text =>
    by_cases hc : c = '\n'
    · subst hc
      simp
    · simp [crlf_cons hc]

theorem mem_crlf {d : Char} (hd : d ≠ '\r') {text : List Char} : d ∈ crlf text ↔ d ∈ text := by
  induction text with
  | nil => rfl
  | cons c text ih =>
    by_cases hc : c = '\n'
    · subst hc
      simp [hd, ih]
    · simp [crlf_cons hc, ih]

theorem length_crlf (text : List Char) : (crlf text).length = text.length + text.count '\n' := by
  induction text with
  | nil => rfl
  | cons c text ih =>
    by_cases hc : c = '\n'
    · subst hc
      simp only [crlf_lineFeed, List.length_cons, ih, List.count_cons_self]
      omega
    · simp only [crlf_cons hc, List.length_cons, ih, List.count_cons_of_ne hc]
      omega

/-- The first part of a text, written in the other way, comes first in the other text. -/
theorem take_crlf (text : List Char) (n : Nat) :
    (crlf text).take (crlf (text.take n)).length = crlf (text.take n) := by
  have hsplit := crlf_append (text.take n) (text.drop n)
  rw [List.take_append_drop] at hsplit
  rw [hsplit, List.take_left]

theorem drop_crlf (text : List Char) (n : Nat) :
    (crlf text).drop (crlf (text.take n)).length = crlf (text.drop n) := by
  have hsplit := crlf_append (text.take n) (text.drop n)
  rw [List.take_append_drop] at hsplit
  rw [hsplit, List.drop_left]

theorem length_crlf_take_add (text : List Char) (n m : Nat) :
    (crlf (text.take (n + m))).length =
      (crlf (text.take n)).length + (crlf ((text.drop n).take m)).length := by
  rw [List.take_add, crlf_append, List.length_append]

/-- What stands within the first line stands at the same place in both texts. -/
theorem drop_crlf_of_line (text : List Char) {n : Nat} (hline : '\n' ∉ text.take n) :
    (crlf text).drop n = crlf (text.drop n) := by
  by_cases hn : n ≤ text.length
  · have hdrop := drop_crlf text n
    rwa [crlf_eq_self hline, List.length_take_of_le hn] at hdrop
  · have hle : text.length ≤ n := Nat.le_of_not_le hn
    rw [List.take_of_length_le hle] at hline
    rw [crlf_eq_self hline, List.drop_of_length_le hle]
    rfl

theorem take_crlf_of_line {text : List Char} {n : Nat} (hline : '\n' ∉ text.take n) :
    (crlf text).take n = text.take n := by
  by_cases hn : n ≤ text.length
  · have htake := take_crlf text n
    rwa [crlf_eq_self hline, List.length_take_of_le hn] at htake
  · have hle : text.length ≤ n := Nat.le_of_not_le hn
    rw [List.take_of_length_le hle] at hline
    rw [crlf_eq_self hline]

section Searching

variable {p : Char → Bool}

/-- A run of characters that ends at a line end is the same in both texts. -/
theorem takeWhile_crlf (hfeed : p '\n' = false) (hreturn : p '\r' = false) (text : List Char) :
    (crlf text).takeWhile p = text.takeWhile p := by
  induction text with
  | nil => rfl
  | cons c text ih =>
    by_cases hc : c = '\n'
    · subst hc
      simp [hfeed, hreturn]
    · rw [crlf_cons hc, List.takeWhile_cons, List.takeWhile_cons, ih]

theorem not_mem_takeWhile (hfeed : p '\n' = false) (text : List Char) :
    '\n' ∉ text.takeWhile p := by
  intro hmem
  have hp := List.mem_takeWhile_imp hmem
  rw [hfeed] at hp
  cases hp

/-- A run of characters that goes on over line ends is the same but for them. -/
theorem takeWhile_crlf_of_pos (hfeed : p '\n' = true) (hreturn : p '\r' = true)
    (text : List Char) : (crlf text).takeWhile p = crlf (text.takeWhile p) := by
  induction text with
  | nil => rfl
  | cons c text ih =>
    by_cases hc : c = '\n'
    · subst hc
      simp [hfeed, hreturn, ih]
    · rw [crlf_cons hc, List.takeWhile_cons, List.takeWhile_cons, ih]
      split
      · rw [crlf_cons hc]
      · rfl

/-- As many characters of some kind as are asked for come first in both texts or in none. -/
theorem all_take_crlf (hfeed : p '\n' = false) (hreturn : p '\r' = false) (text : List Char)
    (n : Nat) :
    ((crlf text).take n).length = n ∧ ((crlf text).take n).all p = true ↔
      (text.take n).length = n ∧ (text.take n).all p = true := by
  induction text generalizing n with
  | nil => rfl
  | cons c text ih =>
    cases n with
    | zero => simp
    | succ n =>
      by_cases hc : c = '\n'
      · subst hc
        simp [hfeed, hreturn]
      · have hrest := ih n
        simp only [crlf_cons hc, List.take_succ_cons, List.length_cons, List.all_cons,
          Nat.add_right_cancel_iff, Bool.and_eq_true]
        rw [and_left_comm, hrest, and_left_comm]

theorem headD_crlf (hfeed : p '\n' = false) (hreturn : p '\r' = false) {d : Char}
    (text : List Char) : p ((crlf text).headD d) = p (text.headD d) := by
  cases text with
  | nil => rfl
  | cons c text =>
    by_cases hc : c = '\n'
    · subst hc
      exact hreturn.trans hfeed.symm
    · rw [crlf_cons hc]
      rfl

end Searching

/-- A text begins with a certain word in both ways of writing or in none. -/
theorem isPrefixOf_crlf {word : List Char} (hfeed : '\n' ∉ word) (hreturn : '\r' ∉ word)
    (text : List Char) : word.isPrefixOf (crlf text) = word.isPrefixOf text := by
  induction word generalizing text with
  | nil => rfl
  | cons w word ih =>
    obtain ⟨hw, hword⟩ := List.ne_and_not_mem_of_not_mem_cons hfeed
    obtain ⟨hw', hword'⟩ := List.ne_and_not_mem_of_not_mem_cons hreturn
    cases text with
    | nil => rfl
    | cons c text =>
      by_cases hc : c = '\n'
      · subst hc
        have hfirst : (w == '\n') = false := beq_eq_false_iff_ne.mpr (Ne.symm hw)
        have hfirst' : (w == '\r') = false := beq_eq_false_iff_ne.mpr (Ne.symm hw')
        simp only [crlf_lineFeed, List.isPrefixOf, hfirst, hfirst', Bool.false_and]
      · rw [crlf_cons hc, List.isPrefixOf, List.isPrefixOf, ih hword hword']

/-- What comes first is the same, unless that is a line end. -/
theorem head?_crlf (text : List Char) :
    (crlf text).head? = if text.head? = some '\n' then some '\r' else text.head? := by
  cases text with
  | nil => rfl
  | cons c text =>
    by_cases hc : c = '\n'
    · subst hc
      rfl
    · simp [crlf_cons hc, hc]

/-- What does not come next in a text does not come next in the other either. -/
theorem crlf_ne_cons {d : Char} (hreturn : d ≠ '\r') {text : List Char}
    (htext : ∀ more, text ≠ d :: more) (more : List Char) : crlf text ≠ d :: more := by
  intro heq
  cases text with
  | nil => cases heq
  | cons c rest =>
    by_cases hc : c = '\n'
    · subst hc
      exact hreturn (List.cons.inj heq).1.symm
    · rw [crlf_cons hc] at heq
      exact htext rest (congrArg (· :: rest) (List.cons.inj heq).1)

/-- Both texts have the same line ends when these are not told apart. -/
theorem unixLineEnds_crlf {text : List Char} (hreturn : '\r' ∉ text) :
    unixLineEnds (crlf text) = text := by
  induction text with
  | nil => rfl
  | cons c text ih =>
    obtain ⟨hc', htext⟩ := List.ne_and_not_mem_of_not_mem_cons hreturn
    by_cases hc : c = '\n'
    · subst hc
      rw [crlf_lineFeed, unixLineEnds, ih htext]
    · rw [crlf_cons hc, unixLineEnds, ih htext]
      · rintro rest rfl
        exact absurd rfl hc'
      · rintro rfl
        exact absurd rfl hc'

end SourceSurvey.Text
