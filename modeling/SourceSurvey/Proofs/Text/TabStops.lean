import SourceSurvey.Proofs.Docstring.Tabs
import SourceSurvey.Syntax.Indentation

/-!
Tab stops. What column a text reaches is said without a formula, by the least multiple of a size that
lies behind a column. The expansion of a line puts every character at the column that the text before
it reaches, and the check of indentation measures the same column.
-/

namespace SourceSurvey.Text

/-- The first tab stop behind a column: the least multiple of a size that is greater. -/
structure IsNextStop (size column stop : Nat) : Prop where
  dvd : size ∣ stop
  behind : column < stop
  least : ∀ other, size ∣ other → column < other → stop ≤ other

/-- The column behind a character at some column: a tab leads to the next tab stop, and any other
    character takes one column. -/
inductive Advances (size column : Nat) : Char → Nat → Prop
  | tab {stop : Nat} (h : IsNextStop size column stop) : Advances size column '\t' stop
  | other {c : Char} (hc : c ≠ '\t') : Advances size column c (column + 1)

/-- The column behind a text that begins at some column. -/
inductive Reaches (size : Nat) : Nat → List Char → Nat → Prop
  | nil {column : Nat} : Reaches size column [] column
  | cons {column next final : Nat} {c : Char} {rest : List Char} (h : Advances size column c next)
      (tail : Reaches size next rest final) : Reaches size column (c :: rest) final

variable {size column : Nat}

theorem IsNextStop.unique {stop other : Nat} (h : IsNextStop size column stop)
    (hother : IsNextStop size column other) : stop = other :=
  Nat.le_antisymm (h.least other hother.dvd hother.behind) (hother.least stop h.dvd h.behind)

theorem Advances.unique {c : Char} {next other : Nat} (h : Advances size column c next)
    (hother : Advances size column c other) : next = other := by
  cases h with
  | tab h =>
    cases hother with
    | tab hother => exact h.unique hother
    | other hc => exact absurd rfl hc
  | other hc =>
    cases hother with
    | tab _ => exact absurd rfl hc
    | other _ => rfl

theorem Reaches.unique {text : List Char} {final other : Nat} (h : Reaches size column text final)
    (hother : Reaches size column text other) : final = other := by
  induction h with
  | nil =>
    cases hother
    rfl
  | cons h _ ih =>
    cases hother with
    | cons hother tail =>
      cases h.unique hother
      exact ih tail

/-- The next tab stop by division: one more than the stops that lie before. -/
theorem isNextStop_div (hsize : 0 < size) (column : Nat) :
    IsNextStop size column ((column / size + 1) * size) where
  dvd := Nat.dvd_mul_left size _
  behind := by
    have hdiv := Nat.div_add_mod' column size
    have hmod := Nat.mod_lt column hsize
    rw [Nat.add_one_mul]
    omega
  least := by
    rintro _ ⟨stops, rfl⟩ hbehind
    rw [Nat.mul_comm size stops] at hbehind ⊢
    exact Nat.mul_le_mul_right size (Nat.div_lt_of_lt_mul (Nat.mul_comm stops size ▸ hbehind))

/-- The next tab stop by the remainder: as far as the last stop is not yet passed. -/
theorem isNextStop_mod (hsize : 0 < size) (column : Nat) :
    IsNextStop size column (column + (size - column % size)) := by
  have hstop : column + (size - column % size) = (column / size + 1) * size := by
    have hdiv := Nat.div_add_mod' column size
    have hmod := Nat.mod_lt column hsize
    rw [Nat.add_one_mul]
    omega
  rw [hstop]
  exact isNextStop_div hsize column

/-! ### The expansion -/

/-- A tab is expanded up to the next tab stop, so the expansion of a line is as long as the columns
    that the line takes. -/
theorem reaches_expandTabsFrom (hsize : 0 < size) (column : Nat) (line : List Char) :
    Reaches size column line (column + (expandTabsFrom size column line).length) := by
  fun_induction expandTabsFrom size column line with
  | case1 column => exact .nil
  | case2 column rest pad ih =>
    rw [List.length_append, List.length_replicate, ← Nat.add_assoc]
    exact .cons (.tab (isNextStop_mod hsize column)) ih
  | case3 column c rest hc ih =>
    rw [List.length_cons, Nat.add_comm _ 1, ← Nat.add_assoc]
    exact .cons (.other hc) ih

/-- What follows a text is expanded from the column that the text reaches. -/
theorem expandTabsFrom_append (size column : Nat) (first second : List Char) :
    expandTabsFrom size column (first ++ second) = expandTabsFrom size column first ++
      expandTabsFrom size (column + (expandTabsFrom size column first).length) second := by
  fun_induction expandTabsFrom size column first with
  | case1 column => rfl
  | case2 column rest pad ih =>
    rw [List.cons_append, expandTabsFrom, ih, List.length_append, List.length_replicate,
      List.append_assoc, Nat.add_assoc]
  | case3 column c rest hc ih =>
    rw [List.cons_append, expandTabsFrom.eq_3 _ _ _ _ hc, ih, List.length_cons, List.cons_append,
      Nat.add_right_comm, Nat.add_assoc]

/-- A text that ends at a tab stop is expanded on its own. -/
theorem expandTabs_append {first second : List Char} (h : size ∣ (expandTabs size first).length) :
    expandTabs size (first ++ second) = expandTabs size first ++ expandTabs size second := by
  have hstop : 0 + (expandTabs size first).length ≡ 0 [MOD size] := by
    rw [Nat.zero_add]
    exact Nat.modEq_zero_iff_dvd.mpr h
  rw [expandTabs, expandTabsFrom_append]
  exact congrArg _ (expandTabsFrom_congr hstop second)

/-- A text is a line with its tabs expanded: the other characters are kept in their order, each at
    the column that the text before it reaches, and all else is spaces. -/
structure Expands (size : Nat) (line expansion : List Char) : Prop where
  keeps : (line.filter (· ≠ '\t')).Sublist expansion
  length : Reaches size 0 line expansion.length
  places : ∀ before c after column, line = before ++ c :: after → c ≠ '\t' →
    Reaches size 0 before column → expansion[column]? = some c
  fills : ∀ column c, expansion[column]? = some c → c = ' ' ∨
    ∃ before after, line = before ++ c :: after ∧ c ≠ '\t' ∧ Reaches size 0 before column

theorem filter_sublist_expandTabsFrom (size column : Nat) (line : List Char) :
    (line.filter (· ≠ '\t')).Sublist (expandTabsFrom size column line) := by
  fun_induction expandTabsFrom size column line with
  | case1 column => exact List.nil_sublist []
  | case2 column rest pad ih =>
    rw [List.filter_cons_of_neg (by simp)]
    exact ih.trans (List.sublist_append_right _ _)
  | case3 column c rest hc ih =>
    rw [List.filter_cons_of_pos (by simpa using hc)]
    exact ih.cons_cons c

theorem getElem?_expandTabs (hsize : 0 < size) {before after : List Char} {c : Char} (hc : c ≠ '\t')
    (hcolumn : Reaches size 0 before column) :
    (expandTabs size (before ++ c :: after))[column]? = some c := by
  have hlength := hcolumn.unique (reaches_expandTabsFrom hsize 0 before)
  rw [Nat.zero_add] at hlength
  rw [expandTabs, expandTabsFrom_append, expandTabsFrom.eq_3 _ _ _ _ hc, hlength,
    List.getElem?_append_right (Nat.le_refl _), Nat.sub_self]
  rfl

/-- A character of the expansion that is no space has its place from the line. -/
theorem exists_of_getElem?_expandTabsFrom (hsize : 0 < size) {line : List Char} {index : Nat}
    {c : Char} (h : (expandTabsFrom size column line)[index]? = some c) :
    c = ' ' ∨ ∃ before after, line = before ++ c :: after ∧ c ≠ '\t' ∧
      Reaches size column before (column + index) := by
  induction line generalizing column index with
  | nil => cases h
  | cons d rest ih =>
    by_cases hd : d = '\t'
    · subst hd
      rw [expandTabsFrom] at h
      by_cases hpad : index < size - column % size
      · rw [List.getElem?_append_left (by simpa using hpad)] at h
        exact .inl (List.eq_of_mem_replicate (List.mem_of_getElem? h))
      · rw [List.getElem?_append_right (by simpa using hpad), List.length_replicate] at h
        obtain hspace | ⟨before, after, hline, hc, hreaches⟩ := ih h
        · exact .inl hspace
        · have hcolumn : column + (size - column % size) + (index - (size - column % size)) =
              column + index := by omega
          rw [hcolumn] at hreaches
          exact .inr ⟨'\t' :: before, after, by rw [hline, List.cons_append], hc,
            .cons (.tab (isNextStop_mod hsize column)) hreaches⟩
    · rw [expandTabsFrom.eq_3 _ _ _ _ hd] at h
      cases index with
      | zero =>
        cases h
        exact .inr ⟨[], rest, rfl, hd, .nil⟩
      | succ index =>
        obtain hspace | ⟨before, after, hline, hc, hreaches⟩ := ih h
        · exact .inl hspace
        · rw [Nat.add_assoc, Nat.add_comm 1] at hreaches
          exact .inr ⟨d :: before, after, by rw [hline, List.cons_append], hc,
            .cons (.other hd) hreaches⟩

theorem expands_expandTabs (hsize : 0 < size) (line : List Char) :
    Expands size line (expandTabs size line) where
  keeps := filter_sublist_expandTabsFrom size 0 line
  length := by simpa [expandTabs] using reaches_expandTabsFrom hsize 0 line
  places := by
    rintro before c after column rfl hc hcolumn
    exact getElem?_expandTabs hsize hc hcolumn
  fills := by
    intro column c h
    simpa using exists_of_getElem?_expandTabsFrom hsize h

/-- A line has no other expansion. -/
theorem Expands.unique {line expansion other : List Char} (h : Expands size line expansion)
    (hother : Expands size line other) : expansion = other := by
  have hlength := h.length.unique hother.length
  refine List.ext_getElem hlength fun column hcolumn hcolumn' => ?_
  have hfound := List.getElem?_eq_getElem hcolumn
  have hfound' := List.getElem?_eq_getElem hcolumn'
  obtain hspace | ⟨before, after, hline, hc, hreaches⟩ := h.fills column _ hfound
  · obtain hspace' | ⟨before, after, hline, hc, hreaches⟩ := hother.fills column _ hfound'
    · exact hspace.trans hspace'.symm
    · exact Option.some.inj
        (hfound.symm.trans (h.places before _ after column hline hc hreaches))
  · exact Option.some.inj
      ((hother.places before _ after column hline hc hreaches).symm.trans hfound')

theorem expands_iff (hsize : 0 < size) (line expansion : List Char) :
    Expands size line expansion ↔ expansion = expandTabs size line :=
  ⟨fun h => h.unique (expands_expandTabs hsize line), fun h => h ▸ expands_expandTabs hsize line⟩

/-! ### The check of indentation -/

/-- In an indentation every character advances as the check of indentation measures it. -/
theorem advances_after (i : Syntax.Indent) {c : Char} (hc : c = ' ' ∨ c = '\t') :
    Advances 8 i.stops c (i.after c).stops := by
  obtain rfl | rfl := hc
  · exact .other (by decide)
  · exact .tab (isNextStop_div (by decide) i.stops)

theorem reaches_foldl_after (i : Syntax.Indent) {margin : List Char}
    (hmargin : ∀ c ∈ margin, c = ' ' ∨ c = '\t') :
    Reaches 8 i.stops margin (margin.foldl Syntax.Indent.after i).stops := by
  induction margin generalizing i with
  | nil => exact .nil
  | cons c rest ih =>
    rw [List.forall_mem_cons] at hmargin
    exact .cons (advances_after i hmargin.1) (ih (i.after c) hmargin.2)

/-- Expanding the tabs of a line keeps all other characters, in their order and at the columns that
    tab stops give them; a text whose expansion ends at a tab stop is expanded apart from what follows
    it; and an indentation is expanded to as many spaces as the check of indentation counts
    columns. -/
theorem expandTabs_stops :
    (∀ line expansion, Expands 8 line expansion ↔ expansion = expandTabs 8 line) ∧
      (∀ first second, 8 ∣ (expandTabs 8 first).length →
        expandTabs 8 (first ++ second) = expandTabs 8 first ++ expandTabs 8 second) ∧
      ∀ margin, (∀ c ∈ margin, c = ' ' ∨ c = '\t') →
        (expandTabs 8 margin).length = (Syntax.Indent.ofText margin).stops := by
  refine ⟨expands_iff (by decide), fun _ _ => expandTabs_append, fun margin hmargin => ?_⟩
  have hexpansion := (expands_expandTabs (by decide : 0 < 8) margin).length
  exact hexpansion.unique (reaches_foldl_after ⟨0, 0⟩ hmargin)

/-- A tab behind two characters, a text behind it, and an indentation of both kinds. -/
theorem expandTabs_stops_mixed :
    (expandTabs 8 ['a', '\t', 'b'])[8]? = some 'b' ∧
      expandTabs 8 (['a', 'b', '\t'] ++ ['\t', 'c']) =
        expandTabs 8 ['a', 'b', '\t'] ++ expandTabs 8 ['\t', 'c'] ∧
      (expandTabs 8 [' ', ' ', '\t', ' ']).length =
        (Syntax.Indent.ofText [' ', ' ', '\t', ' ']).stops := by
  obtain ⟨hexpands, happend, hmargin⟩ := expandTabs_stops
  have hcolumn : Reaches 8 0 ['a', '\t'] 8 :=
    .cons (.other (by decide)) (.cons (.tab (isNextStop_mod (by decide) 1)) .nil)
  exact ⟨((hexpands _ _).mpr rfl).places ['a', '\t'] 'b' [] 8 rfl (by decide) hcolumn,
    happend _ _ (by decide), hmargin _ (by simp)⟩

end SourceSurvey.Text
