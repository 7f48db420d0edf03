/-!
Cutting a text at a separator, and line ends.
-/

namespace SourceSurvey.Text

variable {α : Type} [DecidableEq α]

/-- The fields between the occurrences of a separator: one more than there are separators. -/
def split (separator : α) : List α → List (List α)
  | [] => [[]]
  | c :: rest =>
    if c = separator then [] :: split separator rest
    else
      match split separator rest with
      | [] => [[c]]
      | field :: fields => (c :: field) :: fields

/-- The fields up to the given number of separators; the last field keeps all others. -/
def splitAtMost (separator : α) : Nat → List α → List (List α)
  | 0, text => [text]
  | _ + 1, [] => [[]]
  | n + 1, c :: rest =>
    if c = separator then [] :: splitAtMost separator n rest
    else
      match splitAtMost separator (n + 1) rest with
      | [] => [[c]]
      | field :: fields => (c :: field) :: fields

/-- The fields with a separator between each two. -/
def join {α : Type} (separator : List α) (fields : List (List α)) : List α :=
  separator.intercalate fields

/-- A text with every line end written as a single line feed, whether it was a carriage return, a
    line feed or both. -/
def unixLineEnds : List Char → List Char
  | [] => []
  | '\r' :: '\n' :: rest => '\n' :: unixLineEnds rest
  | '\r' :: rest => '\n' :: unixLineEnds rest
  | c :: rest => c :: unixLineEnds rest

/-- A line without the carriage return at its end. -/
def dropCarriageReturn (line : List Char) : List Char :=
  if line.getLast? = some '\r' then line.dropLast else line

/-- The lines of a text. A line feed ends a line, with one carriage return before it; what stands
    behind the last line feed is a line only if it is not empty, and is taken as it is. -/
def lines (text : List Char) : List (List Char) :=
  let fields := split '\n' text
  fields.dropLast.map dropCarriageReturn ++
    match fields.getLast? with
    | some [] | none => []
    | some last => [last]

/-- Splitting never yields an empty list. -/
theorem split_ne_nil (separator : α) (text : List α) : split separator text ≠ [] := by
  cases text with
  | nil => simp [split]
  | cons c rest =>
    rw [split]
    split
    · simp
    · split <;> simp

/-- No field has the separator in it. -/
theorem not_mem_of_mem_split {separator : α} {text field : List α}
    (hfield : field ∈ split separator text) : separator ∉ field := by
  induction text generalizing field with
  | nil => simp_all [split]
  | cons c rest ih =>
    obtain ⟨first, fields, hsplit⟩ := List.exists_cons_of_ne_nil (split_ne_nil separator rest)
    rw [hsplit] at ih
    rw [split, hsplit] at hfield
    by_cases hc : c = separator
    · rw [if_pos hc, List.mem_cons] at hfield
      obtain rfl | hfield := hfield
      · exact List.not_mem_nil
      · exact ih hfield
    · rw [if_neg hc, List.mem_cons] at hfield
      obtain rfl | hfield := hfield
      · have hfirst := ih List.mem_cons_self
        exact fun hmem => (List.mem_cons.mp hmem).elim (fun h => hc h.symm) hfirst
      · exact ih (List.mem_cons_of_mem _ hfield)

/-- The fields of a text joined by the separator are the text. -/
theorem join_split (separator : α) (text : List α) :
    join [separator] (split separator text) = text := by
  induction text with
  | nil => rfl
  | cons c rest ih =>
    rw [split]
    split
    · next heq =>
      obtain ⟨field, fields, hsplit⟩ := List.exists_cons_of_ne_nil (split_ne_nil separator rest)
      rw [hsplit] at ih ⊢
      simp only [join, List.intercalate, List.intersperse, List.flatten_cons, List.nil_append,
        List.cons_append] at ih ⊢
      rw [ih, heq]
    · next hne =>
      obtain ⟨field, fields, hsplit⟩ := List.exists_cons_of_ne_nil (split_ne_nil separator rest)
      rw [hsplit] at ih ⊢
      cases fields <;> simp_all [join, List.intercalate, List.intersperse]

theorem split_of_not_mem {separator : α} {field : List α} (h : separator ∉ field) :
    split separator field = [field] := by
  induction field with
  | nil => rfl
  | cons c rest ih =>
    have hc : c ≠ separator := fun heq => h (heq ▸ List.mem_cons_self)
    rw [split, if_neg hc, ih fun hmem => h (List.mem_cons_of_mem c hmem)]

/-- At a separator a text falls into two parts that are split on their own. -/
theorem split_append (separator : α) (first rest : List α) :
    split separator (first ++ separator :: rest) =
      split separator first ++ split separator rest := by
  induction first with
  | nil => exact if_pos rfl
  | cons c first ih =>
    obtain ⟨field, fields, hsplit⟩ := List.exists_cons_of_ne_nil (split_ne_nil separator first)
    rw [List.cons_append, split, split, ih, hsplit]
    split <;> rfl

/-- Fields without the separator are found again in the text that joins them. -/
theorem split_join {separator : α} {fields : List (List α)} (hne : fields ≠ [])
    (hfields : ∀ field ∈ fields, separator ∉ field) :
    split separator (join [separator] fields) = fields := by
  induction fields with
  | nil => exact absurd rfl hne
  | cons field fields ih =>
    obtain ⟨hfield, hrest⟩ := List.forall_mem_cons.mp hfields
    cases fields with
    | nil =>
      have hjoin : join [separator] [field] = field := by simp [join, List.intercalate]
      rw [hjoin, split_of_not_mem hfield]
    | cons next fields =>
      have hjoin : join [separator] (field :: next :: fields) =
          field ++ separator :: join [separator] (next :: fields) := by
        simp [join, List.intercalate]
      rw [hjoin, split_append, split_of_not_mem hfield, ih (List.cons_ne_nil next fields) hrest]
      rfl

end SourceSurvey.Text
